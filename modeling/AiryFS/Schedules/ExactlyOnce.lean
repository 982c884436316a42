import AiryFS.Schedules.RunnerSteps

/-! Every slot of a schedule yields one job, over every run of requests, alarms, answers of the
scheduler and restarts.

A pass over the due schedules ends early only where the scheduler refuses or the process
stops, and the next alarm takes up what it left.
-/

set_option autoImplicit false

namespace AiryFS

open Foundation Schedules

namespace ScheduleSystem

variable {number : Text → Option Int} {system : ScheduleSystem}

/-! ## Slots and their jobs -/

theorem Holds.one_job (holds : system.Holds number) {schedule : JobSchedule} {slot : Int}
    (submitted : submission schedule slot ∈ system.submissions) : (system.slotJobs schedule slot).length = 1 := by
  have nodup : system.submissions.Nodup := holds.core.keys.of_map
  have counted := List.count_eq_one_of_mem nodup submitted
  rw [submissions, Jobs.submissions, List.count, List.countP_map] at counted
  rw [slotJobs, ← List.countP_eq_length_filter, ← counted]
  apply List.countP_congr
  intro row _
  simp

/-- No two jobs under one key, rows that store slots of their expressions, and passes that served what they listed. -/
structure ExactlyOnce (number : Text → Option Int) (system : ScheduleSystem) : Prop where
  once : ∀ key, (system.automation.jobs.job.rows.filter fun row => row.idempotencyKey = key).length ≤ 1
  stored : ∀ row ∈ system.schedules.rows, Stored number row
  served : ∀ listed, .completed listed ∈ system.passes →
    ∀ due ∈ listed, (system.slotJobs due.schedule due.scheduledFor).length = 1
  unrefused : ∀ failure, .refused failure ∉ system.passes

theorem Holds.exactlyOnce (holds : system.Holds number) : system.ExactlyOnce number where
  once key := by
    have keys := holds.core.keys
    rw [submissions, ← Jobs.keys_eq] at keys
    have counted := List.nodup_iff_count_le_one.mp keys key
    rw [Jobs.keys, List.count, List.countP_map] at counted
    rw [← List.countP_eq_length_filter]
    refine Nat.le_trans (Nat.le_of_eq (List.countP_congr ?_)) counted
    intro row _
    simp
  stored := holds.core.stored
  served listed member due inside := holds.one_job (holds.passes _ member due inside)
  unrefused failure member := holds.passes _ member

/-! ## Runs -/

theorem holds_initial : initial.Holds number := by
  refine ⟨⟨List.nodup_nil, ?_, ?_, ?_, ?_, ?_, ?_⟩, trivial, ?_⟩
  all_goals intro _ member
  all_goals cases member

theorem holds_run {actions : List Action} (holds : system.Holds number)
    (guarded : Guarded (step number) (Allowed number) system actions) :
    (run (step number) system actions).Holds number ∧
      system.submissions ⊆ (run (step number) system actions).submissions := by
  induction actions generalizing system with
  | nil => exact ⟨holds, fun _ member => member⟩
  | cons action rest ih =>
    obtain ⟨now, later⟩ := guarded
    have advanced := advance_step holds action now
    obtain ⟨ended, grows⟩ := ih advanced.holds later
    exact ⟨ended, fun _ member => grows (advanced.grows member)⟩

/-- The schedule is there and enabled, all along. -/
def Stays (number : Text → Option Int) (id : Text) (system : ScheduleSystem) (actions : List Action) : Prop :=
  ∀ reached, reached <+: actions →
    ∃ row ∈ (run (step number) system reached).schedules.rows, row.id = id ∧ row.enabled = true

theorem Stays.later {id : Text} {action : Action} {rest : List Action} (stays : Stays number id system (action :: rest)) :
    Stays number id (step number system action) rest := by
  intro reached earlier
  exact stays (action :: reached) (List.cons_prefix_cons.mpr ⟨rfl, earlier⟩)

/-- The slot of an enabled row is stored until it has its job, and then gives way to a later one. -/
theorem left_run {actions : List Action} (holds : system.Holds number)
    (guarded : Guarded (step number) (Allowed number) system actions) {row : JobSchedule}
    (member : row ∈ system.schedules.rows) (enabled : row.enabled = true) {slot : Int} (stored : row.nextRun = some slot)
    (stays : Stays number row.id system actions) :
    ∃ row' ∈ (run (step number) system actions).schedules.rows, row'.id = row.id ∧
      (run (step number) system actions).Left row row' slot := by
  induction actions generalizing system row slot with
  | nil => exact ⟨row, member, rfl, .refl row stored⟩
  | cons action rest ih =>
    obtain ⟨now, later⟩ := guarded
    have advanced := advance_step holds action now
    obtain ⟨middle, member', named, enabled'⟩ := stays [action] (List.prefix_append [action] rest)
    obtain ⟨same, slot', stored', moved⟩ := advanced.slots row member middle member' named.symm enabled enabled' slot stored
    obtain ⟨row', member'', named', slot'', stored'', moved'⟩ :=
      ih advanced.holds later member' enabled' stored' (by rw [named]; exact stays.later)
    refine ⟨row', member'', named'.trans named, slot'', stored'', ?_⟩
    have grows := (holds_run advanced.holds later).2
    rw [← same.submission] at moved'
    rcases moved with rfl | ⟨forward, submitted⟩
    · exact moved'
    · refine .inr ⟨?_, grows submitted⟩
      rcases moved' with rfl | ⟨further, -⟩
      · exact forward
      · omega

/-! ## A pass whose calls are answered -/

def Action.answer (call : Text × Int) : Action := .answered call.1 call.2

/-- Where a pass stands that has these schedules left to submit. -/
def Pass.At (listed : List DueSchedule) : List DueSchedule → Pass → Prop
  | [], pass => ∃ waits, pass = .arming listed waits
  | due :: rest, pass => ∃ waits, pass = .submitting listed due rest waits

theorem proceed_at (listed : List DueSchedule) (jobId : Text) (now : Int) (due : List DueSchedule) :
    Pass.At listed due (system.proceed listed jobId now due).pass ∨
      ∃ failure, .refused failure ∈ (system.proceed listed jobId now due).passes := by
  cases due with
  | nil => exact .inl ⟨_, rfl⟩
  | cons due rest =>
    rw [proceed]
    split
    · exact .inr ⟨_, List.mem_append_right _ List.mem_cons_self⟩
    · exact .inl ⟨_, rfl⟩

theorem answered_at {listed rest : List DueSchedule} {due : DueSchedule} {waits : Bool}
    (pass : system.pass = .submitting listed due rest waits) (jobId : Text) (now : Int) :
    Pass.At listed rest (system.answered number jobId now).pass ∨
      ∃ failure, .refused failure ∈ (system.answered number jobId now).passes := by
  unfold answered
  rw [pass]
  dsimp only
  split
  · exact .inr ⟨_, List.mem_append_right _ List.mem_cons_self⟩
  · exact proceed_at listed jobId now rest

/-- As many answers as it waits for bring a pass to its end. -/
theorem pass_completes {listed due : List DueSchedule} {calls : List (Text × Int)} (holds : system.Holds number)
    (at_ : Pass.At listed due system.pass) (enough : calls.length = due.length + 1)
    (guarded : Guarded (step number) (Allowed number) system (calls.map Action.answer)) :
    (run (step number) system (calls.map Action.answer)).pass = .idle ∧
      .completed listed ∈ (run (step number) system (calls.map Action.answer)).passes := by
  induction due generalizing system calls with
  | nil =>
    obtain ⟨waits, pass⟩ := at_
    obtain ⟨call, rfl⟩ := List.length_eq_one_iff.mp enough
    have reached : step number system (Action.answer call) = system.finish (.completed listed) := by
      change system.answered number call.1 call.2 = _
      rw [answered, pass]
    change (step number system (Action.answer call)).pass = _ ∧ _ ∈ (step number system (Action.answer call)).passes
    rw [reached]
    exact ⟨rfl, List.mem_append_right _ List.mem_cons_self⟩
  | cons due rest ih =>
    obtain ⟨waits, pass⟩ := at_
    cases calls with
    | nil => cases enough
    | cons call calls =>
      obtain ⟨now, later⟩ := guarded
      have advanced := advance_step holds (Action.answer call) now
      rcases @answered_at number system listed rest due waits pass call.1 call.2 with next | ⟨failure, refused⟩
      · have ended := ih advanced.holds next (Nat.succ.inj enough) later
        exact ended
      · exact absurd refused (advanced.holds.exactlyOnce.unrefused failure)

/-- An alarm, and the answers that its pass waits for. -/
def alarmRun (jobId : Text) (now : Int) (calls : List (Text × Int)) : List Action :=
  .alarm jobId now :: calls.map Action.answer

theorem alarm_completes {jobId : Text} {now : Int} {calls : List (Text × Int)} (holds : system.Holds number)
    (idle : system.pass = .idle) (enough : calls.length = (listDueSchedules system.schedules now).length + 1)
    (guarded : Guarded (step number) (Allowed number) system (alarmRun jobId now calls)) :
    (run (step number) system (alarmRun jobId now calls)).pass = .idle ∧
      .completed (listDueSchedules system.schedules now) ∈ (run (step number) system (alarmRun jobId now calls)).passes := by
  obtain ⟨allowed, later⟩ := guarded
  have advanced := advance_step holds (.alarm jobId now) allowed
  have listed : step number system (.alarm jobId now) =
      system.proceed (listDueSchedules system.schedules now) jobId now (listDueSchedules system.schedules now) := by
    change system.runScheduledJobs jobId now = _
    rw [runScheduledJobs, idle]
  rcases @proceed_at system (listDueSchedules system.schedules now) jobId now (listDueSchedules system.schedules now) with
    begun | ⟨failure, refused⟩
  · rw [← listed] at begun
    exact pass_completes advanced.holds begun enough later
  · rw [← listed] at refused
    exact absurd refused (advanced.holds.exactlyOnce.unrefused failure)

/-! ## Exactly once -/

/-- Over a part of a run in which a schedule stays enabled, its slots only move ahead, and each
one that is left has its one job. -/
def SlotsKept (number : Text → Option Int) (actions : List Action) : Prop :=
  ∀ before later, before ++ later = actions → ∀ row ∈ (run (step number) initial before).schedules.rows,
    row.enabled = true → ∀ slot, row.nextRun = some slot →
    Stays number row.id (run (step number) initial before) later →
    ∃ row' ∈ (run (step number) initial actions).schedules.rows, row'.id = row.id ∧
      ∃ slot', row'.nextRun = some slot' ∧
        (slot' = slot ∨ slot < slot' ∧ ((run (step number) initial actions).slotJobs row slot).length = 1)

/-- After an alarm whose calls are answered, every slot that had come has its one job. -/
def AlarmsServe (number : Text → Option Int) (actions : List Action) : Prop :=
  ∀ before jobId now calls, before ++ alarmRun jobId now calls = actions →
    (run (step number) initial before).pass = .idle →
    calls.length = (listDueSchedules (run (step number) initial before).schedules now).length + 1 →
    (run (step number) initial actions).pass = .idle ∧
    ∀ row ∈ (run (step number) initial before).schedules.rows, row.enabled = true → ∀ slot, row.nextRun = some slot →
      slot ≤ now → ((run (step number) initial actions).slotJobs row slot).length = 1

theorem slots_exactlyOnce {actions : List Action} (guarded : Guarded (step number) (Allowed number) initial actions) :
    (run (step number) initial actions).ExactlyOnce number ∧ SlotsKept number actions ∧ AlarmsServe number actions := by
  have holds := (holds_run holds_initial guarded).1
  refine ⟨holds.exactlyOnce, ?_, ?_⟩
  · rintro before later rfl row member enabled slot stored stays
    obtain ⟨first, second⟩ := guarded.append
    obtain ⟨row', member', named, slot', stored', moved⟩ :=
      left_run (holds_run holds_initial first).1 second member enabled stored stays
    have joined : run (step number) initial (before ++ later) = run (step number) (run (step number) initial before) later :=
      List.foldl_append
    rw [joined] at holds ⊢
    exact ⟨row', member', named, slot', stored', moved.imp_right fun left => ⟨left.1, holds.one_job left.2⟩⟩
  · rintro before jobId now calls rfl idle enough
    obtain ⟨first, second⟩ := guarded.append
    obtain ⟨ended, completed⟩ := alarm_completes (holds_run holds_initial first).1 idle enough second
    have joined : run (step number) initial (before ++ alarmRun jobId now calls) =
      run (step number) (run (step number) initial before) (alarmRun jobId now calls) := List.foldl_append
    rw [joined] at holds ⊢
    refine ⟨ended, ?_⟩
    intro row member enabled slot stored come
    exact holds.exactlyOnce.served _ completed ⟨row, slot⟩ (mem_listDueSchedules.mpr ⟨member, enabled, stored, come⟩)

theorem continues_of_next {cron : Text} {slot next : Int} (found : nextCronTime number cron slot = .ok next) :
    Continues number cron slot := by
  obtain ⟨canonical, spec, minute, parsed, -, least, timely⟩ := nextCronTime_eq_ok found
  exact ⟨canonical, spec, minute, parsed, least.1.1, least.1.2, timely⟩

/-- `Number` of a plain numeral. -/
def digits (text : Text) : Option Int :=
  if text ≠ [] ∧ text.all Char.isDigit then some (text.foldl (fun value digit => 10 * value + (digit.toNat - 48)) 0) else none

def buildId : Text := List.replicate 36 'b'

def quarterly : Text := "*/15 * * * *".toList

def create (cron : Text) (now : Int) : Action :=
  .create { name := some "build".toList, cron := some cron, command := some "make".toList, cwd := none } buildId now

/-- Created at seven minutes past ten. -/
def createBuild : Action := create quarterly 1784542020

def tenFifteen : Int := 1784542500

/-- The alarm comes at the slot, and both of its calls are answered. -/
def servedSlot : List Action :=
  createBuild :: alarmRun "j".toList tenFifteen [("k".toList, tenFifteen), ("k".toList, tenFifteen)]

theorem slots_exactlyOnce_served : (run (step digits) initial servedSlot).ExactlyOnce digits ∧
    SlotsKept digits servedSlot ∧ AlarmsServe digits servedSlot := by
  apply slots_exactlyOnce
  refine ⟨⟨by decide, List.not_mem_nil, fun _ none_ => by cases none_⟩, ⟨by decide +kernel, ?_⟩, ?_, ?_, trivial⟩
  · intro _ due member
    have listed : (listDueSchedules (run (step digits) initial [createBuild]).schedules tenFifteen).map
        (fun due => (due.schedule.cron, due.scheduledFor)) = [(quarterly, tenFifteen)] := by decide +kernel
    have own : (due.schedule.cron, due.scheduledFor) ∈ (listDueSchedules (step digits initial createBuild).schedules tenFifteen).map
        (fun due => (due.schedule.cron, due.scheduledFor)) := List.mem_map_of_mem member
    rw [show step digits initial createBuild = run (step digits) initial [createBuild] from rfl, listed] at own
    obtain ⟨cron, slot⟩ := Prod.mk.inj (List.mem_singleton.mp own)
    rw [cron, slot]
    exact continues_of_next (show nextCronTime digits quarterly tenFifteen = .ok 1784543400 by decide +kernel)
  · show (run (step digits) initial (servedSlot.take 2)).Fresh "k".toList
    decide +kernel
  · show (run (step digits) initial (servedSlot.take 3)).Fresh "k".toList
    decide +kernel

/-! ## Slots that are lost -/

/-- The schedule is enabled again at sixteen past ten, before any alarm. -/
def enabledAgain : List Action := [createBuild, .setEnabled buildId true (tenFifteen + 60)]

/-- A client has a job under the key of the slot. -/
def takenKey : List Action :=
  [createBuild,
    .job (.submit { command := some "true".toList, cwd := some ['/'], idempotencyKey := some (slotKey buildId tenFifteen) }
      "j".toList tenFifteen),
    .alarm "k".toList tenFifteen]

/-- The leap day of 2096 is the last one for eight years. -/
def lastLeapDay : List Action :=
  [create "0 0 29 2 *".toList 3981311900, .alarm "j".toList 3981312000, .answered "k".toList 3981312000]

/-- The row of the schedule, before it ever ran. -/
def build (next : Int) : JobSchedule :=
  { id := buildId, name := "build".toList, cron := quarterly, command := "make".toList, cwd := ['/'], enabled := true
    nextRun := some next, lastRun := none, createdAt := 1784542020 }

theorem slots_lost : ¬SlotsKept digits enabledAgain ∧ ¬(run (step digits) initial takenKey).ExactlyOnce digits ∧
    ¬(run (step digits) initial lastLeapDay).ExactlyOnce digits := by
  refine ⟨?_, ?_, ?_⟩
  · intro kept
    have before : (run (step digits) initial [createBuild]).schedules.rows = [build tenFifteen] := by decide +kernel
    have after : (run (step digits) initial enabledAgain).schedules.rows = [build (tenFifteen + 900)] := by decide +kernel
    have stays : Stays digits buildId (run (step digits) initial [createBuild]) [.setEnabled buildId true (tenFifteen + 60)] := by
      intro reached earlier
      rcases List.prefix_cons_iff.mp earlier with rfl | ⟨rest, rfl, none_⟩
      · refine ⟨build tenFifteen, ?_, rfl, rfl⟩
        change _ ∈ (run (step digits) initial [createBuild]).schedules.rows
        simp [before]
      · rw [List.prefix_nil.mp none_]
        refine ⟨build (tenFifteen + 900), ?_, rfl, rfl⟩
        change _ ∈ (run (step digits) initial enabledAgain).schedules.rows
        simp [after]
    obtain ⟨row', member', -, slot', stored, moved⟩ := kept [createBuild] [.setEnabled buildId true (tenFifteen + 60)] rfl
      (build tenFifteen) (by simp [before]) rfl tenFifteen rfl stays
    rw [after, List.mem_singleton] at member'
    subst member'
    cases stored
    rcases moved with same | ⟨-, one⟩
    · exact absurd same (by decide)
    · exact absurd one (by decide +kernel)
  · intro once
    have refused : .refused (.http 409 "IDEMPOTENCY_CONFLICT"
      "Idempotency-Key is already associated with a different command") ∈ (run (step digits) initial takenKey).passes := by
        decide +kernel
    exact once.unrefused _ refused
  · intro once
    have refused : .refused (invalidCron "Cron has no matching time within six years") ∈
      (run (step digits) initial lastLeapDay).passes := by decide +kernel
    exact once.unrefused _ refused

end ScheduleSystem

end AiryFS
