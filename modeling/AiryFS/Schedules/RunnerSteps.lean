import AiryFS.Schedules.Slots

/-! What one step does to the slots: a slot stays in its row, or gives way to a later one behind
its job.

That takes conditions on the requests. No client's job stands under the key of a slot, an
enabled schedule is not enabled again while its slot is due, and a schedule that is due names
another time within six years. Ids are drawn as UUIDs, and never twice.
-/

set_option autoImplicit false

namespace AiryFS

open Foundation Schedules

namespace ScheduleSystem

def submissions (system : ScheduleSystem) : Submissions := system.automation.jobs.submissions

/-- The jobs of one slot. -/
def slotJobs (system : ScheduleSystem) (schedule : JobSchedule) (slot : Int) : List Jobs.JobRow :=
  system.automation.jobs.job.rows.filter fun row => row.submission = submission schedule slot

/-- The id of a new job is a new one. -/
def Fresh (system : ScheduleSystem) (jobId : Text) : Prop := system.automation.jobs.selectById jobId = none

instance (system : ScheduleSystem) (jobId : Text) : Decidable (system.Fresh jobId) :=
  inferInstanceAs (Decidable (system.automation.jobs.selectById jobId = none))

variable (number : Text → Option Int)

/-- Enabling the row leaves no due slot behind: its slot is the next one anyway, or has its job. -/
def Enables (system : ScheduleSystem) (row : JobSchedule) (slot now : Int) : Prop :=
  (now < slot ∧ ∀ time, Names number row.cron time → now < time → slot ≤ time) ∨
    slot ≤ now ∧ submission row slot ∈ system.submissions

def Allowed (system : ScheduleSystem) : Action → Prop
  | .job (.submit input _ _) =>
    ∀ command cwd key, Jobs.validateCommand input.command = .ok command → Jobs.validateCwd input.cwd = .ok cwd →
      input.idempotencyKey = some key →
      ∀ schedule ∈ live system.schedules system.pass.pending, Reserved schedule (key, command, cwd)
  | .create _ id _ =>
    id.length = 36 ∧ id ∉ system.drawn ∧ ∀ submitted ∈ system.submissions, ∀ slot, submitted.1 ≠ slotKey id slot
  | .setEnabled id true now =>
    ∀ row ∈ system.schedules.rows, row.id = id → row.enabled = true → ∀ slot, row.nextRun = some slot →
      system.Enables number row slot now
  | .alarm jobId now =>
    system.Fresh jobId ∧ (system.pass = .idle → ∀ due ∈ listDueSchedules system.schedules now,
      Continues number due.schedule.cron due.scheduledFor)
  | .answered jobId _ => system.Fresh jobId
  | _ => True

structure Holds (system : ScheduleSystem) : Prop where
  core : Core number system.submissions system.schedules system.drawn system.pass.pending
  pass : system.pass.Holds system.submissions
  passes : ∀ ended ∈ system.passes, ended.Holds system.submissions

/-- A slot stays in its row, or gives way to a later one behind its job. -/
def Left (system' : ScheduleSystem) (row row' : JobSchedule) (slot : Int) : Prop :=
  ∃ slot', row'.nextRun = some slot' ∧ (slot' = slot ∨ slot < slot' ∧ submission row slot ∈ system'.submissions)

structure Advance (system system' : ScheduleSystem) : Prop where
  holds : system'.Holds number
  grows : system.submissions ⊆ system'.submissions
  slots : ∀ row ∈ system.schedules.rows, ∀ row' ∈ system'.schedules.rows, row.id = row'.id → row.enabled = true →
    row'.enabled = true → ∀ slot, row.nextRun = some slot → Same row row' ∧ system'.Left row row' slot

variable {number} {system : ScheduleSystem}

/-- Where the schedules stay as they are. -/
theorem Left.refl (row : JobSchedule) {slot : Int} (stored : row.nextRun = some slot) : system.Left row row slot :=
  ⟨slot, stored, .inl rfl⟩

theorem Advance.of_schedules {system' : ScheduleSystem} (holds : system'.Holds number)
    (grows : system.submissions ⊆ system'.submissions) (same : system'.schedules = system.schedules) :
    Advance number system system' := by
  refine ⟨holds, grows, ?_⟩
  intro row member row' member' named enabled enabled' slot stored
  rw [same] at member'
  have equal := system.schedules.eq_of_key member member' named
  subst equal
  exact ⟨.refl _, .refl _ stored⟩

theorem Holds.refl (holds : system.Holds number) : Advance number system system :=
  .of_schedules holds (fun _ member => member) rfl

/-! ## Submissions -/

/-- Where the only change is in the job table. -/
theorem Holds.of_automation {automation : JobSystem} (holds : system.Holds number)
    (changed : automation.jobs.submissions = system.submissions ∨ ∃ submitted : Text × Text × Text,
      submitted.1 ∉ system.submissions.map Prod.fst ∧
      (∀ schedule ∈ live system.schedules system.pass.pending, Reserved schedule submitted) ∧
      automation.jobs.submissions = system.submissions ++ [submitted]) :
    Advance number system { system with automation } := by
  rcases changed with same | ⟨submitted, fresh, reserved, grown⟩
  · have kept : ({ system with automation } : ScheduleSystem).submissions = system.submissions := same
    refine .of_schedules ⟨?_, ?_, ?_⟩ (by rw [kept]; exact fun _ member => member) rfl
    · rw [kept]
      exact holds.core
    · rw [kept]
      exact holds.pass
    · rw [kept]
      exact holds.passes
  · have kept : ({ system with automation } : ScheduleSystem).submissions = system.submissions ++ [submitted] := grown
    have grows : system.submissions ⊆ system.submissions ++ [submitted] := List.subset_append_left _ _
    refine .of_schedules ⟨?_, ?_, ?_⟩ (by rw [kept]; exact grows) rfl
    · rw [kept]
      exact holds.core.submit fresh reserved
    · rw [kept]
      exact holds.pass.mono grows
    · rw [kept]
      exact fun ended member => (holds.passes ended member).mono grows

theorem advance_job (holds : system.Holds number) (action : JobSystem.Action)
    (allowed : system.Allowed number (.job action)) :
    Advance number system { system with automation := JobSystem.step system.automation action } := by
  apply holds.of_automation
  by_cases submit : ∃ input id now, action = .submit input id now
  · obtain ⟨input, id, now, rfl⟩ := submit
    rcases JobSystem.submit_submissions system.automation input id now with same | ⟨command, cwd, key, commands, cwds, keyed, fresh, grown⟩
    · exact .inl same
    · rw [Jobs.keys_eq] at fresh
      exact .inr ⟨_, fresh, fun schedule member => allowed command cwd key commands cwds keyed schedule member, grown⟩
  · have other : ∀ input id now, action ≠ .submit input id now := fun input id now same => submit ⟨input, id, now, same⟩
    exact .inl (JobSystem.step_submissions system.automation action other)

/-- The loop submits the next slot, or has gone through its list. -/
theorem advance_proceed {listed due : List DueSchedule} {jobId : Text} (now : Int)
    (core : Core number system.submissions system.schedules system.drawn due)
    (passes : ∀ ended ∈ system.passes, ended.Holds system.submissions)
    (remaining : ∀ other ∈ listed, other ∈ due ∨ Submitted system.submissions other) (fresh : system.Fresh jobId) :
    Advance number system (system.proceed listed jobId now due) := by
  cases due with
  | nil =>
    refine .of_schedules ⟨core, ?_, passes⟩ (fun _ member => member) rfl
    intro other member
    rcases remaining other member with none_ | submitted
    · cases none_
    · exact submitted
  | cons due rest =>
    have own : due.schedule ∈ live system.schedules (due :: rest) := List.mem_append_right _ List.mem_cons_self
    have stands := core.stands _ own
    have names := (core.pending due List.mem_cons_self).1
    obtain ⟨result, jobs, accepted⟩ := @Jobs.submitJob_accepted _
      { command := some due.schedule.command, cwd := some due.schedule.cwd
        idempotencyKey := some (slotKey due.schedule.id due.scheduledFor) } _ _ _ _ now
      stands.command stands.cwd (validateIdempotencyKey_slot stands.id names.small) fresh
      fun submitted member keyed => core.reserved _ own submitted member due.scheduledFor keyed
    obtain ⟨command, cwd, key, commands, cwds, keyed, present, added⟩ := Jobs.submitJob_submissions accepted
    -- What was submitted is what the schedule says.
    have spelled : (key, command, cwd) = submission due.schedule due.scheduledFor := by
      rw [submission, ← Option.some.inj keyed, Except.ok.inj (commands.symm.trans stands.command),
        Except.ok.inj (cwds.symm.trans stands.cwd)]
    rw [spelled] at present added
    rw [proceed, accepted]
    dsimp only
    have grows : system.submissions ⊆ jobs.submissions := by
      rcases added with same | ⟨-, grown⟩
      · rw [same]
        exact fun _ member => member
      · rw [grown]
        exact List.subset_append_left _ _
    refine .of_schedules ⟨?_, ⟨present, ?_⟩, fun ended member => (passes ended member).mono grows⟩ grows rfl
    · rcases added with same | ⟨absent, grown⟩
      · change Core number jobs.submissions _ _ _
        rw [same]
        exact core
      · change Core number jobs.submissions _ _ _
        rw [grown]
        refine core.submit ?_ (core.reserves own _)
        rw [Jobs.keys_eq, show key = (submission due.schedule due.scheduledFor).1 from congrArg Prod.fst spelled] at absent
        exact absent
    · intro other member
      rcases remaining other member with pending | submitted
      · rcases List.mem_cons.mp pending with rfl | later
        · exact .inr present
        · exact .inl later
      · exact .inr (grows submitted)

theorem proceed_schedules (listed : List DueSchedule) (jobId : Text) (now : Int) (due : List DueSchedule) :
    (system.proceed listed jobId now due).schedules = system.schedules := by
  cases due with
  | nil => rfl
  | cons due rest =>
    rw [proceed]
    split <;> rfl

theorem mem_listDueSchedules {schedules : ScheduleTable} {now : Int} {due : DueSchedule} :
    due ∈ listDueSchedules schedules now ↔ due.schedule ∈ schedules.rows ∧ due.schedule.enabled = true ∧
      due.schedule.nextRun = some due.scheduledFor ∧ due.scheduledFor ≤ now := by
  rw [listDueSchedules, List.mem_insertionSort, List.mem_filterMap]
  constructor
  · rintro ⟨row, member, slot⟩
    unfold dueSlot at slot
    split at slot
    · rename_i next enabled stored
      split at slot
      · cases slot
        exact ⟨member, enabled, stored, ‹_›⟩
      · cases slot
    · cases slot
  · rintro ⟨member, enabled, stored, come⟩
    refine ⟨due.schedule, member, ?_⟩
    simp [dueSlot, enabled, stored, come]

/-! ## Requests -/

theorem createSchedule_spec {schedules schedules' : ScheduleTable} {input : ScheduleInput} {id : Text} {now : Int}
    {created : JobSchedule} (done : createSchedule number schedules input id now = .ok (created, schedules'))
    (uuid : id.length = 36) : created.id = id ∧ schedules'.rows = schedules.rows ++ [created] ∧ Stands created ∧
      Stored number created := by
  obtain ⟨name, -, done⟩ := bind_eq_ok.mp done
  dsimp only at done
  obtain ⟨_, -, done⟩ := bind_eq_ok.mp done
  obtain ⟨cron, -, done⟩ := bind_eq_ok.mp done
  obtain ⟨⟨expression, spec⟩, -, done⟩ := bind_eq_ok.mp done
  obtain ⟨command, commands, done⟩ := bind_eq_ok.mp done
  obtain ⟨cwd, cwds, done⟩ := bind_eq_ok.mp done
  obtain ⟨_, -, done⟩ := bind_eq_ok.mp done
  obtain ⟨next, found, done⟩ := bind_eq_ok.mp done
  obtain ⟨table, inserted, done⟩ := bind_eq_ok.mp done
  obtain ⟨spelled, reached⟩ := Prod.mk.inj (pure_eq_ok.mp done)
  have rows := (schedules.insert?_eq_some_iff.mp (required_eq_ok.mp inserted)).2
  rw [reached, spelled] at rows
  refine ⟨by rw [← spelled], rows, ?_, ?_⟩
  · rw [← spelled]
    exact ⟨uuid, Jobs.validateCommand_self commands, Jobs.validateCwd_self cwds⟩
  · rw [← spelled]
    exact ⟨next, rfl, (names_next found).1⟩

theorem advance_create (holds : system.Holds number) (input : ScheduleInput) (id : Text) (now : Int)
    (allowed : system.Allowed number (.create input id now)) :
    Advance number system (step number system (.create input id now)) := by
  obtain ⟨uuid, undrawn, unused⟩ := allowed
  cases outcome : createSchedule number system.schedules input id now with
  | error failure =>
    have reached : step number system (.create input id now) = { system with drawn := system.drawn ++ [id] } := by
      simp [step, outcome, Except.map, settle]
    rw [reached]
    exact .of_schedules ⟨holds.core.draw id, holds.pass, holds.passes⟩ (fun _ member => member) rfl
  | ok result =>
    obtain ⟨created, schedules⟩ := result
    have reached : step number system (.create input id now) = { system with schedules, drawn := system.drawn ++ [id] } := by
      simp [step, outcome, Except.map, settle]
    obtain ⟨named, rows, stands, stored⟩ := createSchedule_spec outcome uuid
    have reserved : ∀ submitted ∈ system.submissions, Reserved created submitted := by
      intro submitted member slot keyed
      rw [named] at keyed
      exact absurd keyed (unused submitted member slot)
    have core := holds.core.create rows stands stored (by rwa [named]) reserved
    rw [named] at core
    rw [reached]
    refine ⟨⟨core, holds.pass, holds.passes⟩, fun _ member => member, ?_⟩
    intro row member row' member' equal enabled enabled' slot slots
    rw [show ({ system with schedules, drawn := system.drawn ++ [id] } : ScheduleSystem).schedules.rows = _ from rows] at member'
    rcases List.mem_append.mp member' with old | last
    · have single := system.schedules.eq_of_key member old equal
      subst single
      exact ⟨.refl _, .refl _ slots⟩
    · rw [List.mem_singleton.mp last, named] at equal
      have known := holds.core.known row (List.mem_append_left _ member)
      exact absurd (equal ▸ known) undrawn

theorem advance_delete (holds : system.Holds number) (id : Text) :
    Advance number system (step number system (.delete id)) := by
  have rows : ∀ row ∈ (step number system (.delete id)).schedules.rows, row ∈ system.schedules.rows := by
    intro row member
    exact (system.schedules.mem_erase.mp member).1
  refine ⟨⟨?_, holds.pass, holds.passes⟩, fun _ member => member, ?_⟩
  · apply holds.core.of_live
    · intro schedule member
      refine ⟨schedule, ?_, .refl schedule⟩
      rcases List.mem_append.mp member with row | due
      · exact List.mem_append_left _ (rows schedule row)
      · exact List.mem_append_right _ due
    · exact fun row member => holds.core.stored row (rows row member)
    · exact holds.core.pending
  · intro row member row' member' equal enabled enabled' slot slots
    have single := system.schedules.eq_of_key member (rows row' member') equal
    subst single
    exact ⟨.refl _, .refl _ slots⟩

/-- A change of the rows in place, one row at a time. -/
theorem Holds.modify {change : JobSchedule → JobSchedule} (named : ∀ row, (change row).id = row.id)
    (holds : system.Holds number) (same : ∀ row, Same row (change row))
    (stored : ∀ row ∈ system.schedules.rows, Stored number (change row))
    (slots : ∀ row ∈ system.schedules.rows, row.enabled = true → (change row).enabled = true → ∀ slot,
      row.nextRun = some slot → system.Left row (change row) slot) :
    Advance number system { system with schedules := system.schedules.modify change named } := by
  refine ⟨⟨holds.core.modify named same stored, holds.pass, holds.passes⟩, fun _ member => member, ?_⟩
  intro row member row' member' equal enabled enabled' slot stored
  obtain ⟨old, listed, rfl⟩ := List.mem_map.mp member'
  have single := system.schedules.eq_of_key member listed (equal.trans (named old))
  subst single
  exact ⟨same row, slots row member enabled enabled' slot stored⟩

theorem storeEnabled_same (id : Text) (enabled : Bool) (next : Option Int) (row : JobSchedule) :
    Same row (storeEnabled id enabled next row) := by
  unfold storeEnabled
  split
  · exact ⟨rfl, rfl, rfl, rfl⟩
  · exact .refl row

theorem storeAdvance_same (due : DueSchedule) (next : Int) (row : JobSchedule) : Same row (storeAdvance due next row) := by
  unfold storeAdvance
  split
  · exact ⟨rfl, rfl, rfl, rfl⟩
  · exact .refl row

theorem advance_setEnabled (holds : system.Holds number) (id : Text) (enabled : Bool) (now : Int)
    (allowed : system.Allowed number (.setEnabled id enabled now)) :
    Advance number system (step number system (.setEnabled id enabled now)) := by
  cases outcome : setScheduleEnabled number system.schedules id enabled now with
  | error failure =>
    have reached : step number system (.setEnabled id enabled now) = system := by
      simp [step, outcome, Except.map, settle]
    rw [reached]
    exact holds.refl
  | ok result =>
    obtain ⟨chosen, present, done⟩ := bind_eq_ok.mp outcome
    have chosen_mem := system.schedules.find?_mem (required_eq_ok.mp present)
    have chosen_id := system.schedules.find?_key (required_eq_ok.mp present)
    cases enabled with
    | false =>
      have reached : step number system (.setEnabled id false now) = { system with
          schedules := system.schedules.modify (storeEnabled id false none) (storeEnabled_id id false none) } := by
        have stored := congrArg Prod.snd (pure_eq_ok.mp done)
        simp [step, outcome, Except.map, settle, ← stored]
      rw [reached]
      apply holds.modify (storeEnabled_id id false none) (storeEnabled_same id false none)
      · intro row member
        unfold storeEnabled
        split
        · exact rfl
        · exact holds.core.stored row member
      · intro row member before after slot stored
        unfold storeEnabled at after ⊢
        split at after
        · cases after
        · rename_i other
          rw [if_neg other]
          exact .refl _ stored
    | true =>
      cases found : nextCronTime number chosen.cron now with
      | error failure =>
        rw [if_pos rfl, found] at done
        cases done
      | ok next =>
        rw [if_pos rfl, found] at done
        have reached : step number system (.setEnabled id true now) = { system with
            schedules := system.schedules.modify (storeEnabled id true (some next)) (storeEnabled_id id true (some next)) } := by
          have stored := congrArg Prod.snd (pure_eq_ok.mp done)
          simp [step, outcome, Except.map, settle, ← stored]
        obtain ⟨named, later⟩ := names_next found
        have single : ∀ row ∈ system.schedules.rows, row.id = id → row = chosen := fun row member own =>
          system.schedules.eq_of_key member chosen_mem (own.trans chosen_id.symm)
        rw [reached]
        apply holds.modify (storeEnabled_id id true (some next)) (storeEnabled_same id true (some next))
        · intro row member
          unfold storeEnabled
          split
          · rename_i own
            rw [single row member own]
            exact ⟨next, rfl, named⟩
          · exact holds.core.stored row member
        · intro row member before after slot stored
          unfold storeEnabled
          split
          · rename_i own
            refine ⟨next, rfl, ?_⟩
            rcases allowed row member own before slot stored with ⟨ahead, least⟩ | ⟨past, submitted⟩
            · -- The slot has not come, and is found again.
              have names : Names number row.cron slot := by
                have kept := holds.core.stored row member
                rw [Stored, if_pos before] at kept
                obtain ⟨stored', same, names⟩ := kept
                rw [stored] at same
                exact Option.some.inj same ▸ names
              rw [single row member own] at names least
              exact .inl (next_again names least ahead found)
            · exact .inr ⟨by omega, submitted⟩
          · exact .refl _ stored

/-! ## The runner -/

theorem advance_alarm (holds : system.Holds number) (jobId : Text) (now : Int)
    (allowed : system.Allowed number (.alarm jobId now)) : Advance number system (step number system (.alarm jobId now)) := by
  obtain ⟨fresh, continues⟩ := allowed
  change Advance number system (system.runScheduledJobs jobId now)
  unfold runScheduledJobs
  split
  · rename_i idle
    apply advance_proceed now _ holds.passes (fun other member => .inl member) fresh
    have rows : ∀ due ∈ listDueSchedules system.schedules now, due.schedule ∈ system.schedules.rows ∧
        due.schedule.enabled = true ∧ due.schedule.nextRun = some due.scheduledFor := by
      intro due member
      obtain ⟨listed, enabled, slot, -⟩ := mem_listDueSchedules.mp member
      exact ⟨listed, enabled, slot⟩
    apply holds.core.of_live
    · intro schedule member
      rcases List.mem_append.mp member with row | pending
      · exact ⟨schedule, List.mem_append_left _ row, .refl schedule⟩
      · obtain ⟨other, listed, rfl⟩ := List.mem_map.mp pending
        exact ⟨_, List.mem_append_left _ (rows other listed).1, .refl _⟩
    · exact holds.core.stored
    · intro due member
      obtain ⟨listed, enabled, slot⟩ := rows due member
      refine ⟨?_, continues idle due member⟩
      have kept := holds.core.stored _ listed
      rw [Stored, if_pos enabled] at kept
      obtain ⟨stored, same, names⟩ := kept
      rw [slot] at same
      exact Option.some.inj same ▸ names
  · exact holds.refl

/-- A pass that ends leaves the tables alone. -/
theorem Holds.finish (holds : system.Holds number) {ended : PassEnd} (complete : ended.Holds system.submissions) :
    (system.finish ended).Holds number := by
  refine ⟨holds.core.fewer (List.nil_subset _), trivial, ?_⟩
  intro other member
  rcases List.mem_append.mp member with earlier | last
  · exact holds.passes other earlier
  · rw [List.mem_singleton.mp last]
    exact complete

/-- The advance of the slot that was submitted. -/
theorem advance_advanceSchedule (holds : system.Holds number) {due : DueSchedule} (listed : due ∈ system.pass.pending)
    (submitted : Submitted system.submissions due) : ∃ schedules,
      advanceSchedule number system.schedules due = .ok schedules ∧
        Advance number system { system with schedules } := by
  obtain ⟨names, continues⟩ := holds.core.pending due listed
  obtain ⟨next, found⟩ := continues.next names
  obtain ⟨named, later⟩ := names_next found
  have own : due.schedule ∈ live system.schedules system.pass.pending :=
    List.mem_append_right _ (List.mem_map_of_mem listed)
  refine ⟨_, by rw [advanceSchedule, found]; rfl, ?_⟩
  apply holds.modify (storeAdvance_id due next) (storeAdvance_same due next)
  · intro row member
    unfold storeAdvance
    split
    · rename_i chosen
      have same := holds.core.same _ own row (List.mem_append_left _ member) chosen.1.symm
      rw [Stored, if_pos (show _ = true from chosen.2.1)]
      exact ⟨next, rfl, same.cron ▸ named⟩
    · exact holds.core.stored row member
  · intro row member before after slot stored
    unfold storeAdvance
    split
    · rename_i chosen
      have same := holds.core.same _ own row (List.mem_append_left _ member) chosen.1.symm
      have slots : slot = due.scheduledFor := Option.some.inj (stored.symm.trans chosen.2.2)
      refine ⟨next, rfl, .inr ⟨by omega, ?_⟩⟩
      rw [slots, ← same.submission]
      exact submitted
    · exact .refl _ stored

theorem Advance.trans {middle system' : ScheduleSystem} (first : Advance number system middle)
    (second : Advance number middle system') (same : system'.schedules = middle.schedules) : Advance number system system' := by
  refine ⟨second.holds, fun _ member => second.grows (first.grows member), ?_⟩
  intro row member row' member' named enabled enabled' slot stored
  rw [same] at member'
  obtain ⟨kept, slot', stored', left⟩ := first.slots row member row' member' named enabled enabled' slot stored
  exact ⟨kept, slot', stored', left.imp_right fun moved => ⟨moved.1, second.grows moved.2⟩⟩

theorem advance_answered (holds : system.Holds number) (jobId : Text) (now : Int)
    (fresh : system.Fresh jobId) : Advance number system (step number system (.answered jobId now)) := by
  change Advance number system (system.answered number jobId now)
  unfold answered
  split
  · exact holds.refl
  · rename_i listed due rest waits pass
    have progress := holds.pass
    rw [pass] at progress
    obtain ⟨schedules, stored, advanced⟩ := advance_advanceSchedule holds
      (show due ∈ system.pass.pending by rw [pass]; exact List.mem_cons_self) progress.1
    rw [stored]
    dsimp only
    have core := advanced.holds.core
    rw [show ({ system with schedules } : ScheduleSystem).pass = _ from pass] at core
    refine advanced.trans (advance_proceed now (core.fewer (List.subset_cons_self _ _)) advanced.holds.passes ?_ fresh) ?_
    · intro other member
      exact progress.2 other member
    · exact proceed_schedules _ _ _ _
  · rename_i listed waits pass
    have progress := holds.pass
    rw [pass] at progress
    exact .of_schedules (holds.finish progress) (fun _ member => member) rfl

theorem advance_rejected (holds : system.Holds number) : Advance number system (step number system .rejected) := by
  have interrupted : Advance number system (system.finish .interrupted) :=
    .of_schedules (holds.finish trivial) (fun _ member => member) rfl
  change Advance number system system.rejected
  unfold rejected
  split
  · exact interrupted
  · exact interrupted
  · exact holds.refl

theorem advance_restart (holds : system.Holds number) : Advance number system (step number system (.job .restart)) := by
  have stopped := advance_job holds .restart trivial
  change Advance number system system.restart
  unfold restart
  dsimp only
  split
  · exact stopped
  · exact stopped.trans (.of_schedules (stopped.holds.finish trivial) (fun _ member => member) rfl) rfl

theorem advance_step (holds : system.Holds number) (action : Action) (allowed : system.Allowed number action) :
    Advance number system (step number system action) := by
  cases action with
  | job action =>
    by_cases restart : action = .restart
    · rw [restart]
      exact advance_restart holds
    · have same : step number system (.job action) = { system with automation := JobSystem.step system.automation action } := by
        cases action <;> first | rfl | exact absurd rfl restart
      rw [same]
      exact advance_job holds action allowed
  | create input id now => exact advance_create holds input id now allowed
  | delete id => exact advance_delete holds id
  | setEnabled id enabled now => exact advance_setEnabled holds id enabled now allowed
  | alarm jobId now => exact advance_alarm holds jobId now allowed
  | answered jobId now => exact advance_answered holds jobId now allowed
  | rejected => exact advance_rejected holds

end ScheduleSystem

end AiryFS
