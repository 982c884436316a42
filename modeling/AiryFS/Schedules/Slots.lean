import AiryFS.Jobs.Submissions
import AiryFS.Schedules.CronTimes
import AiryFS.Schedules.Runner

/-! Slots of schedules, and the submission of a slot's job.

A slot's job stands under the slot's key with the command of its schedule. The submission is
accepted as long as nothing else stands under that key.
-/

set_option autoImplicit false

namespace AiryFS

open Foundation

namespace Jobs

/-! ## Requests that are made again

What a request was validated to is valid, and validates to itself. -/

theorem validateCommand_self {given : Option Text} {command : Text} (valid : validateCommand given = .ok command) :
    validateCommand (some command) = .ok command := by
  obtain ⟨value, present, valid⟩ := bind_eq_ok.mp valid
  obtain ⟨_, solid, valid⟩ := bind_eq_ok.mp valid
  rw [← pure_eq_ok.mp valid]
  exact bind_eq_ok.mpr ⟨value, rfl, bind_eq_ok.mpr ⟨(), refuse_of_not (refuse_eq_ok.mp solid) _, rfl⟩⟩

/-- A segment that stays where it is. -/
def PlainSegment (segment : Text) : Prop := segment ≠ ['.'] ∧ segment ≠ ['.', '.']

theorem resolveSegments_fields (cwd : Text) (resolved : List Text) :
    resolveSegments resolved (cwd.splitOn '/') = resolveSegments resolved (fields '/' cwd) := by
  unfold fields
  generalize cwd.splitOn '/' = segments
  induction segments generalizing resolved with
  | nil => rfl
  | cons segment segments ih =>
    cases segment with
    | nil => simp [resolveSegments, ih]
    | cons first rest => simp [resolveSegments, ih]

theorem resolveSegments_plain {segments resolved : List Text} (plain : ∀ segment ∈ resolved, PlainSegment segment)
    (separable : Separable '/' resolved) (given : Separable '/' segments) :
    (∀ segment ∈ resolveSegments resolved segments, PlainSegment segment) ∧
      Separable '/' (resolveSegments resolved segments) := by
  induction segments generalizing resolved with
  | nil => exact ⟨plain, separable⟩
  | cons segment segments ih =>
    have rest : Separable '/' segments := fun piece member => given piece (List.mem_cons_of_mem _ member)
    unfold resolveSegments
    split
    · exact ih plain separable rest
    · split
      · exact ih (fun piece member => plain piece (List.mem_of_mem_dropLast member))
          (fun piece member => separable piece (List.mem_of_mem_dropLast member)) rest
      · rename_i solid parent
        apply ih _ _ rest
        · intro piece member
          rcases List.mem_append.mp member with earlier | own
          · exact plain piece earlier
          · rw [List.mem_singleton.mp own]
            exact ⟨fun dot => solid (.inr dot), parent⟩
        · intro piece member
          rcases List.mem_append.mp member with earlier | own
          · exact separable piece earlier
          · rw [List.mem_singleton.mp own]
            exact given segment List.mem_cons_self

theorem resolveSegments_of_plain {segments : List Text} (resolved : List Text) (separable : Separable '/' segments)
    (plain : ∀ segment ∈ segments, PlainSegment segment) : resolveSegments resolved segments = resolved ++ segments := by
  induction segments generalizing resolved with
  | nil => simp [resolveSegments]
  | cons segment segments ih =>
    have own := plain segment List.mem_cons_self
    have solid := (separable segment List.mem_cons_self).1
    rw [resolveSegments, if_neg (by simp [solid, own.1]), if_neg own.2,
      ih _ (fun piece member => separable piece (List.mem_cons_of_mem _ member))
        (fun piece member => plain piece (List.mem_cons_of_mem _ member)), List.append_assoc, List.singleton_append]

theorem validateCwd_self {given : Option Text} {cwd : Text} (valid : validateCwd given = .ok cwd) :
    validateCwd (some cwd) = .ok cwd := by
  obtain ⟨value, present, valid⟩ := bind_eq_ok.mp valid
  obtain ⟨_, absolute_, valid⟩ := bind_eq_ok.mp valid
  have spelled := pure_eq_ok.mp valid
  rw [resolveSegments_fields] at spelled
  obtain ⟨plain, separable⟩ := @resolveSegments_plain (fields '/' value) [] (fun _ none_ => by cases none_)
    (fun _ none_ => by cases none_) (fields_separable value)
  have again : fields '/' cwd = resolveSegments [] (fields '/' value) := by
    rw [← spelled, fields_cons_sep, fields_intercalate separable]
  have same : '/' :: ['/'].intercalate (resolveSegments [] (cwd.splitOn '/')) = cwd := by
    rw [resolveSegments_fields, again, resolveSegments_of_plain [] separable plain]
    exact spelled
  have rooted : ¬(cwd.head? ≠ some '/') := by simp [← spelled]
  rw [validateCwd]
  change (refuse _ _ >>= fun _ => pure _) = _
  rw [refuse_of_not rooted, ok_bind, same]
  rfl

end Jobs

namespace Schedules

/-! ## Keys -/

theorem length_toString (value : Int) (small : value.natAbs < 10 ^ 13) : (toString value).toList.length ≤ 14 := by
  rw [Int.toString_eq_repr, Int.repr_eq_if]
  split
  · have digits : value.toNat.repr.length ≤ 13 := (Nat.length_repr_le_iff (by omega)).mpr (by omega)
    rw [String.length_toList]
    omega
  · have digits : (-value).toNat.repr.length ≤ 13 := (Nat.length_repr_le_iff (by omega)).mpr (by omega)
    rw [String.length_toList, String.length_append, show "-".length = 1 from rfl]
    omega

theorem encode_length_le (text : Text) : (Utf8.encode text).length ≤ 4 * text.length := by
  unfold Utf8.encode
  induction text with
  | nil => exact Nat.zero_le _
  | cons first rest ih =>
    have bound := first.utf8Size_le_four
    rw [List.flatMap_cons, List.length_append, String.length_utf8EncodeChar, List.length_cons]
    omega

theorem length_slotKey {id : Text} {slot : Int} (uuid : id.length = 36) (small : slot.natAbs < 10 ^ 13) :
    (slotKey id slot).length ≤ 60 := by
  have digits := length_toString slot small
  unfold slotKey
  generalize (toString slot).toList = text at digits ⊢
  have scheme : "schedule:".toList.length = 9 := by decide
  rw [List.length_append, List.length_append, List.length_cons, uuid, scheme]
  omega

/-- The key of a slot within the dates that there are. -/
theorem validateIdempotencyKey_slot {id : Text} {slot : Int} (uuid : id.length = 36) (small : slot.natAbs < 10 ^ 13) :
    Jobs.validateIdempotencyKey (some (slotKey id slot)) = .ok (slotKey id slot) := by
  have short : ¬(Utf8.encode (slotKey id slot)).length > Jobs.MAX_IDEMPOTENCY_KEY_BYTES := by
    have bytes := encode_length_le (slotKey id slot)
    have length := length_slotKey uuid small
    rw [show Jobs.MAX_IDEMPOTENCY_KEY_BYTES = 255 from rfl]
    omega
  have solid : ¬SnapshotStorage.trim (slotKey id slot) = [] := by
    obtain ⟨rest, spelled⟩ : ∃ rest, slotKey id slot = 's' :: rest := ⟨_, rfl⟩
    have kept : SnapshotStorage.trimmable 's' = false := by decide
    rw [spelled, SnapshotStorage.trim, List.dropWhile_cons_of_neg (by simp [kept]), List.rdropWhile_eq_nil_iff]
    intro blank
    have first := blank 's' List.mem_cons_self
    rw [kept] at first
    cases first
  unfold Jobs.validateIdempotencyKey
  rw [show required (some (slotKey id slot)) _ = .ok (slotKey id slot) from rfl, ok_bind, refuse_of_not solid, ok_bind,
    refuse_of_not short, ok_bind]
  rfl

/-- Keys of schedules whose ids have one length name the schedule. -/
theorem slotKey_id {id id' : Text} {slot slot' : Int} (lengths : id.length = id'.length)
    (same : slotKey id slot = slotKey id' slot') : id = id' := by
  unfold slotKey at same
  rw [List.append_assoc, List.append_assoc] at same
  exact (List.append_inj (List.append_cancel_left same) lengths).1

/-! ## What never changes about a schedule -/

/-- The row of one schedule, at two moments. -/
structure Same (first second : JobSchedule) : Prop where
  id : first.id = second.id
  cron : first.cron = second.cron
  command : first.command = second.command
  cwd : first.cwd = second.cwd

/-- The submission of a slot. -/
def submission (schedule : JobSchedule) (slot : Int) : Text × Text × Text :=
  (slotKey schedule.id slot, schedule.command, schedule.cwd)

/-- Nothing but the schedule's own job stands under the key of one of its slots. -/
def Reserved (schedule : JobSchedule) (submitted : Text × Text × Text) : Prop :=
  ∀ slot, submitted.1 = slotKey schedule.id slot → submitted = submission schedule slot

/-- What a row was created with: a drawn UUID, and fields that passed their checks. -/
structure Stands (schedule : JobSchedule) : Prop where
  id : schedule.id.length = 36
  command : Jobs.validateCommand (some schedule.command) = .ok schedule.command
  cwd : Jobs.validateCwd (some schedule.cwd) = .ok schedule.cwd

variable (number : Text → Option Int)

/-- A time that a cron expression names. -/
def Names (cron : Text) (time : Int) : Prop :=
  ∃ canonical spec minute, parseCron number cron = .ok (canonical, spec) ∧ time = 60 * minute ∧ Matches spec minute ∧
    -maxTime ≤ minute ∧ minute ≤ maxTime

/-- The expression names a time after the slot, and within six years. -/
def Continues (cron : Text) (slot : Int) : Prop :=
  ∃ canonical spec time, parseCron number cron = .ok (canonical, spec) ∧ minuteAfter slot ≤ time ∧ Matches spec time ∧
    Timely (Schedules.deadline (minuteAfter slot)) time

/-- An enabled row stores a slot, and a disabled row stores none. -/
def Stored (row : JobSchedule) : Prop :=
  if row.enabled then ∃ next, row.nextRun = some next ∧ Names number row.cron next else row.nextRun = none

variable {number}

theorem Same.submission {first second : JobSchedule} (same : Same first second) (slot : Int) :
    submission first slot = submission second slot := by
  rw [Schedules.submission, Schedules.submission, same.id, same.command, same.cwd]

theorem Same.reserved {first second : JobSchedule} (same : Same first second) {submitted : Text × Text × Text}
    (reserved : Reserved first submitted) : Reserved second submitted := by
  intro slot keyed
  rw [← same.submission]
  exact reserved slot (by rw [keyed, same.id])

theorem Same.stands {first second : JobSchedule} (same : Same first second) (stands : Stands first) : Stands second :=
  ⟨same.id ▸ stands.id, same.command ▸ stands.command, same.cwd ▸ stands.cwd⟩

theorem Names.small {cron : Text} {time : Int} (names : Names number cron time) : time.natAbs < 10 ^ 13 := by
  obtain ⟨_, _, minute, _, rfl, _, before, after⟩ := names
  unfold maxTime Calendar.minutesOfDay at before after
  omega

theorem names_next {cron : Text} {after next : Int} (found : nextCronTime number cron after = .ok next) :
    Names number cron next ∧ after < next := by
  obtain ⟨canonical, spec, minute, parsed, rfl, least, timely⟩ := nextCronTime_eq_ok found
  refine ⟨⟨canonical, spec, minute, parsed, rfl, least.1.2, timely.before, timely.after⟩, ?_⟩
  have from_ := least.1.1
  unfold minuteAfter at from_
  omega

/-- After a slot of the expression, the search succeeds if the expression continues. -/
theorem Continues.next {cron : Text} {slot : Int} (names : Names number cron slot) (continues : Continues number cron slot) :
    ∃ next, nextCronTime number cron slot = .ok next := by
  obtain ⟨canonical, spec, time, parsed, after, matches_, timely⟩ := continues
  obtain ⟨_, _, minute, _, rfl, _, before, _⟩ := names
  exact nextCronTime_complete parsed (by unfold minuteAfter; omega) after matches_ timely

/-- The search from a moment before the stored slot finds it again. -/
theorem next_again {cron : Text} {now next stored : Int} (names : Names number cron stored)
    (least : ∀ time, Names number cron time → now < time → stored ≤ time) (ahead : now < stored)
    (found : nextCronTime number cron now = .ok next) : next = stored := by
  obtain ⟨named, later⟩ := names_next found
  have back := least next named later
  obtain ⟨canonical, spec, minute, parsed, rfl, first, -⟩ := nextCronTime_eq_ok found
  obtain ⟨_, spec', minute', parsed', rfl, matches_, -⟩ := names
  rw [parsed] at parsed'
  obtain ⟨rfl, rfl⟩ := Prod.mk.inj (Except.ok.inj parsed')
  have forth : minute ≤ minute' := first.2 ⟨by unfold minuteAfter; omega, matches_⟩
  omega

end Schedules

/-! What holds of the tables while a pass goes through the schedules that were due.

Every schedule that the runner may still submit from has its keys for itself, and its next slot
can be found. The changes of the tables keep that.
-/

namespace Schedules

abbrev Submissions := List (Text × Text × Text)

/-- The schedules that the runner may still submit from. -/
def live (schedules : ScheduleTable) (pending : List DueSchedule) : List JobSchedule :=
  schedules.rows ++ pending.map DueSchedule.schedule

def Submitted (submissions : Submissions) (due : DueSchedule) : Prop :=
  submission due.schedule due.scheduledFor ∈ submissions

/-- The schedules that a pass has still to advance. -/
def Pass.pending : Pass → List DueSchedule
  | .idle => []
  | .submitting _ due rest _ => due :: rest
  | .arming _ _ => []

/-- What a pass has submitted, as far as it went. -/
def Pass.Holds (submissions : Submissions) : Pass → Prop
  | .idle => True
  | .submitting listed due rest _ =>
    Submitted submissions due ∧ ∀ other ∈ listed, other ∈ rest ∨ Submitted submissions other
  | .arming listed _ => ∀ other ∈ listed, Submitted submissions other

def PassEnd.Holds (submissions : Submissions) : PassEnd → Prop
  | .completed listed => ∀ due ∈ listed, Submitted submissions due
  | .interrupted => True
  | .refused _ => False

variable (number : Text → Option Int)

/-- What holds of the tables between two steps, `pending` being what a pass has still to go through. -/
structure Core (submissions : Submissions) (schedules : ScheduleTable) (drawn : List Text) (pending : List DueSchedule) :
    Prop where
  keys : (submissions.map Prod.fst).Nodup
  stands : ∀ schedule ∈ live schedules pending, Stands schedule
  known : ∀ schedule ∈ live schedules pending, schedule.id ∈ drawn
  same : ∀ first ∈ live schedules pending, ∀ second ∈ live schedules pending, first.id = second.id → Same first second
  reserved : ∀ schedule ∈ live schedules pending, ∀ submitted ∈ submissions, Reserved schedule submitted
  stored : ∀ row ∈ schedules.rows, Stored number row
  pending : ∀ due ∈ pending,
    Names number due.schedule.cron due.scheduledFor ∧ Continues number due.schedule.cron due.scheduledFor

variable {number} {submissions : Submissions} {schedules : ScheduleTable} {drawn : List Text} {pending : List DueSchedule}

theorem Same.refl (schedule : JobSchedule) : Same schedule schedule := ⟨rfl, rfl, rfl, rfl⟩

theorem Same.symm {first second : JobSchedule} (same : Same first second) : Same second first :=
  ⟨same.id.symm, same.cron.symm, same.command.symm, same.cwd.symm⟩

theorem Same.trans {first second third : JobSchedule} (same : Same first second) (same' : Same second third) :
    Same first third :=
  ⟨same.id.trans same'.id, same.cron.trans same'.cron, same.command.trans same'.command, same.cwd.trans same'.cwd⟩

theorem Pass.Holds.mono {pass : Pass} {submissions' : Submissions} (grows : submissions ⊆ submissions')
    (holds : pass.Holds submissions) : pass.Holds submissions' := by
  cases pass with
  | idle => trivial
  | submitting listed due rest waits =>
    exact ⟨grows holds.1, fun other member => (holds.2 other member).imp_right fun submitted => grows submitted⟩
  | arming listed waits => exact fun other member => grows (holds other member)

theorem PassEnd.Holds.mono {ended : PassEnd} {submissions' : Submissions} (grows : submissions ⊆ submissions')
    (holds : ended.Holds submissions) : ended.Holds submissions' := by
  cases ended with
  | completed listed => exact fun due member => grows (holds due member)
  | interrupted => trivial
  | refused failure => exact holds

/-! ## Changes of the tables -/

/-- Rows that change in place, and schedules that drop out. -/
theorem Core.of_live {schedules' : ScheduleTable} {pending' : List DueSchedule}
    (core : Core number submissions schedules drawn pending)
    (origin : ∀ schedule ∈ live schedules' pending', ∃ old ∈ live schedules pending, Same old schedule)
    (stored : ∀ row ∈ schedules'.rows, Stored number row)
    (due : ∀ due ∈ pending', Names number due.schedule.cron due.scheduledFor ∧
      Continues number due.schedule.cron due.scheduledFor) : Core number submissions schedules' drawn pending' where
  keys := core.keys
  stands schedule member := by
    obtain ⟨old, listed, same⟩ := origin schedule member
    exact same.stands (core.stands old listed)
  known schedule member := by
    obtain ⟨old, listed, same⟩ := origin schedule member
    rw [← same.id]
    exact core.known old listed
  same first left second right equal := by
    obtain ⟨old, listed, same⟩ := origin first left
    obtain ⟨old', listed', same'⟩ := origin second right
    have between := core.same old listed old' listed' (same.id.trans (equal.trans same'.id.symm))
    exact same.symm.trans (between.trans same')
  reserved schedule member submitted listed := by
    obtain ⟨old, kept, same⟩ := origin schedule member
    exact same.reserved (core.reserved old kept submitted listed)
  stored := stored
  pending := due

theorem Core.fewer {pending' : List DueSchedule} (core : Core number submissions schedules drawn pending)
    (fewer : pending' ⊆ pending) : Core number submissions schedules drawn pending' := by
  apply core.of_live
  · intro schedule member
    refine ⟨schedule, ?_, .refl schedule⟩
    rcases List.mem_append.mp member with row | due
    · exact List.mem_append_left _ row
    · exact List.mem_append_right _ (List.map_subset _ fewer due)
  · exact core.stored
  · exact fun due member => core.pending due (fewer member)

theorem Core.submit {submitted : Text × Text × Text} (core : Core number submissions schedules drawn pending)
    (fresh : submitted.1 ∉ submissions.map Prod.fst) (reserved : ∀ schedule ∈ live schedules pending, Reserved schedule submitted) :
    Core number (submissions ++ [submitted]) schedules drawn pending where
  keys := by
    rw [List.map_append, List.map_singleton]
    refine List.nodup_append.mpr ⟨core.keys, List.nodup_singleton _, ?_⟩
    intro key member other last
    rw [List.mem_singleton.mp last]
    rintro rfl
    exact fresh member
  stands := core.stands
  known := core.known
  same := core.same
  reserved schedule member other listed := by
    rcases List.mem_append.mp listed with earlier | last
    · exact core.reserved schedule member other earlier
    · rw [List.mem_singleton.mp last]
      exact reserved schedule member
  stored := core.stored
  pending := core.pending

theorem Core.draw (core : Core number submissions schedules drawn pending) (id : Text) :
    Core number submissions schedules (drawn ++ [id]) pending where
  keys := core.keys
  stands := core.stands
  known schedule member := List.mem_append_left _ (core.known schedule member)
  same := core.same
  reserved := core.reserved
  stored := core.stored
  pending := core.pending

/-- The submission of one schedule leaves the keys of all others alone. -/
theorem Core.reserves (core : Core number submissions schedules drawn pending) {own : JobSchedule}
    (listed : own ∈ live schedules pending) (slot : Int) :
    ∀ schedule ∈ live schedules pending, Reserved schedule (submission own slot) := by
  intro schedule member slot' keyed
  have lengths := (core.stands own listed).id.trans (core.stands schedule member).id.symm
  have same := core.same own listed schedule member (slotKey_id lengths keyed)
  rw [submission, submission, same.command, same.cwd]
  exact congrArg (fun key => (key, schedule.command, schedule.cwd)) keyed

/-- A new schedule, of an id that was never drawn. -/
theorem Core.create {schedules' : ScheduleTable} {row : JobSchedule} (core : Core number submissions schedules drawn pending)
    (rows : schedules'.rows = schedules.rows ++ [row]) (stands : Stands row) (stored : Stored number row)
    (fresh : row.id ∉ drawn) (reserved : ∀ submitted ∈ submissions, Reserved row submitted) :
    Core number submissions schedules' (drawn ++ [row.id]) pending := by
  have either : ∀ schedule ∈ live schedules' pending, schedule ∈ live schedules pending ∨ schedule = row := by
    intro schedule member
    simp only [live, rows, List.mem_append, List.mem_singleton] at member ⊢
    tauto
  refine ⟨core.keys, ?_, ?_, ?_, ?_, ?_, core.pending⟩
  · intro schedule member
    rcases either schedule member with old | rfl
    · exact core.stands schedule old
    · exact stands
  · intro schedule member
    rcases either schedule member with old | rfl
    · exact List.mem_append_left _ (core.known schedule old)
    · exact List.mem_append_right _ List.mem_cons_self
  · intro first left second right equal
    rcases either first left with old | rfl
    · rcases either second right with old' | rfl
      · exact core.same first old second old' equal
      · exact absurd (equal ▸ core.known first old) fresh
    · rcases either second right with old' | rfl
      · exact absurd (equal ▸ core.known second old') fresh
      · exact .refl _
  · intro schedule member
    rcases either schedule member with old | rfl
    · exact core.reserved schedule old
    · exact reserved
  · intro other member
    rw [rows] at member
    rcases List.mem_append.mp member with old | last
    · exact core.stored other old
    · rw [List.mem_singleton.mp last]
      exact stored

/-- Rows of a table that is updated in place. -/
theorem Core.modify {change : JobSchedule → JobSchedule} (named : ∀ row, (change row).id = row.id)
    (core : Core number submissions schedules drawn pending) (same : ∀ row, Same row (change row))
    (stored : ∀ row ∈ schedules.rows, Stored number (change row)) :
    Core number submissions (schedules.modify change named) drawn pending := by
  apply core.of_live
  · intro schedule member
    rcases List.mem_append.mp member with row | due
    · obtain ⟨old, listed, rfl⟩ := List.mem_map.mp row
      exact ⟨old, List.mem_append_left _ listed, same old⟩
    · exact ⟨schedule, List.mem_append_right _ due, .refl schedule⟩
  · intro row member
    obtain ⟨old, listed, rfl⟩ := List.mem_map.mp member
    exact stored old listed
  · exact core.pending

end Schedules

end AiryFS
