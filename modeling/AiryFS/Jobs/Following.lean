import AiryFS.Foundation.Interplay
import AiryFS.Jobs.JobLogs
import Mathlib.Data.List.Sort

/-! Following a job from outside: the pages of its log as the durable object serves them, and the client
that reads page after page until the job is over.

Everything on the side of the server is atomic between two of the client's requests, and anything may
happen there in between. Output is kept as bytes, where the page has them in base64.
-/

set_option autoImplicit false

namespace AiryFS

open Foundation

namespace Jobs

/-! ## Pages -/

def DEFAULT_LOG_LIMIT : Nat := 500
def MAX_LOG_LIMIT : Nat := 2000

structure JobLogEntry where
  seq : Nat
  stream : JobStream
  data : Bytes
  timestamp : Int
  deriving DecidableEq

structure JobLogPage where
  entries : List JobLogEntry
  next : Option Nat
  deriving DecidableEq

def JobLogRow.entry (row : JobLogRow) : JobLogEntry :=
  { seq := row.seq, stream := row.stream, data := row.data, timestamp := row.timestamp }

def clampLimit (limit : Option Int) : Except Failure Nat :=
  match limit with
  | none => return DEFAULT_LOG_LIMIT
  | some limit => do
    refuse (¬isSafeInteger limit ∨ limit ≤ 0) (invalidArgument "limit must be a positive integer")
    return min limit.toNat MAX_LOG_LIMIT

section
variable (jobs : Jobs)

def getJob (id : Text) : Except Failure JobDto := do
  let row ← required (jobs.selectById id) (.http 404 "JOB_NOT_FOUND" s!"No job with id {String.ofList id}")
  return toJobDto row

/-- `WHERE job_id = ? AND seq > ? ORDER BY seq ASC LIMIT ?` -/
def selectLog (id : Text) (afterSeq : Int) (pageSize : Nat) : List JobLogRow :=
  ((jobs.log.rows.filter fun row => row.jobId = id && afterSeq < row.seq).insertionSort fun first second =>
    first.seq ≤ second.seq).take pageSize

def getJobLogs (id : Text) (after limit : Option Int) : Except Failure JobLogPage := do
  refuse (jobs.selectById id = none) (.http 404 "JOB_NOT_FOUND" s!"No job with id {String.ofList id}")
  let afterSeq := after.getD (-1)
  refuse (¬isSafeInteger afterSeq ∨ afterSeq < -1) (invalidArgument "after must be a non-negative integer")
  let pageSize ← clampLimit limit
  let entries := (jobs.selectLog id afterSeq pageSize).map JobLogRow.entry
  return { entries, next := if entries.length = pageSize then entries.getLast?.map (·.seq) else none }

end

/-! ## The client -/

inductive FollowQuestion where
  | logs (id : Text) (after limit : Option Int)
  | job (id : Text)
  /-- `yield entry`, or the `onLog` callback. -/
  | deliver (entry : JobLogEntry)
  | delay
  deriving DecidableEq

@[reducible] def FollowAnswer : FollowQuestion → Type
  | .logs _ _ _ => Except Failure JobLogPage
  | .job _ => Except Failure JobDto
  | .deliver _ => Except Failure Unit
  | .delay => Except Failure Unit

inductive FollowError where
  /-- A request, the consumer or the delay failed. -/
  | failed (failure : Failure)
  /-- The cursor did not advance. -/
  | stuck (message : String)

abbrev Following := Asking FollowAnswer FollowError

def FollowError.of {α : Type} (outcome : Except Failure α) : Except FollowError α := outcome.mapError .failed

def cursorText (cursor : Option Int) : String := cursor.elim "undefined" toString

/-- The entries of a page, one after the other, and the cursor behind them. -/
def deliverPage : Option Int → List JobLogEntry → Following (Option Int)
  | cursor, [] => return cursor
  | cursor, entry :: entries =>
    if cursor.any fun seen => (entry.seq : Int) ≤ seen then
      throw (.stuck s!"Job log cursor did not advance beyond {cursorText cursor}")
    else do
      Asking.consult (.deliver entry) FollowError.of
      deliverPage (some entry.seq) entries

/-- Page after page until one has no next, or `none` where the rounds do not suffice. -/
def drainJobLogs (id : Text) (limit : Option Int) : Nat → Option Int → Following (Option (Option Int))
  | 0, _ => return none
  | rounds + 1, before => do
    let page ← Asking.consult (.logs id before limit) FollowError.of
    let cursor ← deliverPage before page.entries
    if page.next = none then return some cursor
    else if cursor = before then throw (.stuck s!"Job log page did not advance beyond {cursorText before}")
    else drainJobLogs id limit rounds cursor

/-- `waitForJob`, and `followJobLogs` but for the cursor that it keeps to itself. Both read with the default limit. -/
def waitForJob (id : Text) (limit : Option Int) : Nat → Option Int → Following (Option (JobDto × Option Int))
  | 0, _ => return none
  | rounds + 1, cursor => do
    match ← drainJobLogs id limit rounds cursor with
    | none => return none
    | some cursor =>
      let job ← Asking.consult (.job id) FollowError.of
      if job.status ∈ TERMINAL_STATUSES then
        match ← drainJobLogs id limit rounds cursor with
        | none => return none
        | some cursor => return some (job, cursor)
      else do
        Asking.consult .delay FollowError.of
        waitForJob id limit rounds cursor

def followJobLogs (id : Text) (limit : Option Int) (rounds : Nat) (after : Option Int) : Following (Option JobDto) := do
  let ended ← waitForJob id limit rounds after
  return ended.map Prod.fst

end Jobs

open Jobs

/-- The server, and what the client has delivered. -/
structure FollowState where
  system : JobSystem
  delivered : List JobLogEntry
  deriving DecidableEq

/-- A request is answered by the server as it is by then, or it fails. -/
def followWorld : Asking.World FollowAnswer FollowState
  | .logs id after limit, state, answer, state' => (∃ actions, state' = { state with system := run JobSystem.step state.system actions }) ∧
      ∀ page, answer = .ok page → state'.system.jobs.getJobLogs id after limit = .ok page
  | .job id, state, answer, state' => (∃ actions, state' = { state with system := run JobSystem.step state.system actions }) ∧
      ∀ job, answer = .ok job → state'.system.jobs.getJob id = .ok job
  | .deliver entry, state, _, state' => ∃ actions, state' = ⟨run JobSystem.step state.system actions, state.delivered ++ [entry]⟩
  | .delay, state, _, state' => ∃ actions, state' = { state with system := run JobSystem.step state.system actions }

/-! Whoever follows a job gets its log rows in order, each once, and all of them by the time the job is over.

What was delivered, together with the rows behind the cursor, is always what lies behind the cursor
that the client began with.
-/

namespace Jobs

/-- The log rows of a job, as they were appended. -/
def rowsOf (jobs : Jobs) (id : Text) : List JobLogRow := jobs.log.rows.filter fun row => row.jobId = id

def Ascending (jobs : Jobs) : Prop := ∀ id, (jobs.rowsOf id).Pairwise fun first second => first.seq < second.seq

/-- The rows behind a cursor. -/
def behind (jobs : Jobs) (id : Text) (cursor : Option Int) : List JobLogRow :=
  (jobs.rowsOf id).filter fun row => cursor.getD (-1) < row.seq

def Terminal (jobs : Jobs) (id : Text) : Prop := ∃ row, jobs.selectById id = some row ∧ row.status ∈ TERMINAL_STATUSES

end Jobs

open Jobs

namespace JobSystem

variable {system system' : JobSystem} {id : Text}

/-! ## The log from step to step -/

/-- A step leaves the log alone, or it appends the next row of the job that is read from. -/
theorem step_log (logged : system.Logged) (action : Action) :
    (step system action).jobs.log = system.jobs.log ∨
      ∃ driven row, system.runner = .reading driven ∧ row.jobId = driven.job.id ∧ row.seq = driven.seq ∧
        (step system action).jobs.log.rows = system.jobs.log.rows ++ [row] := by
  have claim : ∀ (jobs : JobSystem) busy now, (jobs.claimAndRun busy now).jobs.log = jobs.jobs.log := by
    intro jobs busy now
    have kept := jobs.jobs.claimNextJob_log now
    unfold claimAndRun runJob
    split
    · rfl
    · split
      · rename_i claimed
        rwa [claimed] at kept
      · rename_i claimed
        rw [claimed] at kept
        split
        · exact kept
        · split
          · exact kept
          · exact kept
  unfold step
  split
  · left
    unfold submit
    split
    · rename_i result jobs done
      exact submitJob_log done
    · rfl
  · left
    unfold cancel
    split
    · rename_i result jobs done
      exact requestCancel_log done
    · rfl
  · rename_i busy now
    left
    unfold runNextJob
    split
    · dsimp only
      split
      · exact recoverOrphans_log now
      · rw [claim]
        exact recoverOrphans_log now
    · rfl
  · left
    split
    · rfl
    · exact claim _ _ _
  · exact .inl rfl
  · exact .inl rfl
  · rename_i event now driven reading
    cases event with
    | start id => exact .inl rfl
    | output stream id data =>
      have handled : system.handle driven (.output stream id data) now = system.handleOutput driven stream data now := rfl
      rw [handled]
      rcases handleOutput_cases logged reading stream data now with ⟨same, -⟩ | ⟨same, -⟩ | ⟨jobs, -, -, rows, same⟩
      · exact .inl (by rw [same])
      · exact .inl (by rw [same])
      · rw [same]
        exact .inr ⟨driven, _, reading, rfl, rfl, rows⟩
    | exit id exitCode => exact .inl rfl
  · exact .inl rfl
  · exact .inl rfl
  · exact .inl rfl
  · exact .inl rfl
  · exact .inl rfl

/-- What may be added to the log of a job: rows behind all the others, and none once it is over. -/
structure Extends (id : Text) (system system' : JobSystem) : Prop where
  rows : ∃ new, system'.jobs.rowsOf id = system.jobs.rowsOf id ++ new ∧
    (∀ old ∈ system.jobs.rowsOf id, ∀ row ∈ new, old.seq < row.seq) ∧ (system.jobs.Terminal id → new = [])
  terminal : system.jobs.Terminal id → system'.jobs.Terminal id

theorem Extends.refl (id : Text) (system : JobSystem) : Extends id system system :=
  ⟨⟨[], (List.append_nil _).symm, nofun, fun _ => rfl⟩, fun done => done⟩

theorem Extends.trans {system'' : JobSystem} (first : Extends id system system') (second : Extends id system' system'') :
    Extends id system system'' := by
  obtain ⟨new, grown, above, none_⟩ := first.rows
  obtain ⟨new', grown', above', none'⟩ := second.rows
  refine ⟨⟨new ++ new', by rw [grown', grown, List.append_assoc], ?_, ?_⟩, fun done => second.terminal (first.terminal done)⟩
  · intro old member row added
    rcases List.mem_append.mp added with earlier | later
    · exact above old member row earlier
    · exact above' old (by rw [grown]; exact List.mem_append_left _ member) row later
  · intro done
    rw [none_ done, none' (first.terminal done), List.nil_append]

theorem Extends.step (logged : system.Logged) (safe : system.Safe) (id : Text) (action : Action) :
    Extends id system (JobSystem.step system action) := by
  have done : system.jobs.Terminal id → (JobSystem.step system action).jobs.Terminal id := by
    rintro ⟨row, found, terminal⟩
    have member := (advance_step safe.holds action).evolves.terminal (system.jobs.job.find?_mem found) terminal
    refine ⟨row, ?_, terminal⟩
    rw [selectById, ← system.jobs.job.find?_key found]
    exact Table.find?_of_mem _ member
  rcases step_log logged action with same | ⟨driven, row, reading, named, next, grown⟩
  · refine ⟨⟨[], ?_, nofun, fun _ => rfl⟩, done⟩
    rw [rowsOf, same, List.append_nil, rowsOf]
  · have drives : system.Runs driven.job.id driven.seq := by
      rw [Runs, reading]
      exact ⟨rfl, rfl⟩
    refine ⟨⟨[row].filter fun row => row.jobId = id, ?_, ?_, ?_⟩, done⟩
    · rw [rowsOf, grown, List.filter_append, rowsOf]
    · intro old member other added
      obtain ⟨listed, own⟩ := List.mem_filter.mp member
      obtain ⟨rfl, own'⟩ := List.mem_filter.mp added |>.imp_left List.mem_singleton.mp
      rw [next]
      exact logged.below _ _ drives old listed ((of_decide_eq_true own).trans ((of_decide_eq_true own').symm.trans named))
    · rintro ⟨found, listed, terminal⟩
      -- The job that is read from is running.
      have holds := safe.holds
      rw [Holds, reading] at holds
      rw [List.filter_cons_of_neg, List.filter_nil]
      intro own
      have running := running_of_id holds (system.jobs.job.find?_mem listed) (by
        rw [system.jobs.job.find?_key listed, ← named]
        exact (of_decide_eq_true own).symm)
      exact active_of_running running terminal

/-- The rows of every job are in order, whatever happens. -/
theorem ascending_step (logged : system.Logged) (ascending : system.jobs.Ascending) (action : Action) :
    (step system action).jobs.Ascending := by
  intro id
  rcases step_log logged action with same | ⟨driven, row, reading, named, next, grown⟩
  · rw [rowsOf, same]
    exact ascending id
  · have drives : system.Runs driven.job.id driven.seq := by
      rw [Runs, reading]
      exact ⟨rfl, rfl⟩
    rw [rowsOf, grown, List.filter_append]
    refine List.pairwise_append.mpr ⟨ascending id, (List.pairwise_singleton _ row).filter _, ?_⟩
    intro old member other added
    obtain ⟨listed, own⟩ := List.mem_filter.mp member
    obtain ⟨rfl, own'⟩ := List.mem_filter.mp added |>.imp_left List.mem_singleton.mp
    rw [next]
    exact logged.below _ _ drives old listed ((of_decide_eq_true own).trans ((of_decide_eq_true own').symm.trans named))

/-- What holds of the server whenever it is asked. -/
structure Sound (system : JobSystem) : Prop where
  safe : system.Safe
  logged : system.Logged
  ascending : system.jobs.Ascending

theorem Sound.initial : Sound initial := ⟨safe_initial, logged_initial, fun _ => .nil⟩

theorem Sound.step (sound : system.Sound) (action : Action) : (JobSystem.step system action).Sound :=
  ⟨sound.safe.step action, logged_step sound.logged sound.safe action, ascending_step sound.logged sound.ascending action⟩

theorem Sound.run (sound : system.Sound) (id : Text) (actions : List Action) :
    (Foundation.run JobSystem.step system actions).Sound ∧ Extends id system (Foundation.run JobSystem.step system actions) := by
  induction actions generalizing system with
  | nil => exact ⟨sound, .refl id system⟩
  | cons action actions ih =>
    obtain ⟨after, later⟩ := ih (sound.step action)
    exact ⟨after, (Extends.step sound.logged sound.safe id action).trans later⟩

end JobSystem

namespace Jobs

variable {jobs : Jobs} {id : Text} {cursor limit : Option Int}

/-! ## Pages -/

theorem selectLog_eq (ascending : jobs.Ascending) (id : Text) (cursor : Option Int) (pageSize : Nat) :
    jobs.selectLog id (cursor.getD (-1)) pageSize = (jobs.behind id cursor).take pageSize := by
  have selected : (jobs.log.rows.filter fun row => row.jobId = id && cursor.getD (-1) < row.seq) = jobs.behind id cursor := by
    rw [behind, rowsOf, List.filter_filter]
    exact List.filter_congr fun row _ => Bool.and_comm _ _
  rw [selectLog, selected]
  congr 1
  have ordered : (jobs.behind id cursor).Pairwise fun first second => first.seq ≤ second.seq :=
    ((ascending id).filter _).imp Nat.le_of_lt
  exact ordered.insertionSort_eq

theorem clampLimit_pos {pageSize : Nat} (clamped : clampLimit limit = .ok pageSize) : 0 < pageSize := by
  unfold clampLimit at clamped
  split at clamped
  · rw [pure_eq_ok] at clamped
    subst clamped
    decide
  · rename_i limit
    obtain ⟨_, positive, clamped⟩ := bind_eq_ok.mp clamped
    rw [pure_eq_ok] at clamped
    have positive := refuse_eq_ok.mp positive
    rw [← clamped, MAX_LOG_LIMIT]
    omega

/-- What a page holds: the first rows behind the cursor, all of them where it has no next. -/
theorem getJobLogs_ok (ascending : jobs.Ascending) {page : JobLogPage} (served : jobs.getJobLogs id cursor limit = .ok page) :
    page.entries <+: (jobs.behind id cursor).map JobLogRow.entry ∧
      (page.next = none → page.entries = (jobs.behind id cursor).map JobLogRow.entry) ∧
      (page.next ≠ none → page.entries ≠ []) := by
  obtain ⟨_, -, served⟩ := bind_eq_ok.mp served
  obtain ⟨_, -, served⟩ := bind_eq_ok.mp served
  obtain ⟨pageSize, clamped, served⟩ := bind_eq_ok.mp served
  dsimp only at served
  rw [pure_eq_ok] at served
  subst served
  have positive := clampLimit_pos clamped
  rw [selectLog_eq ascending, List.map_take]
  generalize (jobs.behind id cursor).map JobLogRow.entry = rows
  refine ⟨List.take_prefix _ _, fun last => List.take_of_length_le ?_, fun more empty => ?_⟩
  · -- A full page has a last entry.
    by_contra longer
    have full : (rows.take pageSize).length = pageSize := by
      rw [List.length_take]
      omega
    rw [if_pos full, Option.map_eq_none_iff, List.getLast?_eq_none_iff] at last
    rw [last, List.length_nil] at full
    omega
  · dsimp only at more empty
    rw [empty] at more
    exact more (by simp)

/-! ## The rows behind a cursor -/

theorem mem_behind {row : JobLogRow} : row ∈ jobs.behind id cursor ↔ row ∈ jobs.rowsOf id ∧ cursor.getD (-1) < row.seq := by
  rw [behind, List.mem_filter, decide_eq_true_eq]

/-- Behind the first row that a cursor leaves are the others. -/
theorem behind_some (ascending : jobs.Ascending) {row : JobLogRow} {rows : List JobLogRow}
    (split : jobs.behind id cursor = row :: rows) : jobs.behind id (some row.seq) = rows := by
  have ahead : cursor.getD (-1) < row.seq := (mem_behind.mp (by rw [split]; exact List.mem_cons_self)).2
  have ordered : (row :: rows).Pairwise fun first second => first.seq < second.seq := by
    rw [← split]
    exact (ascending id).filter _
  have further : jobs.behind id (some row.seq) = (jobs.behind id cursor).filter fun other => (row.seq : Int) < other.seq := by
    rw [behind, behind, List.filter_filter]
    refine List.filter_congr fun other _ => ?_
    have : (row.seq : Int) < other.seq → cursor.getD (-1) < other.seq := fun later => Int.lt_trans ahead later
    simp only [Option.getD_some]
    by_cases later : (row.seq : Int) < other.seq <;> simp [later, this]
  rw [further, split, List.filter_cons_of_neg (by simp)]
  exact List.filter_eq_self.mpr fun other member => decide_eq_true (by exact_mod_cast List.rel_of_pairwise_cons ordered member)

end Jobs

namespace FollowState

variable {state : FollowState} {id : Text} {after cursor limit : Option Int}

/-- How far a client has come that began with the cursor `after`. -/
structure Progress (id : Text) (after : Option Int) (state : FollowState) (cursor : Option Int) : Prop where
  sound : state.system.Sound
  covered : state.delivered ++ (state.system.jobs.behind id cursor).map JobLogRow.entry =
    (state.system.jobs.behind id after).map JobLogRow.entry
  seen : cursor = after ∨ ∃ row ∈ state.system.jobs.rowsOf id, cursor = some (row.seq : Int)
  onward : after.getD (-1) ≤ cursor.getD (-1)

/-- Rows that a server adds lie behind any cursor that the client may have reached. -/
theorem Progress.behind_run (progress : Progress id after state cursor) (actions : List JobSystem.Action) :
    ∃ new, (run JobSystem.step state.system actions).jobs.behind id cursor = state.system.jobs.behind id cursor ++ new ∧
      (run JobSystem.step state.system actions).jobs.behind id after = state.system.jobs.behind id after ++ new ∧
      (state.system.jobs.Terminal id → new = []) := by
  obtain ⟨-, ⟨new, grown, above, none_⟩, -⟩ := progress.sound.run id actions
  refine ⟨new.filter fun row => after.getD (-1) < row.seq, ?_, ?_, fun done => by rw [none_ done, List.filter_nil]⟩
  · rw [behind, grown, List.filter_append, behind]
    congr 1
    refine List.filter_congr fun row added => ?_
    rcases progress.seen with rfl | ⟨old, member, rfl⟩
    · rfl
    · have later : (old.seq : Int) < row.seq := by exact_mod_cast above old member row added
      have further : after.getD (-1) < row.seq := Int.lt_of_le_of_lt progress.onward later
      simp [later, further]
  · rw [behind, grown, List.filter_append, behind]

theorem Progress.run (progress : Progress id after state cursor) (actions : List JobSystem.Action) :
    Progress id after { state with system := Foundation.run JobSystem.step state.system actions } cursor := by
  obtain ⟨new, grown, grown', -⟩ := progress.behind_run actions
  obtain ⟨sound, ⟨added, rows, -, -⟩, -⟩ := progress.sound.run id actions
  refine ⟨sound, ?_, ?_, progress.onward⟩
  · dsimp only
    rw [grown, grown', List.map_append, List.map_append, ← List.append_assoc, progress.covered]
  · rcases progress.seen with same | ⟨row, member, same⟩
    · exact .inl same
    · exact .inr ⟨row, by dsimp only; rw [rows]; exact List.mem_append_left _ member, same⟩

/-- The first row behind the cursor is delivered. -/
theorem Progress.deliver (progress : Progress id after state cursor) {row : JobLogRow} {rows : List JobLogRow}
    (split : state.system.jobs.behind id cursor = row :: rows) :
    Progress id after { state with delivered := state.delivered ++ [row.entry] } (some row.seq) := by
  have first := mem_behind.mp (show row ∈ state.system.jobs.behind id cursor by rw [split]; exact List.mem_cons_self)
  refine ⟨progress.sound, ?_, .inr ⟨row, first.1, rfl⟩, Int.le_trans progress.onward (Int.le_of_lt first.2)⟩
  dsimp only
  rw [behind_some progress.sound.ascending split, ← progress.covered, split, List.map_cons, List.append_assoc]
  rfl

/-- Nothing is left to deliver, and nothing will be added. -/
def Exhausted (id : Text) (state : FollowState) (cursor : Option Int) : Prop :=
  state.system.jobs.Terminal id ∧ state.system.jobs.behind id cursor = []

/-- Whoever follows a job does not fail but for what it asks. -/
def Failed (id : Text) (after : Option Int) (failure : FollowError) (state : FollowState) : Prop :=
  (∃ cursor, Progress id after state cursor) ∧ ∀ message, failure ≠ .stuck message

theorem failed_of {α : Type} {outcome : Except Failure α} {failure : FollowError} (progress : Progress id after state cursor)
    (threw : FollowError.of outcome = .error failure) : Failed id after failure state := by
  refine ⟨⟨cursor, progress⟩, ?_⟩
  cases outcome with
  | ok value => cases threw
  | error reason =>
    rintro message rfl
    cases threw

theorem of_ok {α : Type} {outcome : Except Failure α} {value : α} (returned : FollowError.of outcome = .ok value) :
    outcome = .ok value := by
  cases outcome with
  | ok other =>
    cases returned
    rfl
  | error reason => cases returned

/-! ## The client -/

/-- A page whose entries are the first rows behind the cursor is delivered without a complaint. -/
theorem ensures_deliverPage (entries : List JobLogEntry) (progress : Progress id after state cursor)
    (page : entries <+: (state.system.jobs.behind id cursor).map JobLogRow.entry) :
    Asking.Ensures followWorld (fun cursor' state' => Progress id after state' cursor' ∧
        cursor.getD (-1) ≤ cursor'.getD (-1) ∧ (entries ≠ [] → cursor.getD (-1) < cursor'.getD (-1)) ∧
        (state.system.jobs.Terminal id → state'.system.jobs.Terminal id) ∧
        (state.system.jobs.Terminal id → entries = (state.system.jobs.behind id cursor).map JobLogRow.entry →
          Exhausted id state' cursor'))
      (Failed id after) (deliverPage cursor entries) state := by
  induction entries generalizing cursor state with
  | nil =>
    refine ⟨progress, Int.le_refl _, fun some => (some rfl).elim, fun done => done, fun done all => ⟨done, ?_⟩⟩
    exact List.map_eq_nil_iff.mp all.symm
  | cons entry entries ih =>
    obtain ⟨row, rows, split, rfl, rest⟩ : ∃ row rows, state.system.jobs.behind id cursor = row :: rows ∧
        row.entry = entry ∧ entries <+: rows.map JobLogRow.entry := by
      cases listed : state.system.jobs.behind id cursor with
      | nil =>
        rw [listed] at page
        exact (List.cons_ne_nil _ _ (List.prefix_nil.mp page)).elim
      | cons row rows =>
        rw [listed, List.map_cons] at page
        obtain ⟨same, rest⟩ := List.cons_prefix_cons.mp page
        exact ⟨row, rows, rfl, same.symm, rest⟩
    have first := mem_behind.mp (show row ∈ state.system.jobs.behind id cursor by rw [split]; exact List.mem_cons_self)
    have fresh : ¬(cursor.any fun seen => (row.entry.seq : Int) ≤ seen) = true := by
      cases cursor with
      | none => exact Bool.false_ne_true
      | some seen =>
        have ahead : seen < (row.seq : Int) := first.2
        rw [Option.any_some, decide_eq_true_eq]
        exact Int.not_le.mpr ahead
    rw [deliverPage, if_neg fresh]
    refine Asking.ensures_bind.mpr (Asking.ensures_consult.mpr ?_)
    rintro answer state' ⟨actions, rfl⟩
    have delivered := progress.deliver split
    have continued := delivered.run actions
    have left := behind_some progress.sound.ascending split
    obtain ⟨new, grown, -, none_⟩ := delivered.behind_run actions
    dsimp only at continued left grown none_
    have remaining : (Foundation.run JobSystem.step state.system actions).jobs.behind id (some row.seq) = rows ++ new := by
      rw [grown, left]
    refine ⟨fun _ _ => ?_, fun failure threw => failed_of continued threw⟩
    have pending : entries <+: ((Foundation.run JobSystem.step state.system actions).jobs.behind id
        (some row.seq)).map JobLogRow.entry := by
      rw [remaining, List.map_append]
      exact rest.trans (List.prefix_append _ _)
    refine (ih continued pending).mono (fun cursor' state' ⟨reached, further, _, kept, last⟩ => ?_) fun _ _ failed => failed
    have ahead : cursor.getD (-1) < cursor'.getD (-1) := Int.lt_of_lt_of_le first.2 further
    have done (terminal : state.system.jobs.Terminal id) := (progress.sound.run id actions).2.terminal terminal
    refine ⟨reached, Int.le_of_lt ahead, fun _ => ahead, fun terminal => kept (done terminal), fun terminal all => last ?_ ?_⟩
    · exact done terminal
    · rw [split, List.map_cons] at all
      dsimp only
      rw [remaining, none_ terminal, List.append_nil]
      exact (List.cons.inj all).2

/-- Page after page is delivered, up to one behind which there was nothing. -/
theorem ensures_drainJobLogs (rounds : Nat) (progress : Progress id after state cursor) :
    Asking.Ensures followWorld (fun ended state' => match ended with
        | none => ∃ cursor', Progress id after state' cursor'
        | some cursor' => Progress id after state' cursor' ∧ (state.system.jobs.Terminal id → Exhausted id state' cursor'))
      (Failed id after) (drainJobLogs id limit rounds cursor) state := by
  induction rounds generalizing cursor state with
  | zero => exact ⟨cursor, progress⟩
  | succ rounds ih =>
    refine Asking.ensures_bind.mpr (Asking.ensures_consult.mpr ?_)
    rintro answer state' ⟨⟨actions, rfl⟩, served⟩
    have continued := progress.run actions
    refine ⟨fun page answered => ?_, fun failure threw => failed_of continued threw⟩
    obtain ⟨first, last, more⟩ := getJobLogs_ok continued.sound.ascending (served page (of_ok answered))
    refine Asking.ensures_bind.mpr ((ensures_deliverPage page.entries continued first).mono ?_ fun _ _ failed => failed)
    rintro cursor' state'' ⟨reached, -, ahead, kept, exhausted⟩
    have done (terminal : state.system.jobs.Terminal id) := (progress.sound.run id actions).2.terminal terminal
    split_ifs with ended same
    · exact ⟨reached, fun terminal => exhausted (done terminal) (last ended)⟩
    · -- A page with a next is not empty.
      have := ahead (more ended)
      rw [same] at this
      exact (Int.lt_irrefl _ this).elim
    · refine (ih reached).mono (fun ended final ends => ?_) fun _ _ failed => failed
      cases ended with
      | none => exact ends
      | some cursor'' => exact ⟨ends.1, fun terminal => ends.2 (kept (done terminal))⟩

/-- The job that comes back is over, and all of its rows were delivered. -/
def Complete (id : Text) (after : Option Int) (job : JobDto) (state : FollowState) : Prop :=
  job.status ∈ TERMINAL_STATUSES ∧ state.delivered = (state.system.jobs.behind id after).map JobLogRow.entry

theorem Progress.complete (progress : Progress id after state cursor) (exhausted : Exhausted id state cursor) :
    state.delivered = (state.system.jobs.behind id after).map JobLogRow.entry := by
  rw [← progress.covered, exhausted.2, List.map_nil, List.append_nil]

theorem terminal_of_getJob {jobs : Jobs} {job : JobDto} (got : jobs.getJob id = .ok job) (done : job.status ∈ TERMINAL_STATUSES) :
    jobs.Terminal id := by
  obtain ⟨row, found, returned⟩ := bind_eq_ok.mp got
  rw [pure_eq_ok] at returned
  subst returned
  exact ⟨row, required_eq_ok.mp found, done⟩

theorem ensures_waitForJob (rounds : Nat) (progress : Progress id after state cursor) :
    Asking.Ensures followWorld (fun ended state' => match ended with
        | none => ∃ cursor', Progress id after state' cursor'
        | some (job, cursor') => Progress id after state' cursor' ∧ Complete id after job state')
      (Failed id after) (waitForJob id limit rounds cursor) state := by
  induction rounds generalizing cursor state with
  | zero => exact ⟨cursor, progress⟩
  | succ rounds ih =>
    refine Asking.ensures_bind.mpr ((ensures_drainJobLogs rounds progress).mono (fun drained state' ends => ?_) fun _ _ failed => failed)
    cases drained with
    | none => exact ends
    | some cursor' =>
      refine Asking.ensures_bind.mpr (Asking.ensures_consult.mpr ?_)
      rintro answer state'' ⟨⟨actions, rfl⟩, got⟩
      have continued := ends.1.run actions
      refine ⟨fun job answered => ?_, fun failure threw => failed_of continued threw⟩
      split_ifs with done
      · -- By now no row will be added to what the last drain reads.
        have terminal := terminal_of_getJob (got job (of_ok answered)) done
        refine Asking.ensures_bind.mpr ((ensures_drainJobLogs rounds continued).mono (fun drained state'' ends' => ?_) fun _ _ failed => failed)
        cases drained with
        | none => exact ends'
        | some cursor'' => exact ⟨ends'.1, done, ends'.1.complete (ends'.2 terminal)⟩
      · refine Asking.ensures_bind.mpr (Asking.ensures_consult.mpr ?_)
        rintro answer state'' ⟨actions', rfl⟩
        exact ⟨fun _ _ => ih (continued.run actions'), fun failure threw => failed_of (continued.run actions') threw⟩

/-! ## Every call -/

/-- In order, and each from behind the cursor. -/
def InOrder (after : Option Int) (entries : List JobLogEntry) : Prop :=
  (entries.Pairwise fun first second => first.seq < second.seq) ∧ ∀ entry ∈ entries, after.getD (-1) < entry.seq

theorem InOrder.cut {entries entries' : List JobLogEntry} (ordered : InOrder after entries') (first : entries <+: entries') :
    InOrder after entries :=
  ⟨ordered.1.sublist first.sublist, fun entry member => ordered.2 entry (first.subset member)⟩

theorem Progress.inOrder (progress : Progress id after state cursor) : InOrder after state.delivered := by
  have all : InOrder after ((state.system.jobs.behind id after).map JobLogRow.entry) := by
    refine ⟨List.pairwise_map.mpr ((progress.sound.ascending id).filter _), fun entry member => ?_⟩
    obtain ⟨row, listed, rfl⟩ := List.mem_map.mp member
    exact (mem_behind.mp listed).2
  refine all.cut ?_
  rw [← progress.covered]
  exact List.prefix_append _ _

/-- Where a call stands or has ended: `ended` is the job that it came back with. -/
structure Delivers {α : Type} (id : Text) (after : Option Int) (ended : α → Option JobDto)
    (outcome : Asking.Outcome FollowError α) (state : FollowState) : Prop where
  inOrder : InOrder after state.delivered
  advances : ∀ message, outcome ≠ .thrown (.stuck message)
  complete : ∀ value job, outcome = .returned value → ended value = some job → Complete id after job state

theorem responsive : Asking.Responsive followWorld := by
  intro q state
  cases q with
  | logs id after limit => exact ⟨.error (invalidArgument ""), state, ⟨[], rfl⟩, fun _ same => by cases same⟩
  | job id => exact ⟨.error (invalidArgument ""), state, ⟨[], rfl⟩, fun _ same => by cases same⟩
  | deliver entry => exact ⟨.ok (), _, [], rfl⟩
  | delay => exact ⟨.ok (), state, [], rfl⟩

theorem delivered_grows (q : FollowQuestion) (state : FollowState) (answer : FollowAnswer q) (state' : FollowState)
    (replied : followWorld q state answer state') : state.delivered <+: state'.delivered := by
  cases q with
  | logs id after limit =>
    obtain ⟨⟨actions, rfl⟩, -⟩ := replied
    exact List.prefix_refl _
  | job id =>
    obtain ⟨⟨actions, rfl⟩, -⟩ := replied
    exact List.prefix_refl _
  | deliver entry =>
    obtain ⟨actions, rfl⟩ := replied
    exact List.prefix_append _ _
  | delay =>
    obtain ⟨actions, rfl⟩ := replied
    exact List.prefix_refl _

theorem delivers_of_ensures {α : Type} {computation : Following α} {returned : α → FollowState → Prop}
    {ended : α → Option JobDto} {outcome : Asking.Outcome FollowError α} {state' : FollowState}
    (ensures : Asking.Ensures followWorld returned (Failed id after) computation state)
    (returns : ∀ value final, returned value final →
      (∃ cursor, Progress id after final cursor) ∧ ∀ job, ended value = some job → Complete id after job final)
    (plays : Asking.Plays followWorld computation state outcome state') : Delivers id after ended outcome state' := by
  cases outcome with
  | returned value =>
    obtain ⟨⟨cursor, progress⟩, complete⟩ := returns value state' (ensures.of_returned plays)
    refine ⟨progress.inOrder, ?_, ?_⟩
    · intro message same
      cases same
    · intro value job same done
      cases same
      exact complete job done
  | thrown failure =>
    obtain ⟨⟨cursor, progress⟩, reason⟩ := ensures.of_thrown plays
    refine ⟨progress.inOrder, ?_, ?_⟩
    · intro message same
      cases same
      exact reason message rfl
    · intro value job same
      cases same
  | stopped =>
    obtain ⟨final, grown, ends⟩ := @Asking.Ensures.of_stopped _ _ _ _ _ _ (fun first second => first.delivered <+: second.delivered)
      responsive (fun state => List.prefix_refl _) List.IsPrefix.trans delivered_grows _ _ _ _ _ ensures plays
    obtain ⟨cursor, progress⟩ : ∃ cursor, Progress id after final cursor := by
      rcases ends with ⟨value, ends⟩ | ⟨failure, ends⟩
      · exact (returns value final ends).1
      · exact ends.1
    refine ⟨progress.inOrder.cut grown, ?_, ?_⟩
    · intro message same
      cases same
    · intro value job same
      cases same

theorem Progress.start (sound : state.system.Sound) (none_ : state.delivered = []) (id : Text) (after : Option Int) :
    Progress id after state after :=
  ⟨sound, by rw [none_, List.nil_append], .inl rfl, Int.le_refl _⟩

theorem ensures_followJobLogs (rounds : Nat) (progress : Progress id after state after) :
    Asking.Ensures followWorld (fun ended state' => (∃ cursor, Progress id after state' cursor) ∧
        ∀ job, ended = some job → Complete id after job state')
      (Failed id after) (followJobLogs id limit rounds after) state := by
  refine Asking.ensures_bind.mpr ((ensures_waitForJob rounds progress).mono (fun ended final ends => ?_) fun _ _ failed => failed)
  cases ended with
  | none => exact ⟨ends, fun _ same => by cases same⟩
  | some ended =>
    refine ⟨⟨ended.2, ends.1⟩, fun job same => ?_⟩
    cases same
    exact ends.2

end FollowState

open FollowState

/-- However the server goes on between the requests of a client, whatever it asks for is delivered in order and
once, no cursor is reported as stuck, and all rows of a job were delivered where the client comes back with it. -/
theorem following_delivers (before : List JobSystem.Action) (id : Text) (limit after : Option Int) (rounds : Nat) :
    (∀ outcome state, Asking.Plays followWorld (waitForJob id limit rounds after)
        ⟨run JobSystem.step JobSystem.initial before, []⟩ outcome state →
      Delivers id after (Option.map Prod.fst) outcome state) ∧
    (∀ outcome state, Asking.Plays followWorld (followJobLogs id limit rounds after)
        ⟨run JobSystem.step JobSystem.initial before, []⟩ outcome state →
      Delivers id after (fun job => job) outcome state) ∧
    ∀ outcome state, Asking.Plays followWorld (drainJobLogs id limit rounds after)
        ⟨run JobSystem.step JobSystem.initial before, []⟩ outcome state →
      Delivers id after (fun _ => none) outcome state := by
  have sound : (run JobSystem.step JobSystem.initial before).Sound := (JobSystem.Sound.initial.run id before).1
  have start : Progress id after ⟨run JobSystem.step JobSystem.initial before, []⟩ after := .start sound rfl id after
  refine ⟨fun outcome state => delivers_of_ensures (ensures_waitForJob rounds start) ?_,
    fun outcome state => delivers_of_ensures (ensures_followJobLogs rounds start) fun _ _ ends => ends,
    fun outcome state => delivers_of_ensures (ensures_drainJobLogs rounds start) ?_⟩
  · rintro (_ | ⟨job, cursor⟩) final ends
    · exact ⟨ends, fun _ same => by cases same⟩
    · refine ⟨⟨cursor, ends.1⟩, fun job' same => ?_⟩
      cases same
      exact ends.2
  · rintro (_ | cursor) final ends
    · exact ⟨ends, fun _ same => by cases same⟩
    · exact ⟨⟨cursor, ends.1⟩, fun _ same => by cases same⟩

end AiryFS
