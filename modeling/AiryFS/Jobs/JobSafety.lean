import AiryFS.Jobs.Runner

/-! What holds of the job table over every run, with restarts at any point.

A job moves only as `Moves` allows, and a command is started only by the step that claims its
job. The claim takes the job with the oldest recorded second; it is the job submitted first as
long as the clock does not step back.
-/

set_option autoImplicit false

namespace AiryFS

open Foundation

namespace Jobs

inductive Moves : JobStatus → JobStatus → Prop
  | claim : Moves .queued .running
  | cancel : Moves .queued .canceled
  | finish {status : JobStatus} : status ∈ TERMINAL_STATUSES → Moves .running status

/-- What one statement may make of a row. -/
structure Follows (row row' : JobRow) : Prop where
  id : row'.id = row.id
  idempotencyKey : row'.idempotencyKey = row.idempotencyKey
  createdAt : row'.createdAt = row.createdAt
  status : row'.status = row.status ∨ Moves row.status row'.status
  terminal : row.status ∈ TERMINAL_STATUSES → row' = row

/-- Rows change in place, and a new row is queued under a key of its own. -/
def Evolves (jobs jobs' : Jobs) : Prop :=
  ∃ change : JobRow → JobRow, (∀ row ∈ jobs.job.rows, Follows row (change row)) ∧
    (jobs'.job.rows = jobs.job.rows.map change ∨
      ∃ added : JobRow, jobs'.job.rows = jobs.job.rows.map change ++ [added] ∧ added.status = .queued ∧
        ∀ row ∈ jobs.job.rows, row.idempotencyKey ≠ added.idempotencyKey)

def runningIds (jobs : Jobs) : List Text := (jobs.job.rows.filter fun row => row.status = .running).map JobRow.id

/-- The queued row of the oldest second, and the first of that second. -/
structure Oldest (rows : List JobRow) (row : JobRow) : Prop where
  queued : row.status = .queued
  first : ∃ before after, rows = before ++ row :: after ∧
    (∀ other ∈ before, other.status = .queued → row.createdAt < other.createdAt) ∧
    ∀ other ∈ after, other.status = .queued → row.createdAt ≤ other.createdAt

variable {jobs : Jobs}

/-! ## Rows -/

theorem Follows.refl (row : JobRow) : Follows row row := ⟨rfl, rfl, rfl, .inl rfl, fun _ => rfl⟩

theorem Moves.not_queued {status status' : JobStatus} (moves : Moves status status') : status' ≠ .queued := by
  cases moves with
  | claim => decide
  | cancel => decide
  | finish terminal =>
    rintro rfl
    exact absurd terminal (by decide)

/-- A row that is not terminal may change where the table keeps it and its status. -/
theorem Follows.of_moves {row row' : JobRow} (id : row'.id = row.id) (key : row'.idempotencyKey = row.idempotencyKey)
    (createdAt : row'.createdAt = row.createdAt) (status : row'.status = row.status ∨ Moves row.status row'.status)
    (active : row.status ∉ TERMINAL_STATUSES) : Follows row row' :=
  ⟨id, key, createdAt, status, fun terminal => absurd terminal active⟩

theorem Follows.not_queued {row row' : JobRow} (follows : Follows row row') (left : row.status ≠ .queued) :
    row'.status ≠ .queued := by
  rcases follows.status with same | moves
  · rwa [same]
  · exact moves.not_queued

theorem Evolves.refl (jobs : Jobs) : Evolves jobs jobs :=
  ⟨id, fun row _ => .refl row, .inl (List.map_id _).symm⟩

theorem Evolves.of_rows {jobs' : Jobs} (same : jobs'.job.rows = jobs.job.rows) : Evolves jobs jobs' :=
  ⟨id, fun row _ => .refl row, .inl (same.trans (List.map_id _).symm)⟩

/-- Every row has its successor. -/
theorem Evolves.row {jobs' : Jobs} (evolves : Evolves jobs jobs') {row : JobRow} (member : row ∈ jobs.job.rows) :
    ∃ row' ∈ jobs'.job.rows, Follows row row' := by
  obtain ⟨change, follows, same | ⟨added, grown, -⟩⟩ := evolves
  · refine ⟨change row, ?_, follows row member⟩
    rw [same]
    exact List.mem_map_of_mem member
  · refine ⟨change row, ?_, follows row member⟩
    rw [grown]
    exact List.mem_append_left _ (List.mem_map_of_mem member)

theorem Evolves.terminal {jobs' : Jobs} (evolves : Evolves jobs jobs') {row : JobRow} (member : row ∈ jobs.job.rows)
    (terminal : row.status ∈ TERMINAL_STATUSES) : row ∈ jobs'.job.rows := by
  obtain ⟨row', member', follows⟩ := evolves.row member
  rwa [follows.terminal terminal] at member'

/-- The ids stand in the order of submission. -/
theorem Evolves.ids {jobs' : Jobs} (evolves : Evolves jobs jobs') :
    ∃ added : List Text, jobs'.job.rows.map JobRow.id = jobs.job.rows.map JobRow.id ++ added := by
  obtain ⟨change, follows, same | ⟨added, grown, -⟩⟩ := evolves
  · refine ⟨[], ?_⟩
    rw [same, List.map_map, List.append_nil]
    exact List.map_congr_left fun row member => (follows row member).id
  · refine ⟨[added.id], ?_⟩
    rw [grown, List.map_append, List.map_map]
    congr 1
    exact List.map_congr_left fun row member => (follows row member).id

theorem Evolves.keys {jobs' : Jobs} (evolves : Evolves jobs jobs')
    (unique : (jobs.job.rows.map JobRow.idempotencyKey).Nodup) : (jobs'.job.rows.map JobRow.idempotencyKey).Nodup := by
  obtain ⟨change, follows, other⟩ := evolves
  have kept : (jobs.job.rows.map change).map JobRow.idempotencyKey = jobs.job.rows.map JobRow.idempotencyKey := by
    rw [List.map_map]
    exact List.map_congr_left fun row member => (follows row member).idempotencyKey
  rcases other with same | ⟨added, grown, -, fresh⟩
  · rwa [same, kept]
  · rw [grown, List.map_append, kept, List.map_singleton]
    refine List.nodup_append.mpr ⟨unique, List.nodup_singleton _, ?_⟩
    intro key member other last
    obtain ⟨row, listed, rfl⟩ := List.mem_map.mp member
    rw [List.mem_singleton.mp last]
    exact fresh row listed

/-! ## Statements -/

section
variable {selected : JobRow → Bool} {change : JobRow → JobRow} {same : ∀ row, (change row).id = row.id}

theorem update_id (same : ∀ row, (change row).id = row.id) (row : JobRow) :
    (if selected row then change row else row).id = row.id := by
  split
  · exact same row
  · rfl

theorem update_rows : (jobs.update selected change same).job.rows =
    jobs.job.rows.map fun row => if selected row then change row else row := rfl

theorem update_selectById (id : Text) : (jobs.update selected change same).selectById id =
    (jobs.selectById id).map fun row => if selected row then change row else row := by
  exact jobs.job.find?_modify (update_id same) id

theorem update_evolves (follows : ∀ row ∈ jobs.job.rows, selected row → Follows row (change row)) :
    Evolves jobs (jobs.update selected change same) := by
  refine ⟨fun row => if selected row then change row else row, ?_, .inl update_rows⟩
  intro row member
  dsimp only
  split
  · rename_i chosen
    exact follows row member chosen
  · exact .refl row

theorem update_runningIds : (jobs.update selected change same).runningIds =
    (jobs.job.rows.filter fun row => (if selected row then change row else row).status = .running).map JobRow.id := by
  have kept : (JobRow.id ∘ fun row => if selected row then change row else row) = JobRow.id :=
    funext (update_id same)
  rw [runningIds, update_rows, List.filter_map, List.map_map, kept]
  rfl

theorem update_keeps_running
    (running : ∀ row ∈ jobs.job.rows, selected row → ((change row).status = .running ↔ row.status = .running)) :
    (jobs.update selected change same).runningIds = jobs.runningIds := by
  rw [update_runningIds, runningIds]
  congr 1
  apply List.filter_congr
  intro row member
  by_cases chosen : selected row = true
  · simp [chosen, running row member chosen]
  · simp [chosen]

end

theorem mem_runningIds {id : Text} : id ∈ jobs.runningIds ↔ ∃ row ∈ jobs.job.rows, row.status = .running ∧ row.id = id := by
  simp [runningIds, and_assoc]

theorem runningIds_eq_nil : jobs.runningIds = [] ↔ ∀ row ∈ jobs.job.rows, row.status ≠ .running := by
  simp [runningIds, List.filter_eq_nil_iff]

/-- Where the id is the only running one, its row runs. -/
theorem running_of_id {id : Text} (sole : jobs.runningIds = [id]) {row : JobRow} (member : row ∈ jobs.job.rows)
    (same : row.id = id) : row.status = .running := by
  obtain ⟨other, listed, running, named⟩ := mem_runningIds.mp (show id ∈ jobs.runningIds by simp [sole])
  rwa [← jobs.job.eq_of_key listed member (named.trans same.symm)]

theorem active_of_running {row : JobRow} (running : row.status = .running) : row.status ∉ TERMINAL_STATUSES := by
  rw [running]
  decide

/-- The row of a job that was just submitted. -/
def queuedRow (id idempotencyKey command cwd : Text) (now : Int) : JobRow :=
  { id, idempotencyKey, command, cwd, status := .queued, execId := none, exitCode := none, error := none,
    cancelRequested := 0, outputBytes := 0, outputTruncated := 0, createdAt := now, updatedAt := now,
    startedAt := none, finishedAt := none }

/-- A submission either finds its key or adds a row. -/
theorem submitJob_cases {input : SubmitJobInput} {id : Text} {now : Int} {result : SubmitJobResult} {jobs' : Jobs}
    (done : jobs.submitJob input id now = .ok (result, jobs')) :
    jobs' = jobs ∨ ∃ command cwd key,
      validateCommand input.command = .ok command ∧ validateCwd input.cwd = .ok cwd ∧
      (∀ row ∈ jobs.job.rows, row.idempotencyKey ≠ key) ∧ jobs'.log = jobs.log ∧
      jobs'.job.rows = jobs.job.rows ++ [queuedRow id key command cwd now] ∧
      result.job = toJobDto (queuedRow id key command cwd now) := by
  obtain ⟨command, commanded, done⟩ := bind_eq_ok.mp done
  obtain ⟨cwd, located, done⟩ := bind_eq_ok.mp done
  obtain ⟨key, -, done⟩ := bind_eq_ok.mp done
  cases found : jobs.selectByKey key with
  | some existing =>
    rw [found] at done
    obtain ⟨_, -, done⟩ := bind_eq_ok.mp done
    exact .inl (Prod.mk.inj (pure_eq_ok.mp done)).2.symm
  | none =>
    rw [found] at done
    obtain ⟨inserted, insert, done⟩ := bind_eq_ok.mp done
    obtain ⟨created, selected, done⟩ := bind_eq_ok.mp done
    obtain ⟨_, fresh, insert⟩ := bind_eq_ok.mp insert
    obtain ⟨table, appended, insert⟩ := bind_eq_ok.mp insert
    have inside := required_eq_ok.mp appended
    have rows := (jobs.job.insert?_eq_some_iff.mp inside).2
    have kept := jobs.job.find?_insert inside id
    obtain ⟨answer, reached⟩ := Prod.mk.inj (pure_eq_ok.mp done)
    rw [← pure_eq_ok.mp insert] at selected
    have stored := required_eq_ok.mp selected
    change table.find? id = some created at stored
    rw [stored, if_pos rfl] at kept
    rw [← reached, ← pure_eq_ok.mp insert, ← answer, Option.some.inj kept]
    refine .inr ⟨command, cwd, key, commanded, located, ?_, rfl, rows, rfl⟩
    intro row member taken
    exact refuse_eq_ok.mp fresh ⟨row, member, taken⟩

theorem submitJob_spec {input : SubmitJobInput} {id : Text} {now : Int} {result : SubmitJobResult} {jobs' : Jobs}
    (done : jobs.submitJob input id now = .ok (result, jobs')) :
    jobs' = jobs ∨ ∃ added : JobRow, jobs'.job.rows = jobs.job.rows ++ [added] ∧ added.status = .queued ∧
      added.createdAt = now ∧ ∀ row ∈ jobs.job.rows, row.idempotencyKey ≠ added.idempotencyKey := by
  rcases submitJob_cases done with same | ⟨command, cwd, key, -, -, fresh, -, rows, -⟩
  · exact .inl same
  · exact .inr ⟨_, rows, rfl, rfl, fresh⟩

/-- The loop over the orphans interrupts each of them. -/
theorem recover_rows (now : Int) (orphans : List JobRow) :
    (orphans.foldl (fun jobs orphan =>
      jobs.update (fun row => row.id = orphan.id && row.status = .running) (interrupt now) (interrupt_id now)) jobs).job.rows =
      jobs.job.rows.map fun row =>
        if row.id ∈ orphans.map JobRow.id ∧ row.status = .running then interrupt now row else row := by
  induction orphans generalizing jobs with
  | nil => simp
  | cons orphan orphans ih =>
    rw [List.foldl_cons, ih, update_rows, List.map_map]
    apply List.map_congr_left
    intro row member
    by_cases running : row.status = .running
    · by_cases own : row.id = orphan.id
      · simp [own, running, interrupt]
      · simp [own, running]
    · simp [running]

theorem recoverOrphans_rows (now : Int) : (jobs.recoverOrphans now).2.job.rows =
    jobs.job.rows.map fun row => if row.status = .running then interrupt now row else row := by
  rw [recoverOrphans, recover_rows]
  apply List.map_congr_left
  intro row member
  by_cases running : row.status = .running
  · have listed : row.id ∈ (jobs.job.rows.filter fun row => row.status = .running).map JobRow.id :=
      List.mem_map_of_mem (List.mem_filter.mpr ⟨member, by simpa using running⟩)
    simp [running, listed]
  · simp [running]

theorem recoverOrphans_count (now : Int) : (jobs.recoverOrphans now).1 = jobs.runningIds.length := by
  simp [recoverOrphans, runningIds]

theorem recoverOrphans_of_none (idle : jobs.runningIds = []) (now : Int) : jobs.recoverOrphans now = (0, jobs) := by
  have none_ : (jobs.job.rows.filter fun row => row.status = .running) = [] := List.map_eq_nil_iff.mp idle
  rw [recoverOrphans, none_]
  rfl

theorem recoverOrphans_evolves (now : Int) : Evolves jobs (jobs.recoverOrphans now).2 := by
  refine ⟨_, ?_, .inl (recoverOrphans_rows now)⟩
  intro row member
  split
  · rename_i running
    refine .of_moves rfl rfl rfl (.inr ?_) (active_of_running running)
    rw [running]
    exact .finish (show JobStatus.unknown ∈ TERMINAL_STATUSES by decide)
  · exact .refl row

theorem recoverOrphans_runningIds (now : Int) : (jobs.recoverOrphans now).2.runningIds = [] := by
  rw [runningIds_eq_nil, recoverOrphans_rows]
  intro row member
  obtain ⟨old, -, rfl⟩ := List.mem_map.mp member
  split
  · exact (by decide : JobStatus.unknown ≠ .running)
  · assumption

/-- The least element is found at its first place. -/
theorem argmin_split {α β : Type} [DecidableEq α] [LinearOrder β] {rows : List α} {key : α → β} {row : α}
    (least : rows.argmin key = some row) :
    ∃ before after, rows = before ++ row :: after ∧ (∀ other ∈ before, key row < key other) ∧
      ∀ other ∈ after, key row ≤ key other := by
  have member := List.argmin_mem least
  have within := List.idxOf_lt_length_of_mem member
  refine ⟨rows.take (rows.idxOf row), rows.drop (rows.idxOf row + 1), ?_, ?_, ?_⟩
  · have split := List.take_append_drop (rows.idxOf row) rows
    rwa [List.drop_eq_getElem_cons within, List.getElem_idxOf, eq_comm] at split
  · intro other earlier
    by_contra later
    have listed := List.mem_of_mem_take earlier
    have first := List.index_of_argmin least listed (not_lt.mp later)
    have before := (List.mem_take_iff_idxOf_lt listed).mp earlier
    omega
  · intro other later
    exact List.le_of_mem_argmin (List.mem_of_mem_drop later) least

theorem oldestQueued_spec {row : JobRow} (found : jobs.oldestQueued = some row) : Oldest jobs.job.rows row := by
  have queued := List.mem_filter.mp (List.argmin_mem found)
  refine ⟨of_decide_eq_true queued.2, ?_⟩
  obtain ⟨before, after, split, earlier, later⟩ := argmin_split found
  obtain ⟨first, rest, whole, kept, others⟩ := List.filter_eq_append_iff.mp split
  obtain ⟨skipped, last, tail, unqueued, -, remaining⟩ := List.filter_eq_cons_iff.mp others
  refine ⟨first ++ skipped, last, by rw [whole, tail, List.append_assoc], ?_, ?_⟩
  · intro other member queued
    rcases List.mem_append.mp member with inside | skipped
    · apply earlier
      rw [← kept]
      exact List.mem_filter.mpr ⟨inside, decide_eq_true queued⟩
    · exact absurd (decide_eq_true queued) (unqueued other skipped)
  · intro other member queued
    apply later
    rw [← remaining]
    exact List.mem_filter.mpr ⟨member, decide_eq_true queued⟩

theorem claim_id (now : Int) (row : JobRow) :
    ({ row with status := .running, startedAt := some now, updatedAt := now } : JobRow).id = row.id := rfl

/-- The claim of the row makes it the one that runs. -/
theorem claimNextJob_spec (now : Int) (idle : jobs.runningIds = []) {row : JobRow} (found : jobs.oldestQueued = some row) :
    ∃ claimed jobs', jobs.claimNextJob now = (some claimed, jobs') ∧ jobs'.selectById row.id = some claimed ∧
      claimed.id = row.id ∧ claimed.status = .running ∧ Evolves jobs jobs' ∧ jobs'.runningIds = [row.id] := by
  have queued := (oldestQueued_spec found).queued
  have member : row ∈ jobs.job.rows := (List.mem_filter.mp (List.argmin_mem found)).1
  have listed : jobs.selectById row.id = some row := jobs.job.find?_of_mem member
  obtain ⟨jobs', named⟩ : ∃ jobs', jobs' = jobs.update (fun other => other.id = row.id && other.status = .queued)
    (fun row => { row with status := .running, startedAt := some now, updatedAt := now }) (claim_id now) := ⟨_, rfl⟩
  have kept : jobs'.selectById row.id = some { row with status := .running, startedAt := some now, updatedAt := now } := by
    rw [named, update_selectById, listed]
    simp [queued]
  refine ⟨_, jobs', ?_, kept, rfl, rfl, ?_, ?_⟩
  · have claimed : jobs.claimNextJob now = ((jobs'.selectById row.id).filter fun claimed => claimed.status = .running, jobs') := by
      rw [claimNextJob, found, named]
    rw [claimed, kept]
    rfl
  · rw [named]
    apply update_evolves
    intro other listed chosen
    have waiting : other.status = .queued := by simpa using (Bool.and_eq_true_iff.mp chosen).2
    refine .of_moves rfl rfl rfl (.inr ?_) ?_
    · rw [waiting]
      exact .claim
    · rw [waiting]
      decide
  · -- Nothing else runs, so the filter picks the claimed row alone.
    rw [named, update_runningIds]
    have picked := jobs.job.filter_key listed
    have same : (jobs.job.rows.filter fun other => (if (other.id = row.id && other.status = .queued : Bool)
        then { other with status := .running, startedAt := some now, updatedAt := now } else other).status = .running) =
        jobs.job.rows.filter fun other => other.id = row.id := by
      apply List.filter_congr
      intro other listed
      have still := runningIds_eq_nil.mp idle other listed
      by_cases own : other.id = row.id
      · have equal := jobs.job.eq_of_key listed member own
        simp [equal, queued]
      · simp [own, still]
    rw [same, picked, List.map_singleton]

/-- A statement about the running job that leaves its status alone. -/
theorem setExecId_spec {id : Text} (sole : jobs.runningIds = [id]) (execId : Text) (now : Int) :
    Evolves jobs (jobs.setExecId id execId now) ∧ (jobs.setExecId id execId now).runningIds = jobs.runningIds := by
  constructor
  · apply update_evolves
    intro row member chosen
    have running := running_of_id sole member (of_decide_eq_true chosen)
    exact .of_moves rfl rfl rfl (.inl rfl) (active_of_running running)
  · exact update_keeps_running fun row member chosen => Iff.rfl

theorem appendJobLog_job {row : JobLogRow} {jobs' : Jobs} (done : jobs.appendJobLog row = .ok jobs') :
    jobs'.job = jobs.job := by
  obtain ⟨log, -, done⟩ := bind_eq_ok.mp done
  rw [← pure_eq_ok.mp done]

theorem finalizeJob_spec {id : Text} (sole : jobs.runningIds = [id]) (outcome : Outcome) (now : Int) :
    Evolves jobs (jobs.finalizeJob id outcome now) ∧ (jobs.finalizeJob id outcome now).runningIds = [] := by
  constructor
  · apply update_evolves
    intro row member chosen
    have running := running_of_id sole member (of_decide_eq_true chosen)
    refine .of_moves rfl rfl rfl (.inr ?_) (active_of_running running)
    rw [running]
    exact .finish outcome.terminal
  · rw [runningIds_eq_nil]
    intro row' member
    obtain ⟨row, listed, rfl⟩ := List.mem_map.mp member
    by_cases own : row.id = id
    · have ended : outcome.status ≠ .running := by
        intro running
        have terminal := outcome.terminal
        rw [running] at terminal
        exact absurd terminal (by decide)
      simpa [own] using ended
    · intro running
      have inside : row.id ∈ jobs.runningIds := mem_runningIds.mpr ⟨row, listed, by simpa [own] using running, rfl⟩
      rw [sole, List.mem_singleton] at inside
      exact own inside

theorem requestCancel_spec {id : Text} {now : Int} {result : CancelResult} {jobs' : Jobs}
    (done : jobs.requestCancel id now = .ok (result, jobs')) :
    Evolves jobs jobs' ∧ jobs'.runningIds = jobs.runningIds := by
  obtain ⟨row, found, done⟩ := bind_eq_ok.mp done
  have selected := required_eq_ok.mp found
  have member := jobs.job.find?_mem selected
  have named := jobs.job.find?_key selected
  split at done
  · -- A queued job ends at once.
    rename_i queued
    rw [← (Prod.mk.inj (pure_eq_ok.mp done)).2]
    constructor
    · apply update_evolves
      intro other listed chosen
      have waiting : other.status = .queued := by simpa using (Bool.and_eq_true_iff.mp chosen).2
      refine .of_moves rfl rfl rfl (.inr ?_) ?_
      · rw [waiting]
        exact .cancel
      · rw [waiting]
        decide
    · apply update_keeps_running
      intro other listed chosen
      have waiting : other.status = .queued := by simpa using (Bool.and_eq_true_iff.mp chosen).2
      simp [waiting]
  · -- A running job is only asked to end.
    rename_i running
    rw [← (Prod.mk.inj (pure_eq_ok.mp done)).2]
    split
    · exact ⟨.refl jobs, rfl⟩
    · constructor
      · apply update_evolves
        intro other listed chosen
        have same := jobs.job.eq_of_key listed member ((of_decide_eq_true chosen).trans named.symm)
        rw [same]
        exact .of_moves rfl rfl rfl (.inl rfl) (active_of_running running)
      · exact update_keeps_running fun other listed chosen => Iff.rfl
  · rw [← (Prod.mk.inj (pure_eq_ok.mp done)).2]
    exact ⟨.refl jobs, rfl⟩

end Jobs

open Jobs

namespace JobSystem

/-! ## Steps -/

/-- Which rows run, as far as the runner knows: a restart may leave one behind. -/
def Holds (system : JobSystem) : Prop :=
  match system.runner with
  | .idle => system.jobs.runningIds.length ≤ 1
  | .recycling => system.jobs.runningIds = []
  | .starting job => system.jobs.runningIds = [job.id]
  | .reading run => system.jobs.runningIds = [run.job.id]
  | .scheduling => system.jobs.runningIds = []

/-- What one step does to the table, and that it starts a command only with a claim. -/
structure Advance (system system' : JobSystem) : Prop where
  evolves : Evolves system.jobs system'.jobs
  holds : system'.Holds
  started : (system'.started = system.started ∧ ∀ id ∈ system'.jobs.runningIds, id ∈ system.jobs.runningIds) ∨
    ∃ row command, Oldest system.jobs.job.rows row ∧ system'.started = system.started ++ [(row.id, command)] ∧
      system'.jobs.runningIds = [row.id]

variable {system : JobSystem}

theorem Holds.bound (holds : system.Holds) : system.jobs.runningIds.length ≤ 1 := by
  unfold Holds at holds
  split at holds
  · exact holds
  · simp [holds]
  · simp [holds]
  · simp [holds]
  · simp [holds]

/-- Where neither the runner nor the running rows change. -/
theorem Advance.of_same {system' : JobSystem} (holds : system.Holds) (evolves : Evolves system.jobs system'.jobs)
    (running : system'.jobs.runningIds = system.jobs.runningIds) (runner : system'.runner = system.runner)
    (started : system'.started = system.started) : Advance system system' := by
  refine ⟨evolves, ?_, .inl ⟨started, fun id member => by rwa [running] at member⟩⟩
  unfold Holds at holds ⊢
  rwa [running, runner]

theorem runningIds_of_rows {jobs jobs' : Jobs} (same : jobs'.job = jobs.job) : jobs'.runningIds = jobs.runningIds := by
  rw [Jobs.runningIds, same]
  rfl

theorem advance_submit (holds : system.Holds) (input : SubmitJobInput) (id : Text) (now : Int) :
    Advance system (system.submit input id now) := by
  unfold submit
  split
  · rename_i result jobs done
    rcases submitJob_spec done with same | ⟨added, rows, queued, -, fresh⟩
    · rw [same]
      exact .of_same holds (.refl _) rfl rfl rfl
    · refine .of_same holds ⟨fun row => row, fun row _ => .refl row, .inr ⟨added, ?_, queued, fresh⟩⟩ ?_ rfl rfl
      · rw [rows, List.map_id']
      · simp [Jobs.runningIds, rows, queued]
  · exact .of_same holds (.refl _) rfl rfl rfl

theorem advance_cancel (holds : system.Holds) (id : Text) (now : Int) : Advance system (system.cancel id now) := by
  unfold cancel
  split
  · rename_i result jobs done
    obtain ⟨evolves, running⟩ := requestCancel_spec done
    exact .of_same holds evolves running rfl rfl
  · exact .of_same holds (.refl _) rfl rfl rfl

theorem advance_admit (idle : system.jobs.runningIds = []) (busy : Bool) (now : Int) :
    Advance system (system.claimAndRun busy now) := by
  unfold claimAndRun
  split
  · exact ⟨.refl _, idle, .inl ⟨rfl, fun id member => member⟩⟩
  · cases found : system.jobs.oldestQueued with
    | none =>
      have nothing : system.jobs.claimNextJob now = (none, system.jobs) := by rw [Jobs.claimNextJob, found]
      rw [nothing]
      refine ⟨.refl _, ?_, .inl ⟨rfl, fun id member => member⟩⟩
      exact (congrArg List.length idle).trans_le (Nat.zero_le 1)
    | some row =>
      obtain ⟨claimed, jobs, claim, kept, named, running, evolves, sole⟩ := claimNextJob_spec now idle found
      rw [claim]
      unfold runJob
      dsimp only
      rw [named, kept]
      simp only [running, ne_eq, not_true_eq_false, if_false]
      refine ⟨evolves, ?_, .inr ⟨row, _, oldestQueued_spec found, rfl, sole⟩⟩
      rw [Holds]
      exact sole.trans (congrArg (fun id => [id]) named.symm)

theorem advance_runNextJob (holds : system.Holds) (busy : Bool) (now : Int) :
    Advance system (system.runNextJob busy now) := by
  unfold runNextJob
  split
  · by_cases idle : system.jobs.runningIds = []
    · rw [recoverOrphans_of_none idle]
      exact advance_admit idle busy now
    · have some_ : (system.jobs.recoverOrphans now).1 > 0 := by
        rw [recoverOrphans_count]
        exact List.length_pos_iff.mpr idle
      have none_ := @recoverOrphans_runningIds system.jobs now
      dsimp only
      rw [if_pos some_]
      refine ⟨recoverOrphans_evolves now, none_, .inl ⟨rfl, ?_⟩⟩
      intro id member
      rw [none_] at member
      cases member
  · exact .of_same holds (.refl _) rfl rfl rfl

theorem advance_finish {id : Text} (sole : system.jobs.runningIds = [id]) (outcome : Outcome) (now : Int) :
    Advance system (system.finish id outcome now) := by
  obtain ⟨evolves, none_⟩ := finalizeJob_spec sole outcome now
  refine ⟨evolves, none_, .inl ⟨rfl, ?_⟩⟩
  intro id member
  rw [show (system.finish _ outcome now).jobs.runningIds = [] from none_] at member
  cases member

theorem advance_handleOutput {run : JobRun} (reading : system.runner = .reading run)
    (sole : system.jobs.runningIds = [run.job.id]) (stream : JobStream) (data : Bytes) (now : Int) :
    Advance system (system.handleOutput run stream data now) := by
  have holds : system.Holds := by
    rw [Holds, reading]
    exact sole
  unfold handleOutput
  split
  · exact .of_same holds (.refl _) rfl rfl rfl
  · dsimp only
    split
    · exact ⟨.refl _, sole, .inl ⟨rfl, fun id member => member⟩⟩
    · split
      · rename_i jobs done
        have job := appendJobLog_job done
        refine ⟨.of_rows (by rw [job]), (runningIds_of_rows job).trans sole, .inl ⟨rfl, ?_⟩⟩
        intro id member
        rwa [show jobs.runningIds = _ from runningIds_of_rows job] at member
      · exact advance_finish sole _ now

theorem advance_handle {run : JobRun} (reading : system.runner = .reading run)
    (sole : system.jobs.runningIds = [run.job.id]) (event : ExecEvent) (now : Int) :
    Advance system (system.handle run event now) := by
  have holds : system.Holds := by
    rw [Holds, reading]
    exact sole
  cases event with
  | start id =>
    obtain ⟨evolves, running⟩ := setExecId_spec sole id now
    exact .of_same holds evolves running rfl rfl
  | output stream id data => exact advance_handleOutput reading sole stream data now
  | exit id exitCode => exact ⟨.refl _, sole, .inl ⟨rfl, fun id member => member⟩⟩

theorem advance_step (holds : system.Holds) (action : Action) : Advance system (step system action) := by
  have unchanged : Advance system system := .of_same holds (.refl _) rfl rfl rfl
  unfold step
  split
  · exact advance_submit holds _ _ _
  · exact advance_cancel holds _ _
  · exact advance_runNextJob holds _ _
  · rename_i failed busy now recycling
    have idle : system.jobs.runningIds = [] := by rwa [Holds, recycling] at holds
    split
    · refine ⟨.refl _, ?_, .inl ⟨rfl, fun id member => member⟩⟩
      exact (congrArg List.length idle).trans_le (Nat.zero_le 1)
    · exact advance_admit idle busy now
  · rename_i job starting
    have sole : system.jobs.runningIds = [job.id] := by rwa [Holds, starting] at holds
    exact ⟨.refl _, sole, .inl ⟨rfl, fun id member => member⟩⟩
  · rename_i error now job starting
    have sole : system.jobs.runningIds = [job.id] := by rwa [Holds, starting] at holds
    exact advance_finish sole _ now
  · rename_i event now run reading
    have sole : system.jobs.runningIds = [run.job.id] := by rwa [Holds, reading] at holds
    exact advance_handle reading sole event now
  · rename_i error now run reading
    have sole : system.jobs.runningIds = [run.job.id] := by rwa [Holds, reading] at holds
    exact advance_finish sole _ now
  · rename_i now run reading
    have sole : system.jobs.runningIds = [run.job.id] := by rwa [Holds, reading] at holds
    exact advance_finish sole _ now
  · rename_i scheduling
    have idle : system.jobs.runningIds = [] := by rwa [Holds, scheduling] at holds
    refine ⟨.refl _, ?_, .inl ⟨rfl, fun id member => member⟩⟩
    exact (congrArg List.length idle).trans_le (Nat.zero_le 1)
  · -- A restart forgets the runner, whatever it was doing.
    exact ⟨.refl _, holds.bound, .inl ⟨rfl, fun id member => member⟩⟩
  · exact unchanged

/-! ## Runs -/

def startedIds (system : JobSystem) : List Text := system.started.map Prod.fst

structure Safe (system : JobSystem) : Prop where
  holds : system.Holds
  keys : (system.jobs.job.rows.map JobRow.idempotencyKey).Nodup
  once : system.startedIds.Nodup
  claimed : ∀ id ∈ system.startedIds, ∃ row ∈ system.jobs.job.rows, row.id = id ∧ row.status ≠ .queued

theorem safe_initial : Safe initial :=
  ⟨Nat.zero_le 1, List.nodup_nil, List.nodup_nil, fun id member => by cases member⟩

theorem Safe.claimed_later {system' : JobSystem} (safe : system.Safe) (evolves : Evolves system.jobs system'.jobs)
    {id : Text} (member : id ∈ system.startedIds) : ∃ row ∈ system'.jobs.job.rows, row.id = id ∧ row.status ≠ .queued := by
  obtain ⟨row, listed, named, left⟩ := safe.claimed id member
  obtain ⟨row', listed', follows⟩ := evolves.row listed
  exact ⟨row', listed', follows.id.trans named, follows.not_queued left⟩

/-- A queued job has not been started. -/
theorem Safe.not_started (safe : system.Safe) {row : JobRow} (member : row ∈ system.jobs.job.rows)
    (queued : row.status = .queued) : row.id ∉ system.startedIds := by
  intro started
  obtain ⟨other, listed, named, left⟩ := safe.claimed row.id started
  rw [system.jobs.job.eq_of_key listed member named] at left
  exact left queued

theorem Oldest.mem {rows : List JobRow} {row : JobRow} (oldest : Oldest rows row) : row ∈ rows := by
  obtain ⟨before, after, split, -⟩ := oldest.first
  rw [split]
  exact List.mem_append_right _ List.mem_cons_self

theorem Safe.advance {system' : JobSystem} (safe : system.Safe) (advance : Advance system system') : system'.Safe := by
  refine ⟨advance.holds, advance.evolves.keys safe.keys, ?_, ?_⟩
  · rcases advance.started with ⟨same, -⟩ | ⟨row, command, oldest, grown, -⟩
    · rw [startedIds, same]
      exact safe.once
    · rw [startedIds, grown, List.map_append, List.map_singleton]
      refine List.nodup_append.mpr ⟨safe.once, List.nodup_singleton _, ?_⟩
      intro id member other last
      rw [List.mem_singleton.mp last]
      rintro rfl
      exact safe.not_started (Oldest.mem oldest) oldest.queued member
  · intro id member
    rcases advance.started with ⟨same, -⟩ | ⟨row, command, oldest, grown, sole⟩
    · rw [startedIds, same] at member
      exact safe.claimed_later advance.evolves member
    · rw [startedIds, grown, List.map_append, List.map_singleton] at member
      rcases List.mem_append.mp member with earlier | last
      · exact safe.claimed_later advance.evolves earlier
      · obtain ⟨running, listed, status, named⟩ := mem_runningIds.mp (show row.id ∈ system'.jobs.runningIds by simp [sole])
        refine ⟨running, listed, named.trans (List.mem_singleton.mp last).symm, ?_⟩
        rw [status]
        decide

theorem Safe.step (safe : system.Safe) (action : Action) : (JobSystem.step system action).Safe :=
  safe.advance (advance_step safe.holds action)

theorem safe_run (actions : List Action) (safe : system.Safe) : (run JobSystem.step system actions).Safe := by
  induction actions generalizing system with
  | nil => exact safe
  | cons action actions ih => exact ih (safe.step action)

theorem terminal_run (later : List Action) (safe : system.Safe) {row : JobRow} (member : row ∈ system.jobs.job.rows)
    (terminal : row.status ∈ TERMINAL_STATUSES) : row ∈ (run JobSystem.step system later).jobs.job.rows := by
  induction later generalizing system with
  | nil => exact member
  | cons action later ih =>
    exact ih (safe.step action) ((advance_step safe.holds action).evolves.terminal member terminal)

/-! ## The order of the claims -/

/-- The recorded seconds never go back from one submission to the next. -/
def Onward (rows : List JobRow) : Prop := rows.Pairwise fun earlier later => earlier.createdAt ≤ later.createdAt

instance (rows : List JobRow) : Decidable (Onward rows) := inferInstanceAs (Decidable (rows.Pairwise _))

/-- No job is still queued before one that was started. -/
def Passed (rows : List JobRow) (started : List Text) : Prop :=
  rows.Pairwise fun earlier later => later.id ∈ started → earlier.status ≠ .queued

theorem Oldest.passed {rows : List JobRow} {row : JobRow} (oldest : Oldest rows row)
    (unique : (rows.map JobRow.id).Nodup) (onward : Onward rows) : Passed rows [row.id] := by
  obtain ⟨before, after, split, earlier, -⟩ := oldest.first
  subst split
  rw [List.map_append, List.map_cons] at unique
  obtain ⟨-, rest, apart⟩ := List.nodup_append.mp unique
  obtain ⟨-, -, cross⟩ := List.pairwise_append.mp onward
  have none_before : ∀ other ∈ before, other.id ∉ [row.id] := fun other member same =>
    apart other.id (List.mem_map_of_mem member) row.id List.mem_cons_self (List.mem_singleton.mp same)
  have none_after : ∀ other ∈ after, other.id ∉ [row.id] := by
    intro other member same
    rw [List.mem_singleton] at same
    have fresh := (List.nodup_cons.mp rest).1
    rw [← same] at fresh
    exact fresh (List.mem_map_of_mem member)
  refine List.pairwise_append.mpr ⟨?_, List.pairwise_cons.mpr ⟨?_, ?_⟩, ?_⟩
  · exact List.pairwise_of_forall_mem_list fun _ _ other member same => absurd same (none_before other member)
  · exact fun other member same => absurd same (none_after other member)
  · exact List.pairwise_of_forall_mem_list fun _ _ other member same => absurd same (none_after other member)
  · intro first member other later same queued
    rcases List.mem_cons.mp later with rfl | later
    · have back := earlier first member queued
      have forth := cross first member other List.mem_cons_self
      omega
    · exact none_after other later same

theorem Evolves.onward {jobs jobs' : Jobs} (evolves : Evolves jobs jobs') (onward : Onward jobs'.job.rows) :
    Onward jobs.job.rows := by
  obtain ⟨change, follows, other⟩ := evolves
  have changed : Onward (jobs.job.rows.map change) := by
    rcases other with same | ⟨added, grown, -⟩
    · rwa [same] at onward
    · rw [grown] at onward
      exact (List.pairwise_append.mp onward).1
  refine (List.pairwise_map.mp changed).imp_of_mem ?_
  intro first second left right order
  rwa [(follows first left).createdAt, (follows second right).createdAt] at order

theorem Evolves.passed {jobs jobs' : Jobs} (evolves : Evolves jobs jobs') {started : List Text}
    (known : ∀ id ∈ started, ∃ row ∈ jobs.job.rows, row.id = id) (passed : Passed jobs.job.rows started) :
    Passed jobs'.job.rows started := by
  have unique := jobs'.job.unique
  obtain ⟨change, follows, other⟩ := evolves
  have changed : Passed (jobs.job.rows.map change) started := by
    refine List.pairwise_map.mpr (passed.imp_of_mem ?_)
    intro first second left right order later
    rw [(follows second right).id] at later
    exact (follows first left).not_queued (order later)
  rcases other with same | ⟨added, grown, -⟩
  · rwa [same]
  · rw [grown] at unique ⊢
    rw [List.map_append] at unique
    refine List.pairwise_append.mpr ⟨changed, List.pairwise_singleton _ _, ?_⟩
    intro first member second last later
    rw [List.mem_singleton.mp last] at later
    -- The new row has a new id, and only known jobs were started.
    obtain ⟨row, listed, named⟩ := known added.id later
    refine absurd ?_ ((List.nodup_append.mp unique).2.2 added.id ?_ added.id (by simp))
    · rfl
    · rw [← named, ← (follows row listed).id]
      exact List.mem_map_of_mem (List.mem_map_of_mem listed)

/-- The claimed job comes after every job that was started before. -/
theorem Safe.claim_order (safe : system.Safe) {row : JobRow} (oldest : Oldest system.jobs.job.rows row)
    (order : system.startedIds.Sublist (system.jobs.job.rows.map JobRow.id))
    (passed : Passed system.jobs.job.rows system.startedIds) :
    (system.startedIds ++ [row.id]).Sublist (system.jobs.job.rows.map JobRow.id) := by
  have fresh := safe.not_started (Oldest.mem oldest) oldest.queued
  obtain ⟨before, after, split, -⟩ := oldest.first
  rw [split, List.map_append, List.map_cons] at order ⊢
  rw [split] at passed
  obtain ⟨-, tail, -⟩ := List.pairwise_append.mp passed
  obtain ⟨inside, beyond, spelled, left, right⟩ := List.sublist_append_iff.mp order
  have nothing : beyond = [] := by
    apply List.eq_nil_iff_forall_not_mem.mpr
    intro id member
    have started : id ∈ system.startedIds := by
      rw [spelled]
      exact List.mem_append_right _ member
    rcases List.mem_cons.mp (right.subset member) with rfl | later
    · exact fresh started
    · obtain ⟨other, listed, rfl⟩ := List.mem_map.mp later
      exact (List.pairwise_cons.mp tail).1 other listed started oldest.queued
  rw [spelled, nothing, List.append_nil]
  exact left.append (List.singleton_sublist.mpr List.mem_cons_self)

structure Ordered (system : JobSystem) : Prop where
  order : system.startedIds.Sublist (system.jobs.job.rows.map JobRow.id)
  passed : Passed system.jobs.job.rows system.startedIds

theorem Ordered.advance {system' : JobSystem} (safe : system.Safe) (ordered : system.Ordered)
    (onward : Onward system.jobs.job.rows) (advance : Advance system system') : system'.Ordered := by
  obtain ⟨added, ids⟩ := advance.evolves.ids
  have known : ∀ id ∈ system.startedIds, ∃ row ∈ system.jobs.job.rows, row.id = id := by
    intro id member
    obtain ⟨row, listed, named, -⟩ := safe.claimed id member
    exact ⟨row, listed, named⟩
  rcases advance.started with ⟨same, -⟩ | ⟨row, command, oldest, grown, -⟩
  · have started : system'.startedIds = system.startedIds := by rw [startedIds, same, ← startedIds]
    constructor
    · rw [started, ids]
      exact ordered.order.trans (List.sublist_append_left _ _)
    · rw [started]
      exact Evolves.passed advance.evolves known ordered.passed
  · have started : system'.startedIds = system.startedIds ++ [row.id] := by
      rw [startedIds, grown, List.map_append, List.map_singleton, ← startedIds]
    constructor
    · rw [started, ids]
      exact (safe.claim_order oldest ordered.order ordered.passed).trans (List.sublist_append_left _ _)
    · rw [started]
      apply Evolves.passed advance.evolves
      · intro id member
        rcases List.mem_append.mp member with earlier | last
        · exact known id earlier
        · exact ⟨row, Oldest.mem oldest, (List.mem_singleton.mp last).symm⟩
      · have own := Oldest.passed oldest system.jobs.job.unique onward
        refine (ordered.passed.and own).imp ?_
        rintro first second ⟨before, last⟩ member
        rcases List.mem_append.mp member with earlier | same
        · exact before earlier
        · exact last same

theorem ordered_run (actions : List Action) (onward : Onward (run JobSystem.step initial actions).jobs.job.rows) :
    (run JobSystem.step initial actions).Ordered := by
  induction actions using List.reverseRecOn with
  | nil => exact ⟨List.nil_sublist _, List.Pairwise.nil⟩
  | append_singleton actions action ih =>
    have safe := safe_run actions safe_initial
    have reached : run JobSystem.step initial (actions ++ [action]) =
        JobSystem.step (run JobSystem.step initial actions) action := by simp [run]
    rw [reached] at onward ⊢
    have advance := advance_step safe.holds action
    have earlier := Evolves.onward advance.evolves onward
    exact (ih earlier).advance safe earlier advance

/-- Over every run: a row moves only as `Moves` allows, and not at all once it is terminal. An
idempotency key has one row, a command is started once, and one job runs at a time. A command is
started by the step in which its job turns running, and that job is the oldest queued one. -/
theorem jobSafety (actions : List Action) :
    let system := run JobSystem.step initial actions
    (∀ action, Evolves system.jobs (JobSystem.step system action).jobs) ∧
    (∀ later, ∀ row ∈ system.jobs.job.rows, row.status ∈ TERMINAL_STATUSES →
      row ∈ (run JobSystem.step system later).jobs.job.rows) ∧
    (system.jobs.job.rows.map JobRow.idempotencyKey).Nodup ∧
    system.startedIds.Nodup ∧
    system.jobs.runningIds.length ≤ 1 ∧
    (∀ action, ((JobSystem.step system action).started = system.started ∧
        ∀ id ∈ (JobSystem.step system action).jobs.runningIds, id ∈ system.jobs.runningIds) ∨
      ∃ row command, Oldest system.jobs.job.rows row ∧
        (JobSystem.step system action).started = system.started ++ [(row.id, command)] ∧
        (JobSystem.step system action).jobs.runningIds = [row.id]) ∧
    (Onward system.jobs.job.rows → system.startedIds.Sublist (system.jobs.job.rows.map JobRow.id)) := by
  intro system
  have safe : system.Safe := safe_run actions safe_initial
  refine ⟨fun action => (advance_step safe.holds action).evolves, ?_, safe.keys, safe.once, safe.holds.bound,
    fun action => (advance_step safe.holds action).started, fun onward => (ordered_run actions onward).order⟩
  exact fun later row member terminal => terminal_run later safe member terminal

def sample (key : String) : SubmitJobInput := ⟨some "make".toList, some ['/'], some key.toList⟩

/-- Two jobs run one after the other, the first of them past a restart. -/
def sampleRun : List Action :=
  [.submit (sample "a") ['1'] 10, .submit (sample "b") ['2'] 10, .runNextJob false 11, .accepted, .restart,
    .runNextJob false 12, .recycled false false 13, .accepted, .event (.exit [] 0) 14, .ended 15]

theorem jobSafety_sample : (run JobSystem.step initial sampleRun).startedIds.Sublist
    ((run JobSystem.step initial sampleRun).jobs.job.rows.map JobRow.id) := by
  have safety := jobSafety sampleRun
  exact safety.2.2.2.2.2.2 (by decide +kernel)

/-- The clock steps back by five seconds between two submissions, so the second is claimed first. -/
theorem claimed_out_of_order : ¬∀ actions : List Action,
    (run JobSystem.step initial actions).startedIds.Sublist
      ((run JobSystem.step initial actions).jobs.job.rows.map JobRow.id) := by
  intro ordered
  have claims := ordered [.submit (sample "a") ['1'] 10, .submit (sample "b") ['2'] 5, .runNextJob false 11, .accepted,
    .event (.exit [] 0) 12, .ended 12, .scheduled, .runNextJob false 13]
  exact absurd claims (by decide +kernel)

end JobSystem

end AiryFS
