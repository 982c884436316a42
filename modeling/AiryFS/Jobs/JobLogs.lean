import AiryFS.Jobs.JobSafety

/-! What the log holds while a job runs: rows of started jobs, and of the running job the
sequence numbers below its next one. So no row that `runJob` appends is taken already.
-/

set_option autoImplicit false

namespace AiryFS

open Foundation

namespace Jobs

variable {jobs : Jobs}

theorem update_log {selected : JobRow → Bool} {change : JobRow → JobRow} {same : ∀ row, (change row).id = row.id} :
    (jobs.update selected change same).log = jobs.log := rfl

theorem submitJob_log {input : SubmitJobInput} {id : Text} {now : Int} {result : SubmitJobResult} {jobs' : Jobs}
    (done : jobs.submitJob input id now = .ok (result, jobs')) : jobs'.log = jobs.log := by
  rcases submitJob_cases done with same | ⟨command, cwd, key, -, -, -, log, -, -⟩
  · rw [same]
  · exact log

theorem recoverOrphans_log (now : Int) : (jobs.recoverOrphans now).2.log = jobs.log := by
  unfold recoverOrphans
  dsimp only
  induction jobs.job.rows.filter (fun row => row.status = .running) generalizing jobs with
  | nil => rfl
  | cons orphan orphans ih =>
    rw [List.foldl_cons, ih, update_log]

theorem claimNextJob_log (now : Int) : (jobs.claimNextJob now).2.log = jobs.log := by
  unfold claimNextJob
  split
  · rfl
  · rfl

theorem requestCancel_log {id : Text} {now : Int} {result : CancelResult} {jobs' : Jobs}
    (done : jobs.requestCancel id now = .ok (result, jobs')) : jobs'.log = jobs.log := by
  obtain ⟨row, -, done⟩ := bind_eq_ok.mp done
  split at done
  · rw [← (Prod.mk.inj (pure_eq_ok.mp done)).2, update_log]
  · rw [← (Prod.mk.inj (pure_eq_ok.mp done)).2]
    split
    · rfl
    · exact update_log
  · rw [← (Prod.mk.inj (pure_eq_ok.mp done)).2]

theorem finalizeJob_row {id : Text} {row : JobRow} (found : jobs.selectById id = some row) (outcome : Outcome) (now : Int) :
    (jobs.finalizeJob id outcome now).selectById id = some { row with
      status := outcome.status, exitCode := outcome.exitCode, error := outcome.error, outputBytes := outcome.outputBytes
      outputTruncated := if outcome.outputTruncated then 1 else 0, finishedAt := some now, updatedAt := now } := by
  rw [finalizeJob, update_selectById, found, Option.map_some, if_pos (decide_eq_true (jobs.job.find?_key found))]

theorem setExecId_row {id : Text} {row : JobRow} (found : jobs.selectById id = some row) (execId : Text) (now : Int) :
    (jobs.setExecId id execId now).selectById id = some { row with execId := some execId, updatedAt := now } := by
  rw [setExecId, update_selectById, found, Option.map_some, if_pos (decide_eq_true (jobs.job.find?_key found))]

theorem appendJobLog_ok {row : JobLogRow} (fresh : ∀ other ∈ jobs.log.rows, other.jobId = row.jobId → other.seq < row.seq) :
    ∃ jobs', jobs.appendJobLog row = .ok jobs' ∧ jobs'.job = jobs.job ∧ jobs'.log.rows = jobs.log.rows ++ [row] := by
  have absent : jobs.log.find? row.key = none := by
    apply jobs.log.find?_eq_none_iff.mpr
    intro other member same
    have earlier := fresh other member (Prod.mk.inj same).1
    rw [show other.seq = row.seq from (Prod.mk.inj same).2] at earlier
    exact absurd earlier (Nat.lt_irrefl _)
  obtain ⟨log, inserted⟩ := jobs.log.insert?_of_absent absent
  refine ⟨{ jobs with log }, ?_, rfl, (jobs.log.insert?_eq_some_iff.mp inserted).2⟩
  rw [appendJobLog, inserted]
  rfl

end Jobs

open Jobs

namespace JobSystem

/-- The job that the runner drives, with the sequence number of its next log row. -/
def Runs (system : JobSystem) (id : Text) (seq : Nat) : Prop :=
  match system.runner with
  | .starting job => job.id = id ∧ seq = 0
  | .reading run => run.job.id = id ∧ seq = run.seq
  | _ => False

structure Logged (system : JobSystem) : Prop where
  started : ∀ row ∈ system.jobs.log.rows, row.jobId ∈ system.startedIds
  driven : ∀ id seq, system.Runs id seq → id ∈ system.startedIds
  below : ∀ id seq, system.Runs id seq → ∀ row ∈ system.jobs.log.rows, row.jobId = id → row.seq < seq

variable {system : JobSystem}

theorem logged_initial : Logged initial where
  started := fun row member => by cases member
  driven := fun id seq runs => by cases runs
  below := fun id seq runs => by cases runs

/-- Where the log and what was started stay the same, and no other job is driven. -/
theorem Logged.of_same {system' : JobSystem} (logged : system.Logged) (log : system'.jobs.log = system.jobs.log)
    (started : system'.started = system.started) (runs : ∀ id seq, system'.Runs id seq → system.Runs id seq) :
    system'.Logged where
  started := fun row member => by
    rw [log] at member
    rw [startedIds, started]
    exact logged.started row member
  driven := fun id seq drives => by
    rw [startedIds, started]
    exact logged.driven id seq (runs id seq drives)
  below := fun id seq drives row member => by
    rw [log] at member
    exact logged.below id seq (runs id seq drives) row member

theorem runs_of_runner {system' : JobSystem} (same : system'.runner = system.runner) {id : Text} {seq : Nat}
    (runs : system'.Runs id seq) : system.Runs id seq := by
  unfold Runs at runs ⊢
  rwa [same] at runs

theorem logged_submit (logged : system.Logged) (input : SubmitJobInput) (id : Text) (now : Int) :
    (system.submit input id now).Logged := by
  unfold submit
  split
  · rename_i result jobs done
    exact logged.of_same (submitJob_log done) rfl fun id seq runs => runs_of_runner rfl runs
  · exact logged

theorem logged_cancel (logged : system.Logged) (id : Text) (now : Int) : (system.cancel id now).Logged := by
  unfold cancel
  split
  · rename_i result jobs done
    exact logged.of_same (requestCancel_log done) rfl fun id seq runs => runs_of_runner rfl runs
  · exact logged

/-- The claimed job was queued, so it has no log rows yet. -/
theorem logged_claimAndRun (logged : system.Logged) (safe : system.Safe) (idle : system.jobs.runningIds = [])
    (busy : Bool) (now : Int) : (system.claimAndRun busy now).Logged := by
  unfold claimAndRun
  split
  · exact logged.of_same rfl rfl fun id seq runs => by cases runs
  · cases found : system.jobs.oldestQueued with
    | none =>
      have nothing : system.jobs.claimNextJob now = (none, system.jobs) := by rw [Jobs.claimNextJob, found]
      rw [nothing]
      exact logged.of_same rfl rfl fun id seq runs => by cases runs
    | some row =>
      obtain ⟨claimed, jobs, claim, kept, named, running, -, -⟩ := claimNextJob_spec now idle found
      have log : jobs.log = system.jobs.log := by
        have kept := system.jobs.claimNextJob_log now
        rwa [claim] at kept
      have oldest := oldestQueued_spec found
      have fresh := safe.not_started (Oldest.mem oldest) oldest.queued
      rw [claim]
      unfold runJob
      dsimp only
      rw [named, kept]
      simp only [running, ne_eq, not_true_eq_false, if_false]
      constructor
      · intro other member
        rw [startedIds, List.map_append]
        rw [log] at member
        exact List.mem_append_left _ (logged.started other member)
      · rintro id seq ⟨same, -⟩
        rw [startedIds, List.map_append, ← same, named]
        exact List.mem_append_right _ (List.mem_singleton_self _)
      · rintro id seq ⟨same, -⟩ other member own
        rw [log] at member
        refine absurd (logged.started other member) ?_
        rwa [own, ← same, named]

theorem logged_finish (logged : system.Logged) (id : Text) (outcome : Outcome) (now : Int) :
    (system.finish id outcome now).Logged :=
  logged.of_same rfl rfl fun id seq runs => by cases runs

/-- What an output event leaves: at most one row more, and it is the run's next. -/
theorem handleOutput_cases (logged : system.Logged) {run : JobRun} (reading : system.runner = .reading run)
    (stream : JobStream) (data : Bytes) (now : Int) :
    (system.handleOutput run stream data now = system ∧ (data = [] ∨ run.truncated)) ∨
    (system.handleOutput run stream data now = { system with runner := .reading { run with truncated := true } } ∧
      ¬run.truncated ∧ data ≠ [] ∧ MAX_OUTPUT_BYTES - run.outputBytes = 0) ∨
    ∃ jobs, ¬run.truncated ∧ jobs.job = system.jobs.job ∧
      jobs.log.rows = system.jobs.log.rows ++ [{
        jobId := run.job.id, seq := run.seq, stream, data := data.take (MAX_OUTPUT_BYTES - run.outputBytes), timestamp := now }] ∧
      system.handleOutput run stream data now = { system with
        jobs
        runner := .reading { run with
          seq := run.seq + 1
          outputBytes := run.outputBytes + (data.take (MAX_OUTPUT_BYTES - run.outputBytes)).length
          truncated := decide (MAX_OUTPUT_BYTES - run.outputBytes < data.length) } } := by
  have driven : system.Runs run.job.id run.seq := by
    rw [Runs, reading]
    exact ⟨rfl, rfl⟩
  unfold handleOutput
  split
  · rename_i nothing
    exact .inl ⟨rfl, nothing⟩
  · rename_i some_
    obtain ⟨some_, open_⟩ := not_or.mp some_
    dsimp only
    split
    · rename_i nothing
      refine .inr (.inl ⟨?_, open_, some_, ?_⟩)
      · have full : MAX_OUTPUT_BYTES - run.outputBytes < data.length := by
          rcases List.take_eq_nil_iff.mp nothing with zero | none_
          · rw [zero]
            exact List.length_pos_iff.mpr some_
          · exact absurd none_ some_
        simp [full]
      · exact (List.take_eq_nil_iff.mp nothing).resolve_right some_
    · obtain ⟨jobs, appended, job, rows⟩ := @appendJobLog_ok system.jobs {
        jobId := run.job.id, seq := run.seq, stream, data := data.take (MAX_OUTPUT_BYTES - run.outputBytes), timestamp := now }
        (logged.below _ _ driven)
      rw [appended]
      exact .inr (.inr ⟨jobs, open_, job, rows, rfl⟩)

theorem logged_handleOutput (logged : system.Logged) {run : JobRun} (reading : system.runner = .reading run)
    (stream : JobStream) (data : Bytes) (now : Int) : (system.handleOutput run stream data now).Logged := by
  have driven : system.Runs run.job.id run.seq := by
    rw [Runs, reading]
    exact ⟨rfl, rfl⟩
  rcases handleOutput_cases logged reading stream data now with ⟨same, -⟩ | ⟨same, -⟩ | ⟨jobs, -, -, rows, same⟩
  · rwa [same]
  · rw [same]
    refine logged.of_same rfl rfl ?_
    rintro id seq ⟨rfl, rfl⟩
    exact driven
  · rw [same]
    constructor
    · intro row member
      change row ∈ jobs.log.rows at member
      rw [rows] at member
      rcases List.mem_append.mp member with earlier | last
      · exact logged.started row earlier
      · rw [List.mem_singleton.mp last]
        exact logged.driven _ _ driven
    · rintro id seq ⟨rfl, -⟩
      exact logged.driven _ _ driven
    · rintro id seq ⟨rfl, rfl⟩ row member own
      change row ∈ jobs.log.rows at member
      rw [rows] at member
      rcases List.mem_append.mp member with earlier | last
      · exact (logged.below _ _ driven row earlier own).trans (Nat.lt_succ_self _)
      · rw [List.mem_singleton.mp last]
        exact Nat.lt_succ_self _

theorem logged_step (logged : system.Logged) (safe : system.Safe) (action : Action) : (step system action).Logged := by
  have idle {system' : JobSystem} (log : system'.jobs.log = system.jobs.log) (started : system'.started = system.started)
      (stops : ∀ id seq, ¬system'.Runs id seq) : system'.Logged :=
    logged.of_same log started fun id seq runs => absurd runs (stops id seq)
  have holds := safe.holds
  unfold step
  split
  · exact logged_submit logged _ _ _
  · exact logged_cancel logged _ _
  · rename_i busy now
    unfold runNextJob
    split
    · by_cases none_ : system.jobs.runningIds = []
      · rw [recoverOrphans_of_none none_]
        exact logged_claimAndRun logged safe none_ busy now
      · have some_ : (system.jobs.recoverOrphans now).1 > 0 := by
          rw [recoverOrphans_count]
          exact List.length_pos_iff.mpr none_
        dsimp only
        rw [if_pos some_]
        exact idle (recoverOrphans_log now) rfl fun id seq runs => by cases runs
    · exact logged
  · rename_i failed busy now recycling
    have none_ : system.jobs.runningIds = [] := by rwa [Holds, recycling] at holds
    split
    · exact idle rfl rfl fun id seq runs => by cases runs
    · exact logged_claimAndRun logged safe none_ busy now
  · rename_i job starting
    refine logged.of_same rfl rfl ?_
    rintro id seq ⟨rfl, rfl⟩
    rw [Runs, starting]
    exact ⟨rfl, rfl⟩
  · exact logged_finish logged _ _ _
  · rename_i event now run reading
    cases event with
    | start id => exact logged.of_same rfl rfl fun id seq runs => runs_of_runner rfl runs
    | output stream id data => exact logged_handleOutput logged reading stream data now
    | exit id exitCode =>
      refine logged.of_same rfl rfl ?_
      rintro id seq ⟨rfl, rfl⟩
      rw [Runs, reading]
      exact ⟨rfl, rfl⟩
  · exact logged_finish logged _ _ _
  · exact logged_finish logged _ _ _
  · exact idle rfl rfl fun id seq runs => by cases runs
  · exact idle rfl rfl fun id seq runs => by cases runs
  · exact logged

theorem logged_run (actions : List Action) (safe : system.Safe) (logged : system.Logged) :
    (run step system actions).Logged := by
  induction actions generalizing system with
  | nil => exact logged
  | cons action actions ih => exact ih (safe.step action) (logged_step logged safe action)

end JobSystem

end AiryFS
