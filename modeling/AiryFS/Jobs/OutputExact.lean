import AiryFS.Jobs.OutputSafety

/-! When the rows that a job leaves depend on its stream alone.

They do where no line is refused, or where nothing that comes before the refused line has an
effect. Where they do, the log is the output up to its cap.
-/

set_option autoImplicit false

namespace AiryFS

open Foundation LineReader

namespace Jobs

def logsOf (jobs : Jobs) (id : Text) : List JobLogRow := jobs.log.rows.filter fun row => row.jobId = id

/-- The row and the log of a job. -/
def outcome (jobs : Jobs) (id : Text) : Option JobRow × List JobLogRow := (jobs.selectById id, logsOf jobs id)

/-- The log rows are numbered in order, and their data is that of the output up to the cap. -/
structure Kept (logs : List JobLogRow) (output : Bytes) : Prop where
  sequence : logs.map JobLogRow.seq = List.range logs.length
  data : (logs.map JobLogRow.data).flatten = output.take MAX_OUTPUT_BYTES

/-- What the events of a stream come to, up to the first that throws. -/
structure Effect where
  execId : Option Text
  output : Bytes
  exitCode : Option Int
  thrown : Option Failure
  deriving DecidableEq

namespace Effect

def nothing : Effect := ⟨none, [], none, none⟩

def after (effect : Effect) (reaction : Reaction) : Effect :=
  match effect.thrown, reaction with
  | some _, _ => effect
  | none, .event (.start id) => { effect with execId := some id }
  | none, .event (.output _ _ data) => { effect with output := effect.output ++ data }
  | none, .event (.exit _ exitCode) => { effect with exitCode := some exitCode }
  | none, .ignored => effect
  | none, .throws failure => { effect with thrown := some failure }

def from_ (platform : Platform) (effect : Effect) (values : List Json) : Effect :=
  values.foldl (fun effect value => effect.after (platform.reaction value)) effect

variable {platform : Platform} {effect : Effect} {reaction : Reaction}

theorem after_thrown {failure : Failure} (thrown : effect.thrown = some failure) : effect.after reaction = effect := by
  unfold after
  rw [thrown]

/-- An effect is not undone. -/
theorem nothing_of_after (same : effect.after reaction = nothing) : effect = nothing := by
  obtain ⟨execId, output, exitCode, thrown⟩ := effect
  cases thrown with
  | some failure =>
    rw [after_thrown rfl] at same
    exact same
  | none =>
    cases reaction with
    | event event =>
      cases event with
      | start id => simp [after, nothing] at same
      | output stream id data =>
        obtain ⟨rfl, nothing_, rfl⟩ : execId = none ∧ output ++ data = [] ∧ exitCode = none := by
          simpa [after, nothing] using same
        rw [(List.append_eq_nil_iff.mp nothing_).1]
        rfl
      | exit id code => simp [after, nothing] at same
    | ignored => exact same
    | throws failure => simp [after, nothing] at same

theorem nothing_of_from {values : List Json} (same : effect.from_ platform values = nothing) : effect = nothing := by
  induction values generalizing effect with
  | nil => exact same
  | cons value values ih => exact nothing_of_after (ih same)

end Effect

/-- What the events of a stream come to. -/
def Platform.effectOf (platform : Platform) (values : List Json) : Effect := Effect.nothing.from_ platform values

theorem Kept.empty : Kept [] [] := ⟨rfl, rfl⟩

theorem Kept.append {logs : List JobLogRow} {output data : Bytes} (kept : Kept logs output) {row : JobLogRow}
    (seq : row.seq = logs.length) (stored : row.data = data.take (MAX_OUTPUT_BYTES - output.length)) : Kept (logs ++ [row]) (output ++ data) where
  sequence := by
    rw [List.map_append, kept.sequence, List.length_append, List.map_singleton, seq, List.length_singleton, List.range_succ]
  data := by
    rw [List.map_append, List.flatten_append, kept.data, List.map_singleton, List.flatten_singleton, stored,
      List.take_append]

/-- Beyond the cap nothing more is kept. -/
theorem Kept.full {logs : List JobLogRow} {output : Bytes} (kept : Kept logs output)
    (full : MAX_OUTPUT_BYTES ≤ output.length) (data : Bytes) : Kept logs (output ++ data) where
  sequence := kept.sequence
  data := by rw [kept.data, List.take_append_of_le_length full]

theorem logsOf_append {jobs jobs' : Jobs} {row : JobLogRow} (rows : jobs'.log.rows = jobs.log.rows ++ [row]) :
    logsOf jobs' row.jobId = logsOf jobs row.jobId ++ [row] := by
  simp [logsOf, rows]

end Jobs

open Jobs

namespace JobSystem

/-- Where the stream is read, with the effect so far. -/
structure Reads (system : JobSystem) (run : JobRun) (effect : Effect) : Prop where
  runner : system.runner = .reading run
  row : ∃ row, system.jobs.selectById run.job.id = some row ∧ row.execId = effect.execId
  kept : Kept (logsOf system.jobs run.job.id) effect.output
  seq : run.seq = (logsOf system.jobs run.job.id).length
  outputBytes : run.outputBytes = min effect.output.length MAX_OUTPUT_BYTES
  truncated : run.truncated = decide (MAX_OUTPUT_BYTES < effect.output.length)
  exitCode : run.exitCode = effect.exitCode
  going : effect.thrown = none

/-- What the effect is in the row and the log of the job that has ended. -/
structure Records (system : JobSystem) (id : Text) (effect : Effect) (error : Option Text) : Prop where
  kept : Kept (logsOf system.jobs id) effect.output
  row : ∃ row, system.jobs.selectById id = some row ∧ row.execId = effect.execId ∧ row.exitCode = effect.exitCode ∧
    row.error = error ∧ row.outputBytes = min effect.output.length MAX_OUTPUT_BYTES ∧
    (row.outputTruncated ≠ 0 ↔ MAX_OUTPUT_BYTES < effect.output.length)

variable {system : JobSystem} {effect : Effect}

theorem Reads.output {run : JobRun} (reads : system.Reads run effect) (logged : system.Logged)
    (stream : JobStream) (data : Bytes) (now : Int) :
    ∃ run', run'.job = run.job ∧
      (system.handleOutput run stream data now).Reads run' { effect with output := effect.output ++ data } := by
  have count := reads.outputBytes
  have beyond := reads.truncated
  rcases handleOutput_cases logged reads.runner stream data now with
    ⟨same, nothing⟩ | ⟨same, open_, some_, full⟩ | ⟨jobs, open_, job, rows, same⟩
  · rw [same]
    refine ⟨run, rfl, ?_⟩
    rcases nothing with rfl | truncated
    · rw [List.append_nil]
      exact reads
    · rw [truncated] at beyond
      have past : MAX_OUTPUT_BYTES < effect.output.length := of_decide_eq_true beyond.symm
      refine ⟨reads.runner, reads.row, reads.kept.full (Nat.le_of_lt past) data, reads.seq, ?_, ?_, reads.exitCode,
        reads.going⟩
      · rw [count, List.length_append]
        omega
      · rw [truncated, List.length_append]
        exact (decide_eq_true (by omega)).symm
  · rw [same]
    have below : effect.output.length ≤ MAX_OUTPUT_BYTES := by
      rw [beyond, decide_eq_true_eq] at open_
      omega
    have more := List.length_pos_iff.mpr some_
    refine ⟨{ run with truncated := true }, rfl, rfl, reads.row, reads.kept.full (by omega) data, reads.seq, ?_, ?_,
      reads.exitCode, reads.going⟩
    · change run.outputBytes = _
      rw [List.length_append]
      omega
    · rw [List.length_append]
      exact (decide_eq_true (by omega)).symm
  · rw [same]
    have below : effect.output.length ≤ MAX_OUTPUT_BYTES := by
      rw [beyond, decide_eq_true_eq] at open_
      omega
    have whole : run.outputBytes = effect.output.length := by omega
    have logs := logsOf_append rows
    refine ⟨{ run with
      seq := run.seq + 1
      outputBytes := run.outputBytes + (data.take (MAX_OUTPUT_BYTES - run.outputBytes)).length
      truncated := decide (MAX_OUTPUT_BYTES - run.outputBytes < data.length) }, rfl, rfl, ?_, ?_, ?_, ?_, ?_,
      reads.exitCode, reads.going⟩
    · change ∃ row, jobs.selectById run.job.id = some row ∧ _
      rw [Jobs.selectById, job]
      exact reads.row
    · change Kept (logsOf jobs run.job.id) _
      rw [logs]
      exact reads.kept.append reads.seq (by rw [whole])
    · change run.seq + 1 = (logsOf jobs run.job.id).length
      rw [logs, List.length_append, reads.seq]
      rfl
    · change run.outputBytes + _ = _
      rw [List.length_take, List.length_append]
      omega
    · change decide _ = _
      rw [List.length_append]
      exact decide_eq_decide.mpr (by omega)

theorem Reads.finish {run : JobRun} (reads : system.Reads run effect) {outcome : Outcome}
    (bytes : outcome.outputBytes = run.outputBytes) (truncated : outcome.outputTruncated = run.truncated)
    (exitCode : outcome.exitCode = run.exitCode) (now : Int) :
    (system.finish run.job.id outcome now).Records run.job.id effect outcome.error where
  kept := reads.kept
  row := by
    obtain ⟨row, found, execId⟩ := reads.row
    refine ⟨_, finalizeJob_row found outcome now, execId, exitCode.trans reads.exitCode, rfl,
      bytes.trans reads.outputBytes, ?_⟩
    dsimp only
    rw [truncated, reads.truncated]
    by_cases beyond : MAX_OUTPUT_BYTES < effect.output.length
    · simp [beyond]
    · simp [beyond]

/-- Either the stream is still read, or an event has thrown. -/
def Progress (system : JobSystem) (id : Text) (effect : Effect) : Prop :=
  (∃ run, run.job.id = id ∧ system.Reads run effect) ∨
    ∃ failure, effect.thrown = some failure ∧ system.runner = .scheduling ∧
      system.Records id effect (some (conciseError failure))

variable {platform : Platform} {clock : Clock} {id : Text}

theorem step_scheduling (ended : system.runner = .scheduling) :
    (∀ event now, system.step (.event event now) = system) ∧ (∀ failure now, system.step (.broken failure now) = system) ∧
      ∀ now, system.step (.ended now) = system := by
  refine ⟨fun event now => ?_, fun failure now => ?_, fun now => ?_⟩
  · unfold step
    rw [ended]
  · unfold step
    rw [ended]
  · unfold step
    rw [ended]

theorem Reads.step_event {run : JobRun} (reads : system.Reads run effect) (event : ExecEvent) (now : Int) :
    system.step (.event event now) = system.handle run event now := by
  unfold step
  rw [reads.runner]

theorem Reads.step_broken {run : JobRun} (reads : system.Reads run effect) (failure : Failure) (now : Int) :
    system.step (.broken failure now) = system.fail run failure now := by
  unfold step
  rw [reads.runner]

/-- One event of the stream. -/
theorem Progress.step (progress : system.Progress id effect) (logged : system.Logged) (count : Nat) (value : Json) :
    (serve platform clock (count, system) value).2.Progress id (effect.after (platform.reaction value)) := by
  rcases progress with ⟨run, rfl, reads⟩ | ⟨failure, thrown, ended, records⟩
  · unfold serve Effect.after
    dsimp only
    rw [reads.going]
    cases platform.reaction value with
    | event event =>
      dsimp only
      rw [reads.step_event]
      cases event with
      | start id =>
        obtain ⟨row, found, -⟩ := reads.row
        refine .inl ⟨run, rfl, reads.runner, ?_, reads.kept, reads.seq, reads.outputBytes, reads.truncated,
          reads.exitCode, rfl⟩
        exact ⟨_, setExecId_row found id _, rfl⟩
      | output stream id data =>
        obtain ⟨run', same, reads'⟩ := reads.output logged stream data (clock.handled count)
        rw [reads.going] at reads'
        exact .inl ⟨run', congrArg JobRow.id same, reads'⟩
      | exit id exitCode =>
        exact .inl ⟨{ run with exitCode := some exitCode }, rfl, rfl, reads.row, reads.kept, reads.seq, reads.outputBytes,
          reads.truncated, rfl, rfl⟩
    | ignored => exact .inl ⟨run, rfl, reads⟩
    | throws failure =>
      dsimp only
      rw [reads.step_broken]
      have records : (system.fail run failure clock.finished).Records run.job.id effect (some (conciseError failure)) :=
        reads.finish rfl rfl rfl clock.finished
      exact .inr ⟨failure, rfl, rfl, records.kept, records.row⟩
  · have same : (serve platform clock (count, system) value).2 = system := by
      obtain ⟨event, broken, -⟩ := step_scheduling ended
      unfold serve
      cases platform.reaction value with
      | event event' => exact event _ _
      | ignored => rfl
      | throws failure => exact broken _ _
    rw [same, Effect.after_thrown thrown]
    exact .inr ⟨failure, thrown, ended, records⟩

theorem serve_safe (safe : system.Safe) (logged : system.Logged) (count : Nat) (value : Json) :
    (serve platform clock (count, system) value).2.Safe ∧ (serve platform clock (count, system) value).2.Logged := by
  unfold serve
  cases platform.reaction value with
  | event event => exact ⟨safe.step _, logged_step logged safe _⟩
  | ignored => exact ⟨safe, logged⟩
  | throws failure => exact ⟨safe.step _, logged_step logged safe _⟩

/-- All events of the stream. -/
theorem Progress.steps (progress : system.Progress id effect) (safe : system.Safe) (logged : system.Logged)
    (values : List Json) (count : Nat) :
    (values.foldl (serve platform clock) (count, system)).2.Progress id (effect.from_ platform values) := by
  induction values generalizing system effect count with
  | nil => exact progress
  | cons value values ih =>
    obtain ⟨safe', logged'⟩ : (serve platform clock (count, system) value).2.Safe ∧
        (serve platform clock (count, system) value).2.Logged := serve_safe safe logged count value
    exact ih (progress.step logged count value) safe' logged' (count + 1)

/-- The end of the loop by an error: the first one is recorded. -/
theorem Progress.broken (progress : system.Progress id effect) (failure : Failure) (now : Int) :
    (system.step (.broken failure now)).Records id effect (some (conciseError (effect.thrown.getD failure))) := by
  rcases progress with ⟨run, rfl, reads⟩ | ⟨earlier, thrown, ended, records⟩
  · rw [reads.step_broken, reads.going]
    exact reads.finish rfl rfl rfl now
  · rw [(step_scheduling ended).2.1, thrown]
    exact records

theorem Progress.ended (progress : system.Progress id effect) (now : Int) :
    ∃ error, (system.step (.ended now)).Records id effect error := by
  rcases progress with ⟨run, rfl, reads⟩ | ⟨earlier, thrown, ended, records⟩
  · unfold JobSystem.step
    rw [reads.runner]
    exact ⟨_, reads.finish rfl rfl rfl now⟩
  · rw [(step_scheduling ended).2.2]
    exact ⟨_, records⟩

/-! ## The start of a run -/

/-- A job has no process before `execStream` accepts it. -/
structure Unlaunched (system : JobSystem) : Prop where
  queued : ∀ row ∈ system.jobs.job.rows, row.status = .queued → row.execId = none
  starting : ∀ job, system.runner = .starting job → ∀ row ∈ system.jobs.job.rows, row.id = job.id → row.execId = none

/-- Every row keeps its process, or has none. -/
def Retains (jobs jobs' : Jobs) : Prop :=
  ∀ row' ∈ jobs'.job.rows, row'.execId = none ∨
    ∃ row ∈ jobs.job.rows, row.id = row'.id ∧ row.execId = row'.execId ∧ (row'.status = .queued → row.status = .queued)

theorem Retains.refl (jobs : Jobs) : Retains jobs jobs := fun row member => .inr ⟨row, member, rfl, rfl, id⟩

theorem retains_update {jobs : Jobs} {selected : JobRow → Bool} {change : JobRow → JobRow}
    {same : ∀ row, (change row).id = row.id} (execId : ∀ row, (change row).execId = row.execId)
    (status : ∀ row, (change row).status = .queued → row.status = .queued) :
    Retains jobs (jobs.update selected change same) := by
  intro row' member
  obtain ⟨row, listed, rfl⟩ := List.mem_map.mp member
  refine .inr ⟨row, listed, (update_id same row).symm, ?_⟩
  split
  · exact ⟨(execId row).symm, status row⟩
  · exact ⟨rfl, id⟩

theorem Unlaunched.of_retains {system' : JobSystem} (unlaunched : system.Unlaunched)
    (retains : Retains system.jobs system'.jobs) (runner : ∀ job, system'.runner = .starting job → system.runner = .starting job) :
    system'.Unlaunched where
  queued := by
    intro row' member queued
    rcases retains row' member with none_ | ⟨row, listed, -, same, left⟩
    · exact none_
    · rw [← same]
      exact unlaunched.queued row listed (left queued)
  starting := by
    intro job starts row' member own
    rcases retains row' member with none_ | ⟨row, listed, named, same, -⟩
    · exact none_
    · rw [← same]
      exact unlaunched.starting job (runner job starts) row listed (named.trans own)

theorem retains_recoverOrphans (jobs : Jobs) (now : Int) : Retains jobs (jobs.recoverOrphans now).2 := by
  intro row' member
  rw [recoverOrphans_rows] at member
  obtain ⟨row, listed, rfl⟩ := List.mem_map.mp member
  refine .inr ⟨row, listed, ?_⟩
  split
  · exact ⟨rfl, rfl, fun queued => by cases queued⟩
  · exact ⟨rfl, rfl, id⟩

theorem retains_claimNextJob (jobs : Jobs) (now : Int) : Retains jobs (jobs.claimNextJob now).2 := by
  unfold Jobs.claimNextJob
  split
  · exact .refl _
  · dsimp only
    apply retains_update
    · exact fun _ => rfl
    · exact fun row queued => by cases queued

theorem retains_finalizeJob (jobs : Jobs) (id : Text) (outcome : Outcome) (now : Int) :
    Retains jobs (jobs.finalizeJob id outcome now) := by
  unfold finalizeJob
  apply retains_update
  · exact fun _ => rfl
  · intro row queued
    have terminal := outcome.terminal
    rw [show outcome.status = .queued from queued] at terminal
    exact absurd terminal (by decide)

theorem retains_requestCancel {jobs jobs' : Jobs} {id : Text} {now : Int} {result : CancelResult}
    (done : jobs.requestCancel id now = .ok (result, jobs')) : Retains jobs jobs' := by
  obtain ⟨row, -, done⟩ := bind_eq_ok.mp done
  split at done
  · rw [← (Prod.mk.inj (pure_eq_ok.mp done)).2]
    apply retains_update
    · exact fun _ => rfl
    · exact fun row queued => by cases queued
  · rw [← (Prod.mk.inj (pure_eq_ok.mp done)).2]
    split
    · exact .refl _
    · apply retains_update
      · exact fun _ => rfl
      · exact fun row queued => queued
  · rw [← (Prod.mk.inj (pure_eq_ok.mp done)).2]
    exact .refl _

theorem unlaunched_claimAndRun (unlaunched : system.Unlaunched) (idle : system.jobs.runningIds = []) (busy : Bool) (now : Int) :
    (system.claimAndRun busy now).Unlaunched := by
  unfold claimAndRun
  split
  · exact unlaunched.of_retains (.refl _) fun job starts => by cases starts
  · cases found : system.jobs.oldestQueued with
    | none =>
      have nothing : system.jobs.claimNextJob now = (none, system.jobs) := by rw [Jobs.claimNextJob, found]
      rw [nothing]
      exact unlaunched.of_retains (.refl _) fun job starts => by cases starts
    | some row =>
      obtain ⟨claimed, jobs, claim, kept, named, running, -, -⟩ := claimNextJob_spec now idle found
      have retains : Retains system.jobs jobs := by
        have whole : (system.jobs.claimNextJob now).2 = jobs := congrArg Prod.snd claim
        rw [← whole]
        exact retains_claimNextJob _ now
      rw [claim]
      unfold runJob
      dsimp only
      rw [named, kept]
      simp only [running, ne_eq, not_true_eq_false, if_false]
      have before : ({ system with jobs, runner := .idle } : JobSystem).Unlaunched :=
        unlaunched.of_retains retains fun job starts => by cases starts
      refine ⟨before.queued, ?_⟩
      intro job starts other member own
      obtain rfl := Runner.starting.inj starts
      -- The claimed row was queued just before.
      have oldest := oldestQueued_spec found
      rcases retains other member with none_ | ⟨old, listed, same, execId, -⟩
      · exact none_
      · rw [← execId]
        have equal := system.jobs.job.eq_of_key listed (Oldest.mem oldest) (same.trans (own.trans named))
        rw [equal]
        exact unlaunched.queued row (Oldest.mem oldest) oldest.queued

theorem unlaunched_step (unlaunched : system.Unlaunched) (safe : system.Safe) (logged : system.Logged) (action : Action) :
    (step system action).Unlaunched := by
  have holds := safe.holds
  have same : system.Unlaunched := unlaunched
  have finish (id : Text) (outcome : Outcome) (now : Int) : (system.finish id outcome now).Unlaunched := by
    exact unlaunched.of_retains (retains_finalizeJob _ id outcome now) fun job starts => by cases starts
  have stops {jobs : Jobs} {runner : Runner} (other : ∀ job, runner ≠ .starting job) (retains : Retains system.jobs jobs) :
      ({ system with jobs, runner } : JobSystem).Unlaunched :=
    unlaunched.of_retains retains fun job starts => absurd starts (other job)
  unfold step
  split
  · unfold submit
    split
    · rename_i input id now result jobs done
      refine unlaunched.of_retains ?_ fun job starts => starts
      rcases submitJob_cases done with kept | ⟨command, cwd, key, -, -, -, -, rows, -⟩
      · rw [kept]
        exact .refl _
      · intro row' member
        change row' ∈ jobs.job.rows at member
        rw [rows] at member
        rcases List.mem_append.mp member with earlier | last
        · exact .inr ⟨row', earlier, rfl, rfl, fun queued => queued⟩
        · rw [List.mem_singleton.mp last]
          exact .inl rfl
    · exact same
  · unfold cancel
    split
    · rename_i done
      exact unlaunched.of_retains (retains_requestCancel done) fun job starts => starts
    · exact same
  · rename_i busy now
    unfold runNextJob
    split
    · by_cases none_ : system.jobs.runningIds = []
      · rw [recoverOrphans_of_none none_]
        exact unlaunched_claimAndRun unlaunched none_ busy now
      · have some_ : (system.jobs.recoverOrphans now).1 > 0 := by
          rw [recoverOrphans_count]
          exact List.length_pos_iff.mpr none_
        dsimp only
        rw [if_pos some_]
        exact stops (fun job starts => by cases starts) (retains_recoverOrphans _ now)
    · exact same
  · rename_i failed busy now recycling
    have none_ : system.jobs.runningIds = [] := by rwa [Holds, recycling] at holds
    split
    · exact stops (fun job starts => by cases starts) (.refl _)
    · exact unlaunched_claimAndRun unlaunched none_ busy now
  · exact stops (fun job starts => by cases starts) (.refl _)
  · exact finish _ _ _
  · rename_i event now run reading
    have reads (job : JobRow) : system.runner ≠ .starting job := by simp [reading]
    cases event with
    | start execId =>
      -- The row is of the running job, so it is not queued.
      refine ⟨?_, fun job starts => absurd starts (reads job)⟩
      intro row' member queued
      obtain ⟨row, listed, rfl⟩ := List.mem_map.mp member
      rw [Holds, reading] at holds
      by_cases own : row.id = run.job.id
      · have running := running_of_id holds listed own
        simp [own, running] at queued
      · simp only [own, decide_false, Bool.false_eq_true, if_false] at queued ⊢
        exact unlaunched.queued row listed queued
    | output stream id data =>
      rcases handleOutput_cases logged reading stream data now with ⟨kept, -⟩ | ⟨kept, -⟩ | ⟨jobs, -, job, -, kept⟩
      · exact (congrArg JobSystem.Unlaunched kept).mpr same
      · exact (congrArg JobSystem.Unlaunched kept).mpr (stops (fun job starts => by cases starts) (.refl _))
      · refine (congrArg JobSystem.Unlaunched kept).mpr (stops (fun job starts => by cases starts) ?_)
        intro row member
        rw [job] at member
        exact .inr ⟨row, member, rfl, rfl, fun queued => queued⟩
    | exit id exitCode => exact stops (fun job starts => by cases starts) (.refl _)
  · exact finish _ _ _
  · exact finish _ _ _
  · exact stops (fun job starts => by cases starts) (.refl _)
  · exact stops (fun job starts => by cases starts) (.refl _)
  · exact same

theorem unlaunched_run (actions : List Action) : (run step initial actions).Unlaunched := by
  induction actions using List.reverseRecOn with
  | nil =>
    constructor
    · intro row member
      cases member
    · intro job starts
      cases starts
  | append_singleton actions action ih =>
    rw [run_concat]
    exact unlaunched_step ih (safe_run actions safe_initial) (logged_run actions safe_initial logged_initial) action

theorem step_accepted {job : JobRow} (starting : system.runner = .starting job) :
    system.step .accepted = { system with runner := .reading (newRun job) } := by
  unfold step
  rw [starting]

/-- When `execStream` is accepted, nothing of the job has been recorded. -/
theorem reads_accepted {actions : List Action} {job : JobRow} (starting : (run step initial actions).runner = .starting job) :
    ((run step initial actions).step .accepted).Reads (newRun job) .nothing := by
  have safe := safe_run actions safe_initial
  have logged := logged_run actions safe_initial logged_initial
  have unlaunched := unlaunched_run actions
  have driven : (run step initial actions).Runs job.id 0 := by
    rw [Runs, starting]
    exact ⟨rfl, rfl⟩
  have logs : logsOf (run step initial actions).jobs job.id = [] := by
    rw [logsOf, List.filter_eq_nil_iff]
    intro row member own
    exact absurd (logged.below _ _ driven row member (of_decide_eq_true own)) (Nat.not_lt_zero _)
  have holds := safe.holds
  rw [Holds, starting] at holds
  obtain ⟨row, member, -, named⟩ := mem_runningIds.mp (show job.id ∈ (run step initial actions).jobs.runningIds by simp [holds])
  have found := (run step initial actions).jobs.job.find?_of_mem member
  rw [named] at found
  rw [step_accepted starting]
  refine ⟨rfl, ⟨row, found, unlaunched.starting job starting row member named⟩, ?_, ?_, rfl, rfl, rfl, rfl⟩
  · change Kept (logsOf (run step initial actions).jobs job.id) []
    rw [logs]
    exact .empty
  · change 0 = (logsOf (run step initial actions).jobs job.id).length
    rw [logs]
    rfl

/-! ## Streams -/

theorem sliceUnits_plain {mark : Text} (plain : ∀ c ∈ mark, c.toNat ≤ 0xFFFF) (count : Nat) (text : Text) :
    sliceUnits (mark.length + count) (mark ++ text) = mark ++ sliceUnits count text := by
  induction mark with
  | nil => simp
  | cons c mark ih =>
    have small := Nat.not_lt.mpr (plain c List.mem_cons_self)
    have rest := ih fun c member => plain c (List.mem_cons_of_mem _ member)
    rw [List.length_cons, List.cons_append, List.cons_append, ← rest]
    generalize mark ++ text = others
    cases total : mark.length + count with
    | zero =>
      rw [show mark.length + 1 + count = 1 by omega]
      cases others with
      | nil => simp [sliceUnits, small]
      | cons other others => simp [sliceUnits, small]
    | succ more =>
      rw [show mark.length + 1 + count = more + 2 by omega, sliceUnits, if_neg small]

/-- What a message begins with, its concise form begins with. -/
theorem concise_begins {mark text : Text} {message : String} (spelled : message.toList = mark ++ text)
    (plain : mark.all fun c => c.toNat ≤ 0xFFFF) (short : mark.length ≤ 497) : mark <+: conciseError (.error message) := by
  unfold conciseError
  change mark <+: if utf16Length message.toList > 500 then sliceUnits 497 message.toList ++ "...".toList else message.toList
  rw [spelled]
  split
  · obtain ⟨count, total⟩ := Nat.exists_eq_add_of_le short
    rw [total, sliceUnits_plain (by simpa using plain), List.append_assoc]
    exact List.prefix_append _ _
  · exact List.prefix_append _ _

theorem own_of_refused {stream : Bytes} {failure : Failure} (refused : (inspected stream).2 = some failure) : Own failure := by
  obtain ⟨line, reads⟩ := read_of_refused bounding refused
  unfold readLine at reads
  cases bounded : bound line with
  | error early =>
    rw [bounded] at reads
    obtain rfl := Except.error.inj reads
    unfold bound refuse at bounded
    split at bounded
    · obtain rfl := Except.error.inj bounded
      have spelled : (s!"NDJSON line exceeds {DEFAULT_MAX_LINE_BYTES} bytes").toList =
          "NDJSON line exceeds ".toList ++ "4194304 bytes".toList := by decide +kernel
      exact .inl (concise_begins spelled (by decide) (by decide))
    · cases bounded
  | ok _ =>
    rw [bounded, ok_bind] at reads
    unfold parse at reads
    split at reads
    · cases reads
    · split at reads
      · obtain rfl := Except.error.inj reads
        exact .inr (concise_begins String.toList_ofList (by decide) (by decide))
      · cases reads

theorem outside_of_throws {value : Json} {failure : Failure} (throws : platform.reaction value = .throws failure) :
    platform.outside value = .throws failure := by
  unfold Platform.reaction at throws
  dsimp only at throws
  split at throws
  · cases id : textOf (Cursor.get (some value) "id") with
    | none =>
      rw [id] at throws
      exact throws
    | some id' =>
      rw [id] at throws
      cases throws
  · split at throws
    · cases data : textOf (Cursor.get (some value) "data") with
      | none =>
        rw [data] at throws
        exact throws
      | some data' =>
        rw [data] at throws
        cases throws
    · split at throws
      · cases code : integerOf (Cursor.get (some value) "exitCode") with
        | none =>
          rw [code] at throws
          exact throws
        | some code' =>
          rw [code] at throws
          cases throws
      · cases throws

theorem outside_of_thrown {effect : Effect} {values : List Json} {failure : Failure} (going : effect.thrown = none)
    (thrown : (effect.from_ platform values).thrown = some failure) : ∃ value, platform.outside value = .throws failure := by
  induction values generalizing effect with
  | nil =>
    change effect.thrown = some failure at thrown
    rw [going] at thrown
    cases thrown
  | cons value values ih =>
    change ((effect.after (platform.reaction value)).from_ platform values).thrown = some failure at thrown
    cases late : (effect.after (platform.reaction value)).thrown with
    | none => exact ih late thrown
    | some early =>
      -- The first failure stays, and only the platform throws.
      have kept : (effect.after (platform.reaction value)).from_ platform values = effect.after (platform.reaction value) := by
        clear thrown ih
        induction values with
        | nil => rfl
        | cons next values ih =>
          rw [Effect.from_, List.foldl_cons, Effect.after_thrown late]
          exact ih
      rw [kept, late] at thrown
      obtain rfl := Option.some.inj thrown
      refine ⟨value, outside_of_throws ?_⟩
      unfold Effect.after at late
      rw [going] at late
      cases reaction : platform.reaction value with
      | event event =>
        rw [reaction] at late
        cases event with
        | start id => cases late
        | output stream id data => cases late
        | exit id exitCode => cases late
      | ignored =>
        rw [reaction] at late
        cases going.symm.trans late
      | throws failure =>
        rw [reaction] at late
        obtain rfl := Option.some.inj late
        rfl

/-- An event that has no effect leaves everything as it is. -/
theorem Reads.unmoved {run : JobRun} (reads : system.Reads run .nothing) {values : List Json}
    (unmoved : Effect.nothing.from_ platform values = .nothing) (count : Nat) :
    (values.foldl (serve platform clock) (count, system)).2 = system := by
  induction values generalizing count with
  | nil => rfl
  | cons value values ih =>
    have first : Effect.nothing.after (platform.reaction value) = .nothing := Effect.nothing_of_from unmoved
    have later : Effect.nothing.from_ platform values = .nothing := by
      rwa [Effect.from_, List.foldl_cons, first] at unmoved
    have same : (serve platform clock (count, system) value).2 = system := by
      unfold serve
      dsimp only
      cases reaction : platform.reaction value with
      | event event =>
        rw [reaction] at first
        dsimp only
        rw [reads.step_event]
        cases event with
        | start id => cases first
        | output stream id data =>
          have empty : data = [] := congrArg Effect.output first
          exact if_pos (.inl empty)
        | exit id exitCode => cases first
      | ignored => rfl
      | throws failure =>
        rw [reaction] at first
        cases first
    rw [List.foldl_cons]
    exact (congrArg (fun state => (values.foldl (serve platform clock) (count + 1, state)).2) same).trans (ih later _)

/-! ## The law -/

/-- The events of a stream, the last line included where it is read. -/
def eventsOf (stream : Bytes) : List Json :=
  match (inspected stream).2, (lastDecoder stream).flush with
  | none, .ok events => (inspected stream).1 ++ events
  | _, _ => (inspected stream).1

/-- The rows of the job do not depend on the cut, and its log is the output up to the cap. -/
structure Exact (platform : Platform) (clock : Clock) (system : JobSystem) (id : Text) (stream : Bytes) : Prop where
  same : ∀ chunks chunks' : List Bytes, chunks.flatten = stream → chunks'.flatten = stream →
    outcome (readStream platform clock .fresh chunks (0, system)).jobs id =
      outcome (readStream platform clock .fresh chunks' (0, system)).jobs id
  capped : ∀ chunks : List Bytes, chunks.flatten = stream →
    ∃ row, (readStream platform clock .fresh chunks (0, system)).jobs.selectById id = some row ∧
      Kept (logsOf (readStream platform clock .fresh chunks (0, system)).jobs id)
        (platform.effectOf (eventsOf stream)).output ∧
      (row.outputTruncated ≠ 0 ↔ MAX_OUTPUT_BYTES < (platform.effectOf (eventsOf stream)).output.length)

/-- No line is refused before the end of the stream, or nothing before it has an effect. -/
def Settled (platform : Platform) (stream : Bytes) : Prop :=
  (inspected stream).2 = none ∨ platform.effectOf (inspected stream).1 = .nothing

theorem Records.capped {error : Option Text} (records : system.Records id effect error) :
    ∃ row, system.jobs.selectById id = some row ∧ Kept (logsOf system.jobs id) effect.output ∧
      (row.outputTruncated ≠ 0 ↔ MAX_OUTPUT_BYTES < effect.output.length) := by
  obtain ⟨row, found, -, -, -, -, truncated⟩ := records.row
  exact ⟨row, found, records.kept, truncated⟩

variable {run : JobRun} {stream : Bytes}

theorem atEnd_records (reads : system.Reads run .nothing) (safe : system.Safe) (logged : system.Logged)
    (fine : (inspected stream).2 = none) :
    ∃ error, (atEnd platform clock (lastDecoder stream)
      ((inspected stream).1.foldl (serve platform clock) (0, system))).Records run.job.id
        (platform.effectOf (eventsOf stream)) error := by
  have start : system.Progress run.job.id .nothing := .inl ⟨run, rfl, reads⟩
  unfold atEnd eventsOf
  rw [fine]
  cases flushed : (lastDecoder stream).flush with
  | error failure => exact ⟨_, (start.steps safe logged _ 0).broken failure _⟩
  | ok events =>
    dsimp only
    rw [← List.foldl_append]
    exact (start.steps safe logged _ 0).ended _

theorem exact_of_settled (reads : system.Reads run .nothing) (safe : system.Safe) (logged : system.Logged)
    (settled : Settled platform stream) : Exact platform clock system run.job.id stream := by
  cases late : (inspected stream).2 with
  | none =>
    constructor
    · intro chunks chunks' cut cut'
      rw [readStream_fine late cut, readStream_fine late cut']
    · intro chunks cut
      obtain ⟨error, records⟩ := atEnd_records reads safe logged late
      rw [readStream_fine late cut]
      exact records.capped
  | some failure =>
    rcases settled with fine | unmoved
    · rw [fine] at late
      cases late
    · have reached (chunks : List Bytes) (cut : chunks.flatten = stream) :
          readStream platform clock .fresh chunks (0, system) = system.step (.broken failure clock.finished) := by
        obtain ⟨served, rest, split, state, -⟩ := readStream_refused late cut (0, system)
        rw [split] at unmoved
        have still : Effect.nothing.from_ platform served = .nothing := by
          unfold Platform.effectOf Effect.from_ at unmoved
          rw [List.foldl_append] at unmoved
          exact Effect.nothing_of_from unmoved
        rw [state, reads.unmoved still]
      constructor
      · intro chunks chunks' cut cut'
        rw [reached chunks cut, reached chunks' cut']
      · intro chunks cut
        have start : system.Progress run.job.id .nothing := .inl ⟨run, rfl, reads⟩
        have events : eventsOf stream = (inspected stream).1 := by
          unfold eventsOf
          rw [late]
        rw [reached chunks cut, events, unmoved]
        exact (start.broken failure _).capped

theorem settled_of_exact (reads : system.Reads run .nothing) (safe : system.Safe) (logged : system.Logged)
    (exact_ : Exact platform clock system run.job.id stream) : Settled platform stream := by
  cases late : (inspected stream).2 with
  | none => exact .inl late
  | some failure =>
    have start : system.Progress run.job.id .nothing := .inl ⟨run, rfl, reads⟩
    have single : (stream.map fun byte => [byte]).flatten = stream := by simp [← List.flatMap_def]
    -- One chunk loses every event, and chunks of one byte lose none.
    obtain ⟨served, rest, split, state, bytes⟩ :=
      @readStream_refused platform clock stream failure late _ single (0, system)
    have whole : served = (inspected stream).1 := by
      have nothing : rest = [] := by
        apply bytes
        intro chunk member
        obtain ⟨byte, -, rfl⟩ := List.mem_map.mp member
        rfl
      rw [split, nothing, List.append_nil]
    have lost := start.broken failure clock.finished
    have progress : (served.foldl (serve platform clock) (0, system)).2.Progress run.job.id
        (Effect.nothing.from_ platform served) := start.steps safe logged served 0
    have kept := progress.broken failure clock.finished
    have same := exact_.same [stream] _ (by simp) single
    rw [readStream_whole late, state] at same
    obtain ⟨rows, logs⟩ := Prod.mk.inj same
    obtain ⟨row, found, execId, exitCode, error, -⟩ := lost.row
    obtain ⟨row', found', execId', exitCode', error', -⟩ := kept.row
    rw [found, found'] at rows
    obtain rfl := Option.some.inj rows
    right
    unfold Platform.effectOf
    rw [← whole]
    cases effect : Effect.nothing.from_ platform served with
    | mk execId'' output exitCode'' thrown =>
      rw [effect] at execId' exitCode' error' kept
      have silent : output = [] := by
        have data := kept.kept.data
        rw [← logs, lost.kept.data] at data
        rcases List.take_eq_nil_iff.mp data.symm with zero | empty
        · exact absurd zero (by decide)
        · exact empty
      have unthrown : thrown = none := by
        cases thrown with
        | none => rfl
        | some early =>
          obtain ⟨value, outside⟩ := outside_of_thrown rfl (congrArg Effect.thrown effect)
          have concise : conciseError early = conciseError failure := Option.some.inj (error'.symm.trans error)
          have own := own_of_refused late
          unfold Own at own
          rw [← concise] at own
          exact absurd own (platform.foreign value early outside)
      have first : execId'' = none := execId'.symm.trans execId
      have last : exitCode'' = none := exitCode'.symm.trans exitCode
      rw [silent, unthrown, first, last]
      rfl

/-- The rows that a job leaves are the same for every cut of its stream, and its log the output up
to the cap, if and only if no line is refused before the end or nothing before it has an effect. -/
theorem output_exact_iff (platform : Platform) (clock : Clock) (actions : List Action) (job : JobRow)
    (starting : (Foundation.run step initial actions).runner = .starting job) (stream : Bytes) :
    Exact platform clock ((Foundation.run step initial actions).step .accepted) job.id stream ↔ Settled platform stream := by
  have reads := reads_accepted starting
  have safe := (safe_run actions safe_initial).step .accepted
  have logged := logged_step (logged_run actions safe_initial logged_initial) (safe_run actions safe_initial) .accepted
  exact ⟨settled_of_exact reads safe logged, exact_of_settled reads safe logged⟩

/-- A platform on which events outside the contract come to nothing. -/
def samplePlatform : Platform where
  bufferFrom := fun text => (Hrana.atob text).getD []
  outside := fun _ => .ignored
  foreign := fun value failure thrown => by cases thrown

def sampleClock : Clock := ⟨fun count => 12 + count, 20⟩

def sampleStart : List Action := [.submit (sample "a") ['1'] 10, .runNextJob false 11]

def sampleJob : JobRow := { queuedRow ['1'] ['a'] "make".toList ['/'] 10 with status := .running, startedAt := some 11, updatedAt := 11 }

def sampleLine : Bytes := Utf8.encode "\x7b\"type\":\"stdout\",\"id\":\"x\",\"data\":\"aGk=\"\x7d\n".toList

theorem output_exact_sample :
    Exact samplePlatform sampleClock ((Foundation.run step initial sampleStart).step .accepted) sampleJob.id sampleLine :=
  (output_exact_iff samplePlatform sampleClock sampleStart sampleJob (by decide +kernel) sampleLine).mpr
    (.inl (by decide +kernel))

/-- A line of output and a malformed line: in one chunk the output is lost. -/
theorem output_lost : ¬∀ (platform : Platform) (clock : Clock) (actions : List Action) (job : JobRow),
    (Foundation.run step initial actions).runner = .starting job → ∀ stream,
      Exact platform clock ((Foundation.run step initial actions).step .accepted) job.id stream := by
  intro exact_
  have same := (exact_ samplePlatform sampleClock sampleStart sampleJob (by decide +kernel)
    (sampleLine ++ Utf8.encode ['{', '\n'])).same [sampleLine ++ Utf8.encode ['{', '\n']]
      [sampleLine, Utf8.encode ['{', '\n']] (by simp) (by simp)
  have logs := congrArg (fun rows => rows.2.length) same
  revert logs
  decide +kernel

end JobSystem

end AiryFS
