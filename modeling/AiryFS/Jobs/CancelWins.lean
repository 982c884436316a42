import AiryFS.Jobs.JobLogs

/-! Which cancellations of a running job win. The normal end of `runJob` looks at the request; its
two `catch` blocks and the recovery after a restart do not.
-/

set_option autoImplicit false

namespace AiryFS

open Foundation

namespace Jobs

/-- The job is canceled, or runs with the request on it. -/
def Wins (id : Text) (jobs : Jobs) : Prop :=
  ∃ row, jobs.selectById id = some row ∧
    (row.status = .canceled ∨ row.status = .running ∧ row.cancelRequested ≠ 0)

def Running (id : Text) (jobs : Jobs) : Prop := ∃ row, jobs.selectById id = some row ∧ row.status = .running

instance (id : Text) (jobs : Jobs) : Decidable (Running id jobs) :=
  decidable_of_iff ((jobs.selectById id).any fun row => row.status = .running) (by simp [Running, Option.any_eq_true])

variable {id : Text} {jobs : Jobs}

theorem running_iff : Running id jobs ↔ id ∈ jobs.runningIds := by
  rw [mem_runningIds]
  constructor
  · rintro ⟨row, found, running⟩
    exact ⟨row, jobs.job.find?_mem found, running, jobs.job.find?_key found⟩
  · rintro ⟨row, member, running, rfl⟩
    exact ⟨row, jobs.job.find?_of_mem member, running⟩

theorem Wins.of_job {jobs' : Jobs} (same : jobs'.job = jobs.job) (wins : Wins id jobs) : Wins id jobs' := by
  obtain ⟨row, found, status⟩ := wins
  refine ⟨row, ?_, status⟩
  rwa [selectById, same]

/-- A statement leaves the job asked or canceled when it does so to a row that it selects. -/
theorem Wins.update {selected : JobRow → Bool} {change : JobRow → JobRow} (wins : Wins id jobs)
    (same : ∀ row, (change row).id = row.id) (kept : ∀ row ∈ jobs.job.rows, row.id = id → selected row →
      row.status = .canceled ∨ row.status = .running ∧ row.cancelRequested ≠ 0 →
      (change row).status = .canceled ∨ (change row).status = .running ∧ (change row).cancelRequested ≠ 0) :
    Wins id (jobs.update selected change same) := by
  obtain ⟨row, found, status⟩ := wins
  refine ⟨if selected row then change row else row, ?_, ?_⟩
  · rw [update_selectById, found]
    rfl
  · split
    · rename_i chosen
      exact kept row (jobs.job.find?_mem found) (jobs.job.find?_key found) chosen status
    · exact status

theorem Wins.not_running (wins : Wins id jobs) (ended : ¬Running id jobs) :
    ∃ row, jobs.selectById id = some row ∧ row.status = .canceled := by
  obtain ⟨row, found, canceled | ⟨running, -⟩⟩ := wins
  · exact ⟨row, found, canceled⟩
  · exact absurd ⟨row, found, running⟩ ended

theorem Wins.submitJob {input : SubmitJobInput} {fresh : Text} {now : Int} {result : SubmitJobResult} {jobs' : Jobs}
    (wins : Wins id jobs) (done : jobs.submitJob input fresh now = .ok (result, jobs')) : Wins id jobs' := by
  obtain ⟨row, found, status⟩ := wins
  have member := jobs.job.find?_mem found
  rcases submitJob_spec done with same | ⟨added, rows, -⟩
  · rw [same]
    exact ⟨row, found, status⟩
  · have kept : row ∈ jobs'.job.rows := by
      rw [rows]
      exact List.mem_append_left _ member
    have listed := jobs'.job.find?_of_mem kept
    rw [jobs.job.find?_key found] at listed
    exact ⟨row, listed, status⟩

theorem Wins.recoverOrphans (wins : Wins id jobs) (ended : ¬Running id jobs) (now : Int) :
    Wins id (jobs.recoverOrphans now).2 := by
  obtain ⟨row, found, canceled⟩ := wins.not_running ended
  have kept : row ∈ (jobs.recoverOrphans now).2.job.rows := by
    rw [recoverOrphans_rows]
    refine List.mem_map.mpr ⟨row, jobs.job.find?_mem found, ?_⟩
    rw [canceled]
    rfl
  have listed := (jobs.recoverOrphans now).2.job.find?_of_mem kept
  rw [jobs.job.find?_key found] at listed
  exact ⟨row, listed, .inl canceled⟩

theorem Wins.claimNextJob (wins : Wins id jobs) (now : Int) : Wins id (jobs.claimNextJob now).2 := by
  unfold Jobs.claimNextJob
  split
  · exact wins
  · dsimp only
    apply wins.update
    intro row member own chosen status
    have queued : row.status = .queued := by simpa using (Bool.and_eq_true_iff.mp chosen).2
    rw [queued] at status
    simp at status

/-- The second request of another job, or of the same one, changes nothing that was asked. -/
theorem Wins.requestCancel {other : Text} {now : Int} {result : CancelResult} {jobs' : Jobs} (wins : Wins id jobs)
    (done : jobs.requestCancel other now = .ok (result, jobs')) : Wins id jobs' := by
  obtain ⟨row, found, done⟩ := bind_eq_ok.mp done
  have selected := required_eq_ok.mp found
  split at done
  · rw [← (Prod.mk.inj (pure_eq_ok.mp done)).2]
    apply wins.update
    exact fun row member own chosen status => .inl rfl
  · rename_i running
    rw [← (Prod.mk.inj (pure_eq_ok.mp done)).2]
    split
    · exact wins
    · apply wins.update
      intro row' member own chosen status
      have same := jobs.job.eq_of_key member (jobs.job.find?_mem selected)
        ((of_decide_eq_true chosen).trans (jobs.job.find?_key selected).symm)
      rw [same]
      exact .inr ⟨running, one_ne_zero⟩
  · rw [← (Prod.mk.inj (pure_eq_ok.mp done)).2]
    exact wins

theorem requestCancel_ok {row : JobRow} (found : jobs.selectById id = some row) (now : Int) :
    ∃ result jobs', jobs.requestCancel id now = .ok (result, jobs') := by
  rw [requestCancel, found]
  simp only [required, ok_bind]
  split
  · exact ⟨_, _, rfl⟩
  · exact ⟨_, _, rfl⟩
  · exact ⟨_, _, rfl⟩

/-- The request of a running job is recorded. -/
theorem requestCancel_wins {now : Int} {result : CancelResult} {jobs' : Jobs} (running : Running id jobs)
    (done : jobs.requestCancel id now = .ok (result, jobs')) : Wins id jobs' := by
  obtain ⟨row, found, status⟩ := running
  obtain ⟨row', selected, done⟩ := bind_eq_ok.mp done
  obtain rfl := Option.some.inj (found.symm.trans (required_eq_ok.mp selected))
  split at done
  · rename_i queued
    rw [status] at queued
    cases queued
  · rw [← (Prod.mk.inj (pure_eq_ok.mp done)).2]
    split
    · rename_i already
      exact ⟨row, found, .inr ⟨status, by simpa using already⟩⟩
    · refine ⟨{ row with cancelRequested := 1, updatedAt := now }, ?_, .inr ⟨status, one_ne_zero⟩⟩
      rw [update_selectById, found]
      simp [jobs.job.find?_key found]
  · rename_i ended
    exact absurd status ended

theorem finalizeJob_other {other : Text} (apart : other ≠ id) (wins : Wins id jobs) (outcome : Outcome) (now : Int) :
    Wins id (jobs.finalizeJob other outcome now) := by
  apply wins.update
  intro row member own chosen
  exact absurd ((of_decide_eq_true chosen).symm.trans own) apart

theorem finalizeJob_own (running : Running id jobs) (outcome : Outcome) (now : Int) :
    ∃ row, (jobs.finalizeJob id outcome now).selectById id = some row ∧ row.status = outcome.status := by
  obtain ⟨row, found, -⟩ := running
  exact ⟨_, finalizeJob_row found outcome now, rfl⟩

/-- The job has ended in another way. -/
def Lost (id : Text) (jobs : Jobs) : Prop :=
  ∃ row, jobs.selectById id = some row ∧ (row.status = .failed ∨ row.status = .unknown)

theorem finalizeJob_canceled (running : Running id jobs) {outcome : Outcome} (canceled : outcome.status = .canceled)
    (now : Int) : Wins id (jobs.finalizeJob id outcome now) := by
  obtain ⟨row, found, status⟩ := finalizeJob_own running outcome now
  exact ⟨row, found, .inl (status.trans canceled)⟩

theorem finalizeJob_lost (running : Running id jobs) {outcome : Outcome}
    (other : outcome.status = .failed ∨ outcome.status = .unknown) (now : Int) :
    Lost id (jobs.finalizeJob id outcome now) := by
  obtain ⟨row, found, status⟩ := finalizeJob_own running outcome now
  rw [← status] at other
  exact ⟨row, found, other⟩

theorem Lost.not_wins (lost : Lost id jobs) : ¬Wins id jobs := by
  rintro ⟨row', found', status'⟩
  obtain ⟨row, found, status⟩ := lost
  obtain rfl := Option.some.inj (found.symm.trans found')
  rcases status with status | status <;> simp [status] at status'

theorem Lost.evolves {jobs' : Jobs} (lost : Lost id jobs) (evolves : Evolves jobs jobs') : Lost id jobs' := by
  obtain ⟨row, found, status⟩ := lost
  have terminal : row.status ∈ TERMINAL_STATUSES := by
    rcases status with status | status
    · rw [status]
      decide
    · rw [status]
      decide
  have listed := jobs'.job.find?_of_mem (evolves.terminal (jobs.job.find?_mem found) terminal)
  rw [jobs.job.find?_key found] at listed
  exact ⟨row, listed, status⟩

end Jobs

open Jobs

namespace JobSystem

/-- `execStream`, the stream or the process does not fail while the job runs. -/
def Undisturbed (id : Text) (system : JobSystem) (action : Action) : Prop :=
  match action, system.runner with
  | .rejected _ _, .starting _ => ¬Running id system.jobs
  | .broken _ _, .reading _ => ¬Running id system.jobs
  | .runNextJob _ _, .idle => ¬Running id system.jobs
  | _, _ => True

variable {id : Text} {system : JobSystem}

theorem running_of_sole {other : Text} (sole : system.jobs.runningIds = [other]) :
    Running id system.jobs ↔ other = id := by
  rw [running_iff, sole, List.mem_singleton, eq_comm]

/-- The normal end looks at the request at the last moment. -/
theorem conclude_wins {run : JobRun} (sole : system.jobs.runningIds = [run.job.id]) (wins : Wins id system.jobs)
    (now : Int) : Wins id (system.conclude run now).jobs := by
  by_cases own : run.job.id = id
  · have running := (running_of_sole sole).mpr own
    obtain ⟨row, found, canceled | ⟨-, asked⟩⟩ := wins
    · obtain ⟨row', found', running⟩ := running
      obtain rfl := Option.some.inj (found.symm.trans found')
      rw [canceled] at running
      cases running
    · subst own
      refine finalizeJob_canceled running ?_ now
      simp [found, asked]
  · exact finalizeJob_other own wins _ now

/-- The two `catch` blocks do not look at it. -/
theorem fail_wins {run : JobRun} (sole : system.jobs.runningIds = [run.job.id]) (ended : ¬Running id system.jobs)
    (wins : Wins id system.jobs) (error : Failure) (now : Int) : Wins id (system.fail run error now).jobs :=
  finalizeJob_other (fun own => ended ((running_of_sole sole).mpr own)) wins _ now

theorem fail_lost {run : JobRun} (sole : system.jobs.runningIds = [run.job.id]) (running : Running id system.jobs)
    (error : Failure) (now : Int) : Lost id (system.fail run error now).jobs := by
  obtain rfl := (running_of_sole sole).mp running
  apply finalizeJob_lost running
  by_cases unknown : isUnknownOutcome error
  · exact .inr (if_pos unknown)
  · exact .inl (if_neg unknown)

theorem claimAndRun_wins (wins : Wins id system.jobs) (busy : Bool) (now : Int) :
    Wins id (system.claimAndRun busy now).jobs := by
  unfold claimAndRun
  split
  · exact wins
  · have kept := wins.claimNextJob now
    split
    · rename_i jobs claim
      rwa [claim] at kept
    · rename_i claimed jobs claim
      rw [claim] at kept
      unfold runJob
      split
      · exact kept
      · split
        · exact kept
        · exact kept

theorem runNextJob_wins (wins : Wins id system.jobs) (ended : system.runner = .idle → ¬Running id system.jobs)
    (busy : Bool) (now : Int) : Wins id (system.runNextJob busy now).jobs := by
  unfold runNextJob
  split
  · rename_i idle
    have kept := wins.recoverOrphans (ended idle) now
    dsimp only
    split
    · exact kept
    · exact claimAndRun_wins kept busy now
  · exact wins

theorem runNextJob_lost (idle : system.runner = .idle) (running : Running id system.jobs) (busy : Bool) (now : Int) :
    Lost id (system.runNextJob busy now).jobs := by
  obtain ⟨row, found, status⟩ := running
  have member := system.jobs.job.find?_mem found
  have some_ : (system.jobs.recoverOrphans now).1 > 0 := by
    rw [recoverOrphans_count]
    exact List.length_pos_iff.mpr (List.ne_nil_of_mem (mem_runningIds.mpr ⟨row, member, status, rfl⟩))
  have interrupted : interrupt now row ∈ (system.jobs.recoverOrphans now).2.job.rows := by
    rw [recoverOrphans_rows]
    exact List.mem_map.mpr ⟨row, member, if_pos status⟩
  have listed := (system.jobs.recoverOrphans now).2.job.find?_of_mem interrupted
  rw [interrupt_id, system.jobs.job.find?_key found] at listed
  unfold runNextJob
  rw [idle]
  dsimp only
  rw [if_pos some_]
  exact ⟨_, listed, .inr rfl⟩

theorem handle_wins (logged : system.Logged) {run : JobRun} (reading : system.runner = .reading run)
    (wins : Wins id system.jobs) (event : ExecEvent) (now : Int) : Wins id (system.handle run event now).jobs := by
  cases event with
  | start execId =>
    unfold handle Jobs.setExecId
    dsimp only
    apply Wins.update wins
    exact fun row member own chosen status => status
  | output stream execId data =>
    rcases handleOutput_cases logged reading stream data now with ⟨same, -⟩ | ⟨same, -⟩ | ⟨jobs, -, job, -, same⟩
    · exact (congrArg (fun system => Wins id system.jobs) same).mpr wins
    · exact (congrArg (fun system => Wins id system.jobs) same).mpr wins
    · exact (congrArg (fun system => Wins id system.jobs) same).mpr (wins.of_job job)
  | exit execId exitCode => exact wins

theorem step_wins (safe : system.Safe) (logged : system.Logged) (wins : Wins id system.jobs) {action : Action}
    (undisturbed : Undisturbed id system action) : Wins id (step system action).jobs := by
  have holds := safe.holds
  unfold step
  unfold Undisturbed at undisturbed
  split
  · unfold submit
    split
    · rename_i done
      exact wins.submitJob done
    · exact wins
  · unfold cancel
    split
    · rename_i done
      exact wins.requestCancel done
    · exact wins
  · refine runNextJob_wins wins ?_ _ _
    intro idle
    rwa [idle] at undisturbed
  · split
    · exact wins
    · exact claimAndRun_wins wins _ _
  · exact wins
  · rename_i error now job starting
    rw [starting] at undisturbed
    rw [Holds, starting] at holds
    exact @fail_wins id system (newRun job) holds undisturbed wins error now
  · rename_i event now run reading
    exact handle_wins logged reading wins event now
  · rename_i error now run reading
    rw [reading] at undisturbed
    rw [Holds, reading] at holds
    exact fail_wins holds undisturbed wins error now
  · rename_i now run reading
    rw [Holds, reading] at holds
    exact conclude_wins holds wins now
  · exact wins
  · exact wins
  · exact wins

theorem step_lost (safe : system.Safe) {action : Action} (disturbed : ¬Undisturbed id system action) :
    Lost id (step system action).jobs := by
  have holds := safe.holds
  unfold Undisturbed at disturbed
  split at disturbed
  · rename_i error now job starting
    unfold step
    rw [starting]
    rw [Holds, starting] at holds
    exact @fail_lost id system (newRun job) holds (not_not.mp disturbed) error now
  · rename_i error now run reading
    unfold step
    rw [reading]
    rw [Holds, reading] at holds
    exact fail_lost holds (not_not.mp disturbed) error now
  · rename_i busy now idle
    exact runNextJob_lost idle (not_not.mp disturbed) busy now
  · exact absurd trivial disturbed

theorem run_lost (actions : List Action) (safe : system.Safe) (lost : Lost id system.jobs) :
    Lost id (run step system actions).jobs := by
  induction actions generalizing system with
  | nil => exact lost
  | cons action actions ih =>
    exact ih (safe.step action) (lost.evolves (advance_step safe.holds action).evolves)

theorem run_wins_iff (actions : List Action) (safe : system.Safe) (logged : system.Logged) (wins : Wins id system.jobs) :
    Wins id (run step system actions).jobs ↔ Guarded step (Undisturbed id) system actions := by
  induction actions generalizing system with
  | nil => exact ⟨fun _ => trivial, fun _ => wins⟩
  | cons action actions ih =>
    by_cases undisturbed : Undisturbed id system action
    · rw [show run step system (action :: actions) = run step (step system action) actions from rfl,
        ih (safe.step action) (logged_step logged safe action) (step_wins safe logged wins undisturbed)]
      exact ⟨fun later => ⟨undisturbed, later⟩, fun guarded => guarded.2⟩
    · constructor
      · exact fun won => absurd won (run_lost actions (safe.step action) (step_lost safe undisturbed)).not_wins
      · exact fun guarded => absurd guarded.1 undisturbed

/-- A cancellation of a running job, at any point of any run, is what the job ends with if and
only if neither `execStream` nor the stream fails nor the process restarts while the job runs. -/
theorem cancel_wins (before after : List Action) (id : Text) (now : Int)
    (running : Running id (run step initial before).jobs) :
    Wins id (run step initial (before ++ .cancel id now :: after)).jobs ↔
      Guarded step (Undisturbed id) (run step initial (before ++ [.cancel id now])) after := by
  have safe := safe_run (before ++ [.cancel id now]) safe_initial
  have logged := logged_run (before ++ [.cancel id now]) safe_initial logged_initial
  have whole : run step initial (before ++ .cancel id now :: after) =
      run step (run step initial (before ++ [.cancel id now])) after := by
    simp [run]
  rw [whole]
  apply run_wins_iff after safe logged
  rw [run_concat, step, cancel]
  obtain ⟨row, found, status⟩ := running
  obtain ⟨result, jobs, done⟩ := requestCancel_ok found now
  rw [done]
  exact requestCancel_wins ⟨row, found, status⟩ done

/-- A job that is asked to end while it runs, and then exits. -/
def canceledRun : List Action :=
  [.submit (sample "a") ['1'] 10, .runNextJob false 11, .accepted, .event (.start ['x']) 12]

theorem cancel_wins_sample : Wins ['1'] (run step initial
    (canceledRun ++ .cancel ['1'] 13 :: [.event (.exit ['x'] 143) 14, .ended 14])).jobs :=
  (cancel_wins canceledRun [.event (.exit ['x'] 143) 14, .ended 14] ['1'] 13 (by decide +kernel)).mpr
    ⟨trivial, trivial, trivial⟩

/-- The stream fails after the request, and the job has failed. -/
theorem cancel_loses : ¬∀ (before after : List Action) (id : Text) (now : Int),
    Running id (run step initial before).jobs →
      Wins id (run step initial (before ++ .cancel id now :: after)).jobs := by
  intro wins
  have won := wins canceledRun [.broken (.error "Network connection lost.") 14] ['1'] 13 (by decide +kernel)
  refine Lost.not_wins ?_ won
  have failed : ((run step initial
      (canceledRun ++ .cancel ['1'] 13 :: [.broken (.error "Network connection lost.") 14])).jobs.selectById
      ['1']).map JobRow.status = some .failed := by decide +kernel
  obtain ⟨row, found, status⟩ := Option.map_eq_some_iff.mp failed
  exact ⟨row, found, .inl status⟩

end JobSystem

end AiryFS
