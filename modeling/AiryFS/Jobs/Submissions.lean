import AiryFS.Jobs.JobSafety

/-! What was submitted under each key. No step but a submission changes it. -/

set_option autoImplicit false

namespace AiryFS

open Foundation

namespace Jobs

/-- An idempotency key, with the command and the directory it stands for. -/
def JobRow.submission (row : JobRow) : Text × Text × Text := (row.idempotencyKey, row.command, row.cwd)

def submissions (jobs : Jobs) : List (Text × Text × Text) := jobs.job.rows.map JobRow.submission

/-- The keys that have a job. -/
def keys (jobs : Jobs) : List Text := jobs.job.rows.map JobRow.idempotencyKey

variable {jobs jobs' : Jobs}

theorem keys_eq : jobs.keys = jobs.submissions.map Prod.fst := by
  rw [keys, submissions, List.map_map]
  rfl

theorem update_submissions {selected : JobRow → Bool} {change : JobRow → JobRow} {same : ∀ row, (change row).id = row.id}
    (kept : ∀ row, (change row).submission = row.submission) :
    (jobs.update selected change same).submissions = jobs.submissions := by
  rw [submissions, update_rows, List.map_map, submissions]
  apply List.map_congr_left
  intro row _
  dsimp only [Function.comp_apply]
  split
  · exact kept row
  · rfl

theorem recoverOrphans_submissions (now : Int) : (jobs.recoverOrphans now).2.submissions = jobs.submissions := by
  rw [submissions, recoverOrphans_rows, List.map_map, submissions]
  apply List.map_congr_left
  intro row _
  dsimp only [Function.comp_apply]
  split <;> rfl

theorem claimNextJob_submissions (now : Int) : (jobs.claimNextJob now).2.submissions = jobs.submissions := by
  unfold claimNextJob
  split
  · rfl
  · dsimp only
    exact update_submissions fun _ => rfl

theorem setExecId_submissions (id execId : Text) (now : Int) : (jobs.setExecId id execId now).submissions = jobs.submissions :=
  update_submissions fun _ => rfl

theorem finalizeJob_submissions (id : Text) (outcome : Outcome) (now : Int) :
    (jobs.finalizeJob id outcome now).submissions = jobs.submissions :=
  update_submissions fun _ => rfl

theorem appendJobLog_submissions {row : JobLogRow} (done : jobs.appendJobLog row = .ok jobs') :
    jobs'.submissions = jobs.submissions := by
  rw [submissions, appendJobLog_job done]
  rfl

theorem requestCancel_submissions {id : Text} {now : Int} {result : CancelResult}
    (done : jobs.requestCancel id now = .ok (result, jobs')) : jobs'.submissions = jobs.submissions := by
  obtain ⟨row, -, done⟩ := bind_eq_ok.mp done
  split at done
  · rw [← (Prod.mk.inj (pure_eq_ok.mp done)).2]
    exact update_submissions fun _ => rfl
  · rw [← (Prod.mk.inj (pure_eq_ok.mp done)).2]
    split
    · rfl
    · exact update_submissions fun _ => rfl
  · rw [← (Prod.mk.inj (pure_eq_ok.mp done)).2]

/-- A submission that is accepted stands under its key afterwards, as a new job or as one that was there. -/
theorem submitJob_submissions {input : SubmitJobInput} {id : Text} {now : Int} {result : SubmitJobResult}
    (done : jobs.submitJob input id now = .ok (result, jobs')) :
    ∃ command cwd key, validateCommand input.command = .ok command ∧ validateCwd input.cwd = .ok cwd ∧
      input.idempotencyKey = some key ∧ (key, command, cwd) ∈ jobs'.submissions ∧
      (jobs'.submissions = jobs.submissions ∨
        key ∉ jobs.keys ∧ jobs'.submissions = jobs.submissions ++ [(key, command, cwd)]) := by
  obtain ⟨command, commands, done⟩ := bind_eq_ok.mp done
  obtain ⟨cwd, cwds, done⟩ := bind_eq_ok.mp done
  obtain ⟨key, valid, done⟩ := bind_eq_ok.mp done
  have keyed : input.idempotencyKey = some key := by
    obtain ⟨value, given, valid⟩ := bind_eq_ok.mp valid
    obtain ⟨_, -, valid⟩ := bind_eq_ok.mp valid
    obtain ⟨_, -, valid⟩ := bind_eq_ok.mp valid
    rw [required_eq_ok.mp given, pure_eq_ok.mp valid]
  refine ⟨command, cwd, key, commands, cwds, keyed, ?_⟩
  cases found : jobs.selectByKey key with
  | some existing =>
    rw [found] at done
    obtain ⟨_, agree, done⟩ := bind_eq_ok.mp done
    have agree := refuse_eq_ok.mp agree
    have same := (Prod.mk.inj (pure_eq_ok.mp done)).2
    have member := List.mem_of_find?_eq_some found
    have named : existing.idempotencyKey = key := by simpa using List.find?_some found
    rw [← same]
    refine ⟨List.mem_map.mpr ⟨existing, member, ?_⟩, .inl rfl⟩
    simp only [not_or, not_not] at agree
    rw [JobRow.submission, named, agree.1, agree.2]
  | none =>
    rw [found] at done
    obtain ⟨inserted, insert, done⟩ := bind_eq_ok.mp done
    obtain ⟨created, -, done⟩ := bind_eq_ok.mp done
    obtain ⟨_, -, insert⟩ := bind_eq_ok.mp insert
    obtain ⟨table, appended, insert⟩ := bind_eq_ok.mp insert
    have rows := (jobs.job.insert?_eq_some_iff.mp (required_eq_ok.mp appended)).2
    have grown : jobs'.submissions = jobs.submissions ++ [(key, command, cwd)] := by
      rw [← (Prod.mk.inj (pure_eq_ok.mp done)).2, ← pure_eq_ok.mp insert, submissions, rows, List.map_append]
      rfl
    refine ⟨by simp [grown], .inr ⟨?_, grown⟩⟩
    intro taken
    obtain ⟨row, member, named⟩ := List.mem_map.mp taken
    have other := List.find?_eq_none.mp found row member
    simp [named] at other

/-- The row of a new job. -/
def newJob (id key command cwd : Text) (now : Int) : JobRow :=
  { id, idempotencyKey := key, command, cwd, status := .queued, execId := none, exitCode := none, error := none
    cancelRequested := 0, outputBytes := 0, outputTruncated := 0, createdAt := now, updatedAt := now
    startedAt := none, finishedAt := none }

theorem insert_accepted (row : JobRow) (fresh : jobs.selectById row.id = none)
    (other : ∀ old ∈ jobs.job.rows, old.idempotencyKey ≠ row.idempotencyKey) :
    ∃ inserted, jobs.insert row = .ok inserted ∧ inserted.selectById row.id = some row := by
  obtain ⟨table, inserted⟩ := jobs.job.insert?_of_absent fresh
  refine ⟨{ jobs with job := table }, ?_, ?_⟩
  · rw [insert, refuse_of_not (fun ⟨old, member, same⟩ => other old member same), inserted]
    rfl
  · change table.find? row.id = some row
    rw [jobs.job.find?_insert inserted, if_pos rfl]

/-- A submission is accepted when its fields are valid and any job under its key is the same. -/
theorem submitJob_accepted {input : SubmitJobInput} {id command cwd key : Text} (now : Int)
    (commands : validateCommand input.command = .ok command) (cwds : validateCwd input.cwd = .ok cwd)
    (keyed : validateIdempotencyKey input.idempotencyKey = .ok key) (fresh : jobs.selectById id = none)
    (agree : ∀ submission ∈ jobs.submissions, submission.1 = key → submission = (key, command, cwd)) :
    ∃ result jobs', jobs.submitJob input id now = .ok (result, jobs') := by
  unfold submitJob
  rw [commands, cwds, keyed, ok_bind, ok_bind, ok_bind]
  cases found : jobs.selectByKey key with
  | some existing =>
    have member := List.mem_of_find?_eq_some found
    have named : existing.idempotencyKey = key := by simpa using List.find?_some found
    have same := agree _ (List.mem_map_of_mem member) named
    simp only [JobRow.submission, Prod.mk.injEq] at same
    have same : ¬(existing.command ≠ command ∨ existing.cwd ≠ cwd) := by simp [same.2.1, same.2.2]
    dsimp only
    rw [refuse_of_not same]
    exact ⟨_, _, rfl⟩
  | none =>
    dsimp only
    have other : ∀ row ∈ jobs.job.rows, row.idempotencyKey ≠ key := by
      intro row member
      simpa using List.find?_eq_none.mp found row member
    obtain ⟨inserted, stored, kept⟩ := insert_accepted (newJob id key command cwd now) fresh other
    change ∃ result jobs', (jobs.insert (newJob id key command cwd now) >>= fun jobs => _) = _
    rw [stored]
    change ∃ result jobs', (required (inserted.selectById id) _ >>= fun created => _) = _
    rw [show inserted.selectById id = some _ from kept]
    exact ⟨_, _, rfl⟩

end Jobs

open Jobs

namespace JobSystem

variable (system : JobSystem)

theorem claimAndRun_submissions (busy : Bool) (now : Int) : (system.claimAndRun busy now).jobs.submissions = system.jobs.submissions := by
  unfold claimAndRun
  split
  · rfl
  · have claimed := @claimNextJob_submissions system.jobs now
    split
    · rename_i jobs claim
      rwa [claim] at claimed
    · rename_i row jobs claim
      rw [claim] at claimed
      unfold runJob
      dsimp only
      split
      · exact claimed
      · split
        · exact claimed
        · exact claimed

theorem runNextJob_submissions (busy : Bool) (now : Int) :
    (system.runNextJob busy now).jobs.submissions = system.jobs.submissions := by
  have recovered := @recoverOrphans_submissions system.jobs now
  unfold runNextJob
  split
  · dsimp only
    split
    · exact recovered
    · exact (claimAndRun_submissions _ busy now).trans recovered
  · rfl

theorem handle_submissions (run : JobRun) (event : ExecEvent) (now : Int) :
    (system.handle run event now).jobs.submissions = system.jobs.submissions := by
  cases event with
  | start id => exact setExecId_submissions run.job.id id now
  | output stream id data =>
    unfold handle handleOutput
    dsimp only
    split
    · rfl
    · split
      · rfl
      · split
        · rename_i jobs done
          exact appendJobLog_submissions done
        · exact finalizeJob_submissions _ _ _
  | exit id exitCode => rfl

/-- Only a submission adds to what was submitted. -/
theorem step_submissions (action : Action) (other : ∀ input id now, action ≠ .submit input id now) :
    (step system action).jobs.submissions = system.jobs.submissions := by
  unfold step
  split
  · exact absurd rfl (other _ _ _)
  · unfold cancel
    split
    · rename_i result jobs done
      exact requestCancel_submissions done
    · rfl
  · exact runNextJob_submissions system _ _
  · split
    · rfl
    · exact claimAndRun_submissions system _ _
  · rfl
  · exact finalizeJob_submissions _ _ _
  · exact handle_submissions system _ _ _
  · exact finalizeJob_submissions _ _ _
  · exact finalizeJob_submissions _ _ _
  · rfl
  · rfl
  · rfl

/-- A submission adds its key or nothing. -/
theorem submit_submissions (input : SubmitJobInput) (id : Text) (now : Int) :
    (step system (.submit input id now)).jobs.submissions = system.jobs.submissions ∨
      ∃ command cwd key, validateCommand input.command = .ok command ∧ validateCwd input.cwd = .ok cwd ∧
        input.idempotencyKey = some key ∧ key ∉ system.jobs.keys ∧
        (step system (.submit input id now)).jobs.submissions = system.jobs.submissions ++ [(key, command, cwd)] := by
  change (system.submit input id now).jobs.submissions = _ ∨ _
  unfold submit
  split
  · rename_i result jobs done
    obtain ⟨command, cwd, key, commands, cwds, keyed, -, same | ⟨fresh, grown⟩⟩ := submitJob_submissions done
    · exact .inl same
    · refine .inr ⟨command, cwd, key, commands, cwds, keyed, fresh, ?_⟩
      change (system.submit input id now).jobs.submissions = _
      rw [submit, done]
      exact grown
  · exact .inl rfl

end JobSystem

end AiryFS
