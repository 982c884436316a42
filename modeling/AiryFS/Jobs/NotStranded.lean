import AiryFS.Schedules.RunnerSteps

/-! The job queue with the scheduler that drives it.

`scheduleJobRun` asks the scheduler of the container for one call of `runNextJob`. An accepted
call is an entry; an entry calls back once and is gone. Interactive commands and the lifecycle
of the container reach the queue only as `busy`, and a restart keeps the entries.
-/

set_option autoImplicit false

namespace AiryFS

open Foundation Schedules

structure QueueSystem where
  schedules : ScheduleSystem
  /-- The entries for `runNextJob` that have not called back. -/
  entries : Nat
  deriving DecidableEq

namespace QueueSystem

def initial : QueueSystem := ⟨.initial, 0⟩

/-- A step, and whether the scheduler accepts the call that it may make. -/
structure Action where
  action : ScheduleSystem.Action
  accepted : Bool
  deriving DecidableEq

variable (number : Text → Option Int) (system : QueueSystem)

def jobs : Jobs := system.schedules.automation.jobs

def runner : Jobs.Runner := system.schedules.automation.runner

/-- A pass that has just submitted a queued job. -/
def submits : Pass → Bool
  | .submitting _ _ _ waits => waits
  | _ => false

/-- Whether a step between the two states calls `scheduleJobRun`: a submission that finds its job
queued, in a request or in a pass over the schedules, and the runner where it advances the queue. -/
def arms (system system' : ScheduleSystem) : ScheduleSystem.Action → Bool
  | .job (.submit input id now) =>
    match system.automation.jobs.submitJob input id now with
    | .ok (result, _) => result.job.status = .queued
    | .error _ => false
  | .job _ => system.automation.runner ≠ .scheduling && system'.automation.runner = .scheduling
  | .alarm _ _ => system.pass = .idle && submits system'.pass
  | .answered _ _ => submits system'.pass
  | _ => false

/-- The entries that an action uses up. -/
def fires : ScheduleSystem.Action → Nat
  | .job (.runNextJob _ _) => 1
  | _ => 0

/-- Nothing calls `runNextJob` but an entry. -/
def step (system : QueueSystem) (action : Action) : QueueSystem :=
  if system.entries < fires action.action then system
  else
    let schedules := ScheduleSystem.step number system.schedules action.action
    let armed := arms system.schedules schedules action.action && action.accepted
    { schedules, entries := system.entries - fires action.action + if armed then 1 else 0 }

def Queued (jobs : Jobs) : Prop := ∃ row ∈ jobs.job.rows, row.status = .queued

instance (jobs : Jobs) : Decidable (Queued jobs) := inferInstanceAs (Decidable (∃ row ∈ jobs.job.rows, row.status = .queued))

/-- Some job is queued, or left running. -/
def Pending (jobs : Jobs) : Prop := ∃ row ∈ jobs.job.rows, row.status = .queued ∨ row.status = .running

instance (jobs : Jobs) : Decidable (Pending jobs) :=
  inferInstanceAs (Decidable (∃ row ∈ jobs.job.rows, row.status = .queued ∨ row.status = .running))

/-- While no `runNextJob` is in progress, a pending job has an entry. -/
def Armed : Prop := system.runner = .idle → Pending system.jobs → 1 ≤ system.entries

instance : Decidable system.Armed :=
  inferInstanceAs (Decidable (system.runner = .idle → Pending system.jobs → 1 ≤ system.entries))

end QueueSystem

/-! A pending job keeps an entry of the scheduler, as long as every call that the queue relies on
is made and accepted.

The queue relies on one call at a time: the submission's, and from the callback on the runner's.
-/

namespace Jobs

/-- The runner has its call to the scheduler still ahead of it. -/
def Runner.Works : Runner → Prop
  | .idle => False
  | .scheduling => False
  | _ => True

instance : DecidablePred Runner.Works := fun runner =>
  match runner with
  | .idle => isFalse id
  | .scheduling => isFalse id
  | .recycling => isTrue trivial
  | .starting _ => isTrue trivial
  | .reading _ => isTrue trivial

variable {jobs jobs' : Jobs}

/-- A submission either leaves the table alone or finds its job queued. -/
theorem submitJob_queued {input : SubmitJobInput} {id : Text} {now : Int} {result : SubmitJobResult}
    (done : jobs.submitJob input id now = .ok (result, jobs')) : result.job.status = .queued ∨ jobs' = jobs := by
  rcases submitJob_cases done with same | ⟨command, cwd, key, -, -, -, -, -, job⟩
  · exact .inr same
  · rw [job]
    exact .inl rfl

/-- Without a submission, a row has been there before. -/
theorem Evolves.origin (evolves : Evolves jobs jobs') (same : jobs'.submissions = jobs.submissions) {row' : JobRow}
    (member : row' ∈ jobs'.job.rows) : ∃ row ∈ jobs.job.rows, Follows row row' := by
  obtain ⟨change, follows, rows | ⟨added, rows, -⟩⟩ := evolves
  · rw [rows] at member
    obtain ⟨row, listed, rfl⟩ := List.mem_map.mp member
    exact ⟨row, listed, follows row listed⟩
  · -- A row more would be a submission more.
    have lengths := congrArg List.length same
    rw [submissions, submissions, List.length_map, List.length_map, rows, List.length_append, List.length_map] at lengths
    simp at lengths

theorem Evolves.queued (evolves : Evolves jobs jobs') (same : jobs'.submissions = jobs.submissions)
    (queued : QueueSystem.Queued jobs') : QueueSystem.Queued jobs := by
  obtain ⟨row', member, status⟩ := queued
  obtain ⟨row, listed, follows⟩ := evolves.origin same member
  refine ⟨row, listed, ?_⟩
  by_contra other
  exact follows.not_queued other status

/-- Nothing becomes pending without a submission. -/
theorem Evolves.pending (evolves : Evolves jobs jobs') (same : jobs'.submissions = jobs.submissions)
    (pending : QueueSystem.Pending jobs') : QueueSystem.Pending jobs := by
  obtain ⟨row', member, status⟩ := pending
  obtain ⟨row, listed, follows⟩ := evolves.origin same member
  refine ⟨row, listed, ?_⟩
  by_contra neither
  push Not at neither
  have ended : row.status ∈ TERMINAL_STATUSES := by
    cases moved : row.status with
    | queued => exact absurd moved neither.1
    | running => exact absurd moved neither.2
    | _ => decide
  rw [follows.terminal ended] at status
  exact status.elim neither.1 neither.2

theorem not_pending {jobs : Jobs} (idle : jobs.runningIds = []) (unqueued : jobs.oldestQueued = none) :
    ¬QueueSystem.Pending jobs := by
  rintro ⟨row, member, queued | running⟩
  · have none_ := List.argmin_eq_none.mp unqueued
    exact absurd queued (by simpa using List.filter_eq_nil_iff.mp none_ row member)
  · exact runningIds_eq_nil.mp idle row member running

end Jobs

namespace QueueSystem

open Jobs

/-- The action does not leave the queue with nothing to drive it. Where the scheduler refuses, the
container is not destroyed, the process restarts amid a job or an entry calls back while the
runner waits for the scheduler, another entry is there or there is nothing to drive. -/
def Allowed (number : Text → Option Int) (system : QueueSystem) (action : Action) : Prop :=
  let spare := 1 ≤ system.entries - fires action.action
  let refused := arms system.schedules (ScheduleSystem.step number system.schedules action.action) action.action = true ∧
    action.accepted = false
  match action.action with
  | .job .restart => system.runner.Works → spare ∨ ¬Pending system.jobs
  | .job (.recycled true _ _) => system.runner = .recycling → spare ∨ ¬Queued system.jobs
  | .job (.runNextJob _ _) => system.runner = .scheduling ∨ refused → spare ∨ ¬Queued system.jobs
  | .job (.submit _ _ _) => refused → spare ∨ system.runner.Works
  | .job _ => refused → spare ∨ ¬Queued system.jobs
  | _ => refused → spare ∨ system.runner.Works

structure Holds (system : QueueSystem) : Prop where
  runner : system.schedules.automation.Holds
  driven : system.runner.Works ∨ ¬Pending system.jobs ∨ 1 ≤ system.entries

variable {number : Text → Option Int} {system : QueueSystem}

theorem Holds.armed (holds : system.Holds) : system.Armed := by
  intro idle pending
  rcases holds.driven with works | done | armed
  · rw [idle] at works
    exact works.elim
  · exact absurd pending done
  · exact armed

/-! ## The runner -/

section Runner
variable {automation : JobSystem}

/-- The admission claims a job, calls the scheduler, or finds nothing to do. -/
theorem admit_cases (idle : automation.jobs.runningIds = []) (busy : Bool) (now : Int) :
    (automation.claimAndRun busy now).runner.Works ∨ (automation.claimAndRun busy now).runner = .scheduling ∨
      (automation.claimAndRun busy now).runner = .idle ∧ ¬Pending (automation.claimAndRun busy now).jobs := by
  unfold JobSystem.claimAndRun
  split
  · exact .inr (.inl rfl)
  · cases found : automation.jobs.oldestQueued with
    | none =>
      have nothing : automation.jobs.claimNextJob now = (none, automation.jobs) := by rw [Jobs.claimNextJob, found]
      rw [nothing]
      exact .inr (.inr ⟨rfl, not_pending idle found⟩)
    | some row =>
      obtain ⟨claimed, jobs, claim, kept, named, running, -⟩ := claimNextJob_spec now idle found
      rw [claim]
      unfold JobSystem.runJob
      dsimp only
      rw [named, kept]
      simp only [running, ne_eq, not_true_eq_false, if_false]
      exact .inl trivial

theorem recycled_cases (holds : automation.Holds) (recycling : automation.runner = .recycling) (busy : Bool) (now : Int) :
    (JobSystem.step automation (.recycled false busy now)).runner.Works ∨
      (JobSystem.step automation (.recycled false busy now)).runner = .scheduling ∨
      (JobSystem.step automation (.recycled false busy now)).runner = .idle ∧
        ¬Pending (JobSystem.step automation (.recycled false busy now)).jobs := by
  have idle : automation.jobs.runningIds = [] := by rwa [JobSystem.Holds, recycling] at holds
  have admitted : JobSystem.step automation (.recycled false busy now) = automation.claimAndRun busy now := by
    simp [JobSystem.step, recycling]
  rw [admitted]
  exact admit_cases idle busy now

/-- The callback starts work, calls the scheduler, finds nothing to do, or finds the runner there. -/
theorem runNextJob_cases (busy : Bool) (now : Int) :
    (JobSystem.step automation (.runNextJob busy now)).runner.Works ∨
      automation.runner = .idle ∧ (JobSystem.step automation (.runNextJob busy now)).runner = .scheduling ∨
      (JobSystem.step automation (.runNextJob busy now)).runner = .idle ∧
        ¬Pending (JobSystem.step automation (.runNextJob busy now)).jobs ∨
      automation.runner = .scheduling := by
  change (automation.runNextJob busy now).runner.Works ∨ automation.runner = .idle ∧
    (automation.runNextJob busy now).runner = .scheduling ∨
    (automation.runNextJob busy now).runner = .idle ∧ ¬Pending (automation.runNextJob busy now).jobs ∨ _
  unfold JobSystem.runNextJob
  cases runner : automation.runner with
  | idle =>
    dsimp only
    by_cases idle : automation.jobs.runningIds = []
    · rw [recoverOrphans_of_none idle]
      rcases admit_cases idle busy now with works | scheduling | done
      · exact .inl works
      · exact .inr (.inl ⟨rfl, scheduling⟩)
      · exact .inr (.inr (.inl done))
    · have some_ : (automation.jobs.recoverOrphans now).1 > 0 := by
        rw [recoverOrphans_count]
        exact List.length_pos_iff.mpr idle
      rw [if_pos some_]
      exact .inl trivial
  | scheduling => exact .inr (.inr (.inr rfl))
  | recycling => exact .inl (by rw [runner]; trivial)
  | starting job => exact .inl (by rw [runner]; trivial)
  | reading run => exact .inl (by rw [runner]; trivial)

/-- The steps of a job under way leave the runner at work or at its call to the scheduler. -/
theorem works_step (works : automation.runner.Works) (action : JobSystem.Action) (kept : action ≠ .restart)
    (recycled : ∀ failed busy now, action ≠ .recycled failed busy now) :
    (JobSystem.step automation action).runner.Works ∨ (JobSystem.step automation action).runner = .scheduling := by
  unfold JobSystem.step
  split
  · unfold JobSystem.submit
    split <;> exact .inl works
  · unfold JobSystem.cancel
    split <;> exact .inl works
  · unfold JobSystem.runNextJob
    split
    · rename_i idle
      rw [idle] at works
      exact works.elim
    · exact .inl works
  · exact absurd rfl (recycled _ _ _)
  · exact .inl trivial
  · exact .inr rfl
  · rename_i event now run reading
    cases event with
    | start id => exact .inl works
    | output stream id data =>
      unfold JobSystem.handle JobSystem.handleOutput
      dsimp only
      split
      · exact .inl works
      · split
        · exact .inl trivial
        · split
          · exact .inl trivial
          · exact .inr rfl
    | exit id exitCode => exact .inl trivial
  · exact .inr rfl
  · exact .inr rfl
  · rename_i scheduling
    rw [scheduling] at works
    exact works.elim
  · exact absurd rfl kept
  · exact .inl works

theorem unqueued_pending (idle : automation.jobs.runningIds = []) (unqueued : ¬Queued automation.jobs) :
    ¬Pending automation.jobs := by
  rintro ⟨row, member, queued | running⟩
  · exact unqueued ⟨row, member, queued⟩
  · exact runningIds_eq_nil.mp idle row member running

theorem idle_of_scheduling (holds : automation.Holds) (scheduling : automation.runner = .scheduling) :
    automation.jobs.runningIds = [] := by rwa [JobSystem.Holds, scheduling] at holds

theorem idle_of_recycling (holds : automation.Holds) (recycling : automation.runner = .recycling) :
    automation.jobs.runningIds = [] := by rwa [JobSystem.Holds, recycling] at holds

end Runner

/-! ## Steps -/

theorem job_automation (schedules : ScheduleSystem) (action : JobSystem.Action) :
    (ScheduleSystem.step number schedules (.job action)).automation = JobSystem.step schedules.automation action := by
  cases action with
  | restart =>
    change schedules.restart.automation = _
    unfold ScheduleSystem.restart
    dsimp only
    split <;> rfl
  | _ => rfl

/-- Where the runner came to its call to the scheduler. -/
theorem Holds.advanced (holds : system.Holds) {action : JobSystem.Action} {accepted : Bool} {left : Nat}
    (working : system.runner ≠ .scheduling)
    (other : ∀ input id now, action ≠ .submit input id now)
    (reached : (JobSystem.step system.schedules.automation action).runner = .scheduling)
    (allowed : arms system.schedules (ScheduleSystem.step number system.schedules (.job action)) (.job action) = true ∧
      accepted = false → 1 ≤ left ∨ ¬Queued system.jobs) :
    ¬Pending (JobSystem.step system.schedules.automation action).jobs ∨
      1 ≤ left + if (arms system.schedules (ScheduleSystem.step number system.schedules (.job action)) (.job action) &&
        accepted) = true then 1 else 0 := by
  have advance := JobSystem.advance_step holds.runner action
  have armed : arms system.schedules (ScheduleSystem.step number system.schedules (.job action)) (.job action) = true := by
    have spelled : arms system.schedules (ScheduleSystem.step number system.schedules (.job action)) (.job action) =
        (decide (system.schedules.automation.runner ≠ .scheduling) &&
          decide ((ScheduleSystem.step number system.schedules (.job action)).automation.runner = .scheduling)) := by
      cases action with
      | submit input id now => exact absurd rfl (other input id now)
      | _ => rfl
    rw [spelled, job_automation, reached]
    have other : system.schedules.automation.runner ≠ .scheduling := working
    simpa using other
  cases accepted with
  | true =>
    right
    rw [armed]
    simp
  | false =>
    rcases allowed ⟨armed, rfl⟩ with spare | unqueued
    · exact .inr (by omega)
    · left
      apply unqueued_pending (idle_of_scheduling advance.holds reached)
      intro queued
      exact unqueued (advance.evolves.queued (JobSystem.step_submissions _ _ other) queued)

/-- The actions that only go on with a job, or do nothing. -/
theorem Holds.others (holds : system.Holds) {action : JobSystem.Action} {accepted : Bool}
    (rested : ¬(JobSystem.step system.schedules.automation action).runner.Works)
    (settled : ¬Pending system.jobs → ¬Pending (JobSystem.step system.schedules.automation action).jobs)
    (submit : ∀ input id now, action ≠ .submit input id now) (kept : action ≠ .restart)
    (recycled : ∀ failed busy now, action ≠ .recycled failed busy now)
    (allowed : arms system.schedules (ScheduleSystem.step number system.schedules (.job action)) (.job action) = true ∧
      accepted = false → 1 ≤ system.entries ∨ ¬Queued system.jobs) :
    ¬Pending (JobSystem.step system.schedules.automation action).jobs ∨
      1 ≤ system.entries + if (arms system.schedules (ScheduleSystem.step number system.schedules (.job action))
        (.job action) && accepted) = true then 1 else 0 := by
  by_cases works : system.runner.Works
  · rcases works_step works action kept recycled with still | scheduling
    · exact absurd still rested
    · exact holds.advanced (fun same => by rw [same] at works; exact works) submit scheduling allowed
  · rcases holds.driven with work | done | armed
    · exact absurd work works
    · exact .inl (settled done)
    · exact .inr (by omega)

/-- A runner that is at work, or a queue without a job, or an entry among those that are left. -/
def Driven (automation : JobSystem) (left : Nat) : Prop :=
  automation.runner.Works ∨ ¬Pending automation.jobs ∨ 1 ≤ left

theorem driven_submit {automation : JobSystem} {input : SubmitJobInput} {id : Text} {now : Int} {accepted : Bool}
    {left : Nat} {armed : Bool} (driven : Driven automation left)
    (spelled : armed = match automation.jobs.submitJob input id now with
      | .ok (result, _) => decide (result.job.status = .queued)
      | .error _ => false)
    (allowed : armed = true → accepted = false → 1 ≤ left ∨ automation.runner.Works) :
    Driven (automation.submit input id now) (left + if (armed && accepted) = true then 1 else 0) := by
  unfold JobSystem.submit
  cases outcome : automation.jobs.submitJob input id now with
  | error failure => exact driven.imp_right (Or.imp_right fun spare => by omega)
  | ok result =>
    obtain ⟨result, jobs⟩ := result
    dsimp only
    rcases submitJob_queued outcome with queued | same
    · have armed_ : armed = true := by simp [spelled, outcome, queued]
      cases accepted with
      | true => exact .inr (.inr (by simp [armed_]))
      | false =>
        rcases allowed armed_ rfl with spare | works
        · exact .inr (.inr (by omega))
        · exact .inl works
    · subst same
      exact driven.imp_right (Or.imp_right fun spare => by omega)

theorem Holds.job (holds : system.Holds) (action : JobSystem.Action) (accepted : Bool)
    (enough : ¬system.entries < fires (.job action)) (allowed : system.Allowed number ⟨.job action, accepted⟩) :
    (step number system ⟨.job action, accepted⟩).Holds := by
  have advance := JobSystem.advance_step holds.runner action
  have driven : Driven system.schedules.automation system.entries := holds.driven
  obtain ⟨left, spelled⟩ : ∃ left, left = system.entries - fires (.job action) := ⟨_, rfl⟩
  unfold step
  rw [if_neg enough]
  refine ⟨by rw [job_automation]; exact advance.holds, ?_⟩
  change Driven (ScheduleSystem.step number system.schedules (.job action)).automation _
  rw [job_automation]
  dsimp only
  by_cases submit : ∃ input id now, action = .submit input id now
  · obtain ⟨input, id, now, rfl⟩ := submit
    exact @driven_submit _ _ _ _ _ system.entries _ driven rfl fun armed refused => allowed ⟨armed, refused⟩
  · have other : ∀ input id now, action ≠ .submit input id now := fun input id now same => submit ⟨input, id, now, same⟩
    have kept := JobSystem.step_submissions system.schedules.automation action other
    have settled : ¬Pending system.jobs → ¬Pending (JobSystem.step system.schedules.automation action).jobs :=
      fun done pending => done (advance.evolves.pending kept pending)
    rw [← spelled]
    by_cases rested : (JobSystem.step system.schedules.automation action).runner.Works
    · exact .inl rested
    · refine .inr ?_
      -- What holds of a queue without a runner holds of it still, if no entry was used up.
      have still : left = system.entries → ¬system.runner.Works →
          ¬Pending (JobSystem.step system.schedules.automation action).jobs ∨
            1 ≤ left + if (arms system.schedules (ScheduleSystem.step number system.schedules (.job action)) (.job action) &&
              accepted) = true then 1 else 0 := by
        intro same rests
        rcases holds.driven with works | done | armed
        · exact absurd works rests
        · exact .inl (settled done)
        · exact .inr (by omega)
      cases action with
      | submit input id now => exact absurd rfl (other input id now)
      | restart =>
        have guard : system.runner.Works → 1 ≤ system.entries - fires (.job .restart) ∨ ¬Pending system.jobs := allowed
        rw [← spelled] at guard
        by_cases works : system.runner.Works
        · rcases guard works with spare | done
          · exact .inr (by omega)
          · exact .inl (settled done)
        · exact still spelled works
      | recycled failed busy now =>
        by_cases recycling : system.runner = .recycling
        · have idle := idle_of_recycling holds.runner recycling
          cases failed with
          | true =>
            have guard : system.runner = .recycling → 1 ≤ system.entries - fires (.job (.recycled true busy now)) ∨
              ¬Queued system.jobs := allowed
            rw [← spelled] at guard
            rcases guard recycling with spare | unqueued
            · exact .inr (by omega)
            · exact .inl (settled (unqueued_pending idle unqueued))
          | false =>
            have guard : _ → 1 ≤ system.entries - fires (.job (.recycled false busy now)) ∨ ¬Queued system.jobs := allowed
            rw [← spelled] at guard
            rcases recycled_cases holds.runner recycling busy now with works | scheduling | ⟨-, done⟩
            · exact absurd works rested
            · exact holds.advanced (by rw [recycling]; decide) other scheduling guard
            · exact .inl done
        · have unchanged : JobSystem.step system.schedules.automation (.recycled failed busy now) =
              system.schedules.automation := by
            change system.schedules.automation.runner ≠ .recycling at recycling
            unfold JobSystem.step
            split <;> simp_all
          rw [unchanged] at rested
          exact still spelled rested
      | runNextJob busy now =>
        have guard : system.runner = .scheduling ∨ _ → 1 ≤ system.entries - fires (.job (.runNextJob busy now)) ∨
          ¬Queued system.jobs := allowed
        rw [← spelled] at guard
        rcases @runNextJob_cases system.schedules.automation busy now with works | ⟨idle, scheduling⟩ | ⟨-, done⟩ | waits
        · exact absurd works rested
        · exact holds.advanced (by rw [show system.runner = .idle from idle]; decide) other scheduling fun refused => guard (.inr refused)
        · exact .inl done
        · rcases guard (.inl waits) with spare | unqueued
          · exact .inr (by omega)
          · exact .inl (settled (unqueued_pending (idle_of_scheduling holds.runner waits) unqueued))
      | _ =>
        rw [spelled]
        exact holds.others rested settled other (fun same => by cases same) (fun _ _ _ same => by cases same) allowed

theorem automation_proceed (schedules : ScheduleSystem) (listed : List DueSchedule) (jobId : Text) (now : Int)
    (due : List DueSchedule) : (schedules.proceed listed jobId now due).automation = schedules.automation ∧
      submits (schedules.proceed listed jobId now due).pass = false ∨
    ∃ input, (schedules.proceed listed jobId now due).automation = schedules.automation.submit input jobId now ∧
      submits (schedules.proceed listed jobId now due).pass =
        match schedules.automation.jobs.submitJob input jobId now with
        | .ok (result, _) => decide (result.job.status = .queued)
        | .error _ => false := by
  cases due with
  | nil => exact .inl ⟨rfl, rfl⟩
  | cons due rest =>
    refine .inr ⟨{ command := some due.schedule.command, cwd := some due.schedule.cwd
                   idempotencyKey := some (slotKey due.schedule.id due.scheduledFor) }, ?_⟩
    rw [ScheduleSystem.proceed, JobSystem.submit]
    split
    · rename_i failure refused
      rw [refused]
      exact ⟨rfl, rfl⟩
    · rename_i result jobs accepted
      rw [accepted]
      exact ⟨rfl, rfl⟩

/-- What a step of the schedules does to the queue: a submission, or nothing. -/
theorem automation_step (schedules : ScheduleSystem) (action : ScheduleSystem.Action)
    (other : ∀ job, action ≠ .job job) :
    (ScheduleSystem.step number schedules action).automation = schedules.automation ∨
    ∃ input jobId now, (ScheduleSystem.step number schedules action).automation =
        schedules.automation.submit input jobId now ∧
      arms schedules (ScheduleSystem.step number schedules action) action =
        match schedules.automation.jobs.submitJob input jobId now with
        | .ok (result, _) => decide (result.job.status = .queued)
        | .error _ => false := by
  cases action with
  | job job => exact absurd rfl (other job)
  | create input id now => exact .inl rfl
  | delete id => exact .inl rfl
  | setEnabled id enabled now => exact .inl rfl
  | rejected =>
    left
    change schedules.rejected.automation = _
    unfold ScheduleSystem.rejected
    split <;> rfl
  | alarm jobId now =>
    change (schedules.runScheduledJobs jobId now).automation = _ ∨ ∃ input id time,
      (schedules.runScheduledJobs jobId now).automation = _ ∧
        (decide (schedules.pass = .idle) && submits (schedules.runScheduledJobs jobId now).pass) = _
    unfold ScheduleSystem.runScheduledJobs
    split
    · rename_i idle
      rcases automation_proceed schedules (listDueSchedules schedules.schedules now) jobId now
        (listDueSchedules schedules.schedules now) with ⟨same, -⟩ | ⟨input, submitted, waits⟩
      · exact .inl same
      · refine .inr ⟨input, jobId, now, submitted, ?_⟩
        rw [decide_eq_true idle, Bool.true_and]
        exact waits
    · exact .inl rfl
  | answered jobId now =>
    change (schedules.answered number jobId now).automation = _ ∨ ∃ input id time,
      (schedules.answered number jobId now).automation = _ ∧ submits (schedules.answered number jobId now).pass = _
    unfold ScheduleSystem.answered
    split
    · exact .inl rfl
    · split
      · exact .inl rfl
      · rename_i table stored
        rcases automation_proceed { schedules with schedules := table } _ jobId now _ with ⟨same, -⟩ | ⟨input, submitted, waits⟩
        · exact .inl same
        · exact .inr ⟨input, jobId, now, submitted, waits⟩
    · exact .inl rfl

theorem Holds.step (holds : system.Holds) (action : Action) (allowed : system.Allowed number action) :
    (step number system action).Holds := by
  obtain ⟨action, accepted⟩ := action
  by_cases enough : system.entries < fires action
  · unfold QueueSystem.step
    rw [if_pos enough]
    exact holds
  · by_cases job : ∃ job, action = .job job
    · obtain ⟨job, rfl⟩ := job
      exact holds.job job accepted enough allowed
    · have other : ∀ job, action ≠ .job job := fun own same => job ⟨own, same⟩
      have unused : fires action = 0 := by
        cases action with
        | job own => exact absurd rfl (other own)
        | _ => rfl
      have guard : arms system.schedules (ScheduleSystem.step number system.schedules action) action = true →
          accepted = false → 1 ≤ system.entries ∨ system.runner.Works := by
        intro armed refused
        cases action with
        | job own => exact absurd rfl (other own)
        | _ => exact allowed ⟨armed, refused⟩
      have driven : Driven system.schedules.automation system.entries := holds.driven
      unfold QueueSystem.step
      rw [if_neg enough]
      dsimp only
      rw [unused, Nat.sub_zero]
      rcases @automation_step number system.schedules action other with same | ⟨input, jobId, now, submitted, armed⟩
      · refine ⟨?_, ?_⟩
        · change (ScheduleSystem.step number system.schedules action).automation.Holds
          rw [same]
          exact holds.runner
        · change Driven (ScheduleSystem.step number system.schedules action).automation _
          rw [same]
          exact driven.imp_right (Or.imp_right fun spare => Nat.le_add_right_of_le spare)
      · refine ⟨?_, ?_⟩
        · change (ScheduleSystem.step number system.schedules action).automation.Holds
          rw [submitted]
          exact (JobSystem.advance_submit holds.runner input jobId now).holds
        · change Driven (ScheduleSystem.step number system.schedules action).automation _
          rw [submitted]
          exact driven_submit driven armed guard

/-! ## Runs -/

theorem holds_initial : initial.Holds := by
  refine ⟨Nat.zero_le 1, .inr (.inl ?_)⟩
  rintro ⟨row, member, -⟩
  cases member

/-- In every state between two steps, a job that is queued or left running has an entry for the runner. -/
theorem never_stranded {actions : List Action} (guarded : Guarded (step number) (Allowed number) initial actions)
    {reached : List Action} (earlier : reached <+: actions) : (run (step number) initial reached).Armed := by
  have kept : ∀ (system : QueueSystem) (action : Action), system.Holds → system.Allowed number action →
      (QueueSystem.step number system action).Holds := fun _ action holds allowed => holds.step action allowed
  exact (run_invariant_reached kept holds_initial guarded earlier).armed

instance (number : Text → Option Int) (system : QueueSystem) (action : Action) : Decidable (system.Allowed number action) := by
  unfold Allowed
  dsimp only
  split <;> infer_instance

def quiet : Text → Option Int := fun _ => none

/-- A client submits a job. -/
def submitted (key : String) : ScheduleSystem.Action :=
  .job (.submit { command := some "make".toList, cwd := some ['/'], idempotencyKey := some key.toList } key.toList 1)

def callback : Action := ⟨.job (.runNextJob false 2), true⟩

/-- A job that was claimed, up to its end and the runner's call to the scheduler. -/
def finished : List Action :=
  [⟨.job .accepted, true⟩, ⟨.job (.event (.exit "e".toList 0) 3), true⟩, ⟨.job (.ended 4), true⟩]

/-- One job from its submission to its end, with the calls of the scheduler in between. -/
def oneJob : List Action := [⟨submitted "a", true⟩, callback] ++ finished ++ [⟨.job .scheduled, true⟩, callback]

theorem never_stranded_oneJob : (run (step quiet) initial (oneJob.take 1)).Armed ∧
    (run (step quiet) initial oneJob).Armed := by
  have guarded : Guarded (step quiet) (Allowed quiet) initial oneJob := by decide +kernel
  exact ⟨never_stranded guarded (List.take_prefix 1 oneJob), never_stranded guarded List.prefix_rfl⟩

/-- The process restarts while the job runs. -/
def restarted : List Action := [⟨submitted "a", true⟩, callback, ⟨.job .restart, true⟩]

/-- The container of an orphaned job cannot be destroyed while the next job waits. -/
def undestroyed : List Action :=
  [⟨submitted "a", true⟩, callback, ⟨submitted "b", true⟩, ⟨.job .restart, true⟩, callback,
    ⟨.job (.recycled true false 3), true⟩]

/-- Both entries call back while the runner waits for the scheduler. -/
def overtaken : List Action :=
  [⟨submitted "a", true⟩, callback, ⟨submitted "b", true⟩] ++ finished ++ [callback, callback, ⟨.job .scheduled, true⟩]

theorem jobs_stranded : ¬(run (step quiet) initial [⟨submitted "a", false⟩]).Armed ∧
    ¬(run (step quiet) initial restarted).Armed ∧ ¬(run (step quiet) initial undestroyed).Armed ∧
    ¬(run (step quiet) initial overtaken).Armed := by
  decide +kernel

end QueueSystem

end AiryFS
