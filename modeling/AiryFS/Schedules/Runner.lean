import AiryFS.Schedules.Cron
import Mathlib.Data.List.Sort

/-! The table of schedules and the runner that submits what is due, beside everything that reaches
the job table.

Everything between two awaits is one step. The runner lists the due schedules once and then
goes through its list: submit the job of the slot, wait for the scheduler, advance the
schedule. Requests arrive while it waits, and a restart forgets it.
-/

set_option autoImplicit false

namespace AiryFS

open Foundation

namespace Schedules

/-- A row of `fs_job_schedule`. -/
structure JobSchedule where
  id : Text
  name : Text
  cron : Text
  command : Text
  cwd : Text
  enabled : Bool
  nextRun : Option Int
  lastRun : Option Int
  createdAt : Int
  deriving DecidableEq

/-- The body of a request. A field is `none` where it is not a string. -/
structure ScheduleInput where
  name : Option Text
  cron : Option Text
  command : Option Text
  /-- Absent or null is the root. -/
  cwd : Option (Option Text)
  deriving DecidableEq

structure DueSchedule where
  schedule : JobSchedule
  scheduledFor : Int
  deriving DecidableEq

abbrev ScheduleTable := Table JobSchedule.id

variable (number : Text → Option Int)

def createSchedule (table : ScheduleTable) (input : ScheduleInput) (id : Text) (now : Int) :
    Except Failure (JobSchedule × ScheduleTable) := do
  let name ← required input.name (Jobs.invalidArgument "name must be a non-empty string")
  let name := SnapshotStorage.trim name
  refuse (name = []) (Jobs.invalidArgument "name must be a non-empty string")
  let cron ← required input.cron (invalidCron "cron must be a string")
  let (expression, _) ← parseCron number cron
  let command ← Jobs.validateCommand input.command
  let cwd ← Jobs.validateCwd (input.cwd.getD (some ['/']))
  refuse (∃ row ∈ table.rows, row.name = name)
    (.http 409 "SCHEDULE_EXISTS" s!"Schedule already exists: {String.ofList name}")
  let next ← nextCronTime number expression now
  let row : JobSchedule :=
    { id, name, cron := expression, command, cwd, enabled := true, nextRun := some next, lastRun := none, createdAt := now }
  let table ← required (table.insert? row) (.constraint "fs_job_schedule")
  return (row, table)

def deleteSchedule (table : ScheduleTable) (id : Text) : Bool × ScheduleTable :=
  ((table.find? id).isSome, table.erase id)

/-- `UPDATE fs_job_schedule SET enabled = ?, next_run = ? WHERE id = ?`. -/
def storeEnabled (id : Text) (enabled : Bool) (next : Option Int) (row : JobSchedule) : JobSchedule :=
  if row.id = id then { row with enabled, nextRun := next } else row

theorem storeEnabled_id (id : Text) (enabled : Bool) (next : Option Int) (row : JobSchedule) :
    (storeEnabled id enabled next row).id = row.id := by
  unfold storeEnabled
  split <;> rfl

def setScheduleEnabled (table : ScheduleTable) (id : Text) (enabled : Bool) (now : Int) :
    Except Failure (JobSchedule × ScheduleTable) := do
  let row ← required (table.find? id) (.http 404 "SCHEDULE_NOT_FOUND" s!"Unknown schedule: {String.ofList id}")
  let next ← if enabled then some <$> nextCronTime number row.cron now else pure none
  return (storeEnabled id enabled next row, table.modify (storeEnabled id enabled next) (storeEnabled_id id enabled next))

/-- `ORDER BY next_run, id`. -/
def DueSchedule.before (first second : DueSchedule) : Prop :=
  first.scheduledFor < second.scheduledFor ∨
    first.scheduledFor = second.scheduledFor ∧ ¬second.schedule.id < first.schedule.id

instance : DecidableRel DueSchedule.before := fun first second =>
  inferInstanceAs (Decidable (first.scheduledFor < second.scheduledFor ∨
    first.scheduledFor = second.scheduledFor ∧ ¬second.schedule.id < first.schedule.id))

/-- The slot of an enabled row that has come. -/
def dueSlot (now : Int) (row : JobSchedule) : Option DueSchedule :=
  match row.enabled, row.nextRun with
  | true, some next => if next ≤ now then some ⟨row, next⟩ else none
  | _, _ => none

def listDueSchedules (table : ScheduleTable) (now : Int) : List DueSchedule :=
  (table.rows.filterMap (dueSlot now)).insertionSort DueSchedule.before

/-- `UPDATE … WHERE id = ? AND enabled = 1 AND next_run = ?`. -/
def storeAdvance (due : DueSchedule) (next : Int) (row : JobSchedule) : JobSchedule :=
  if row.id = due.schedule.id ∧ row.enabled = true ∧ row.nextRun = some due.scheduledFor
  then { row with lastRun := some due.scheduledFor, nextRun := some next } else row

theorem storeAdvance_id (due : DueSchedule) (next : Int) (row : JobSchedule) : (storeAdvance due next row).id = row.id := by
  unfold storeAdvance
  split <;> rfl

def advanceSchedule (table : ScheduleTable) (due : DueSchedule) : Except Failure ScheduleTable := do
  let next ← nextCronTime number due.schedule.cron due.scheduledFor
  return table.modify (storeAdvance due next) (storeAdvance_id due next)

/-- `min(next_run)` over the enabled rows, from now on. -/
def nextScheduleDelay (table : ScheduleTable) (now : Int) : Option Int :=
  (table.rows.filterMap fun row => if row.enabled then row.nextRun else none).min?.map fun next => max 0 (next - now)

/-- The idempotency key of a slot. -/
def slotKey (id : Text) (scheduledFor : Int) : Text :=
  "schedule:".toList ++ id ++ ':' :: (toString scheduledFor).toList

/-- Where `runScheduledJobs` waits, while `scheduleRunnerActive` is set. `waits` says that the
scheduler was called, and may refuse. -/
inductive Pass where
  | idle
  | submitting (listed : List DueSchedule) (due : DueSchedule) (rest : List DueSchedule) (waits : Bool)
  | arming (listed : List DueSchedule) (waits : Bool)
  deriving DecidableEq

/-- How a pass over the due schedules ended. -/
inductive PassEnd where
  | completed (listed : List DueSchedule)
  /-- The scheduler refused, or the process stopped. -/
  | interrupted
  /-- The submission or the advance threw. -/
  | refused (failure : Failure)
  deriving DecidableEq

end Schedules

open Schedules

structure ScheduleSystem where
  automation : JobSystem
  schedules : ScheduleTable
  pass : Pass
  /-- How every pass so far ended. -/
  passes : List PassEnd
  /-- Every id that was drawn for a schedule. -/
  drawn : List Text
  deriving DecidableEq

namespace ScheduleSystem

def initial : ScheduleSystem := ⟨.initial, .empty, .idle, [], []⟩

inductive Action where
  | job (action : JobSystem.Action)
  | create (input : ScheduleInput) (id : Text) (now : Int)
  | delete (id : Text)
  | setEnabled (id : Text) (enabled : Bool) (now : Int)
  /-- The callback `runScheduledJobs`. `jobId` is drawn where a job is inserted. -/
  | alarm (jobId : Text) (now : Int)
  /-- What the runner waits for has returned. -/
  | answered (jobId : Text) (now : Int)
  | rejected
  deriving DecidableEq

variable (number : Text → Option Int) (system : ScheduleSystem)

def finish (ended : PassEnd) : ScheduleSystem := { system with pass := .idle, passes := system.passes ++ [ended] }

/-- The loop over the due schedules, up to its next await. -/
def proceed (listed : List DueSchedule) (jobId : Text) (now : Int) : List DueSchedule → ScheduleSystem
  | [] => { system with pass := .arming listed (nextScheduleDelay system.schedules now).isSome }
  | due :: rest =>
    match system.automation.jobs.submitJob
      { command := some due.schedule.command, cwd := some due.schedule.cwd
        idempotencyKey := some (slotKey due.schedule.id due.scheduledFor) } jobId now with
    | .error failure => system.finish (.refused failure)
    | .ok (result, jobs) =>
      { system with
        automation := { system.automation with jobs }
        pass := .submitting listed due rest (result.job.status = .queued) }

def runScheduledJobs (jobId : Text) (now : Int) : ScheduleSystem :=
  match system.pass with
  | .idle =>
    let listed := listDueSchedules system.schedules now
    system.proceed listed jobId now listed
  | _ => system

def answered (jobId : Text) (now : Int) : ScheduleSystem :=
  match system.pass with
  | .idle => system
  | .submitting listed due rest _ =>
    match advanceSchedule number system.schedules due with
    | .error failure => system.finish (.refused failure)
    | .ok schedules => proceed { system with schedules } listed jobId now rest
  | .arming listed _ => system.finish (.completed listed)

def rejected : ScheduleSystem :=
  match system.pass with
  | .submitting _ _ _ true => system.finish .interrupted
  | .arming _ true => system.finish .interrupted
  | _ => system

def restart : ScheduleSystem :=
  let system := { system with automation := JobSystem.step system.automation .restart }
  match system.pass with
  | .idle => system
  | _ => system.finish .interrupted

/-- A request that is refused leaves the tables as they are. -/
def step (system : ScheduleSystem) (action : Action) : ScheduleSystem :=
  match action with
  | .job .restart => system.restart
  | .job action => { system with automation := JobSystem.step system.automation action }
  | .create input id now =>
    let schedules := settle system.schedules ((createSchedule number system.schedules input id now).map Prod.snd)
    { system with schedules, drawn := system.drawn ++ [id] }
  | .delete id => { system with schedules := (deleteSchedule system.schedules id).2 }
  | .setEnabled id enabled now =>
    let schedules := settle system.schedules ((setScheduleEnabled number system.schedules id enabled now).map Prod.snd)
    { system with schedules }
  | .alarm jobId now => system.runScheduledJobs jobId now
  | .answered jobId now => system.answered number jobId now
  | .rejected => system.rejected

end ScheduleSystem

end AiryFS
