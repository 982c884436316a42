import AiryFS.Foundation.Utf8
import AiryFS.Snapshots.Storage
import Mathlib.Data.List.MinMax

/-! The tables of queued commands, and the statements that move a job from one status to the next. -/

set_option autoImplicit false

namespace AiryFS

open Foundation

namespace Jobs

def MAX_OUTPUT_BYTES : Nat := 50 * 1024 * 1024
def MAX_IDEMPOTENCY_KEY_BYTES : Nat := 255

inductive JobStatus where
  | queued | running | succeeded | failed | canceled | unknown
  deriving DecidableEq, Repr

def TERMINAL_STATUSES : List JobStatus := [.succeeded, .failed, .canceled, .unknown]

inductive JobStream where
  | stdout | stderr
  deriving DecidableEq, Repr

/-- A row of `fs_job`. -/
structure JobRow where
  id : Text
  idempotencyKey : Text
  command : Text
  cwd : Text
  status : JobStatus
  execId : Option Text
  exitCode : Option Int
  error : Option Text
  cancelRequested : Nat
  outputBytes : Nat
  outputTruncated : Nat
  createdAt : Int
  updatedAt : Int
  startedAt : Option Int
  finishedAt : Option Int
  deriving DecidableEq

/-- A row of `fs_job_log`. -/
structure JobLogRow where
  jobId : Text
  seq : Nat
  stream : JobStream
  data : Bytes
  timestamp : Int
  deriving DecidableEq

/-- `PRIMARY KEY (job_id, seq)`. -/
def JobLogRow.key (row : JobLogRow) : Text × Nat := (row.jobId, row.seq)

structure JobDto where
  id : Text
  idempotencyKey : Text
  command : Text
  cwd : Text
  status : JobStatus
  execId : Option Text
  exitCode : Option Int
  error : Option Text
  cancelRequested : Bool
  outputBytes : Nat
  outputTruncated : Bool
  createdAt : Int
  updatedAt : Int
  startedAt : Option Int
  finishedAt : Option Int
  deriving DecidableEq

def toJobDto (row : JobRow) : JobDto :=
  { id := row.id, idempotencyKey := row.idempotencyKey, command := row.command, cwd := row.cwd, status := row.status,
    execId := row.execId, exitCode := row.exitCode, error := row.error, cancelRequested := row.cancelRequested != 0,
    outputBytes := row.outputBytes, outputTruncated := row.outputTruncated != 0, createdAt := row.createdAt,
    updatedAt := row.updatedAt, startedAt := row.startedAt, finishedAt := row.finishedAt }

/-! ## Validation

A field of the request is `none` when it is not a string. -/

def invalidArgument (message : String) : Failure := .http 400 "INVALID_ARGUMENT" message

def validateCommand (value : Option Text) : Except Failure Text := do
  let command ← required value (invalidArgument "Missing \"command\" string")
  refuse (SnapshotStorage.trim command = []) (invalidArgument "Missing \"command\" string")
  return command

/-- The segments of an absolute path, with `.` and `..` resolved. -/
@[grind =]
def resolveSegments (segments : List Text) : List Text → List Text
  | [] => segments
  | segment :: rest =>
    if segment = [] ∨ segment = ['.'] then resolveSegments segments rest
    else if segment = ['.', '.'] then resolveSegments segments.dropLast rest
    else resolveSegments (segments ++ [segment]) rest

def validateCwd (value : Option Text) : Except Failure Text := do
  let cwd ← required value (invalidArgument "cwd must be an absolute path")
  refuse (cwd.head? ≠ some '/') (invalidArgument "cwd must be an absolute path")
  return '/' :: ['/'].intercalate (resolveSegments [] (cwd.splitOn '/'))

def validateIdempotencyKey (value : Option Text) : Except Failure Text := do
  let key ← required value (invalidArgument "Missing \"Idempotency-Key\"")
  refuse (SnapshotStorage.trim key = []) (invalidArgument "Missing \"Idempotency-Key\"")
  refuse ((Utf8.encode key).length > MAX_IDEMPOTENCY_KEY_BYTES)
    (invalidArgument s!"Idempotency-Key exceeds {MAX_IDEMPOTENCY_KEY_BYTES} bytes")
  return key

structure SubmitJobInput where
  command : Option Text
  cwd : Option Text
  idempotencyKey : Option Text
  deriving DecidableEq

structure SubmitJobResult where
  job : JobDto
  created : Bool
  deriving DecidableEq

structure CancelResult where
  job : JobDto
  changed : Bool
  /-- The command to signal when a running job is to be canceled. -/
  execToCancel : Option Text
  deriving DecidableEq

/-- `FinalizeInput`. -/
structure Outcome where
  status : JobStatus
  exitCode : Option Int
  error : Option Text
  outputBytes : Nat
  outputTruncated : Bool
  terminal : status ∈ TERMINAL_STATUSES

end Jobs

open Jobs

/-- `fs_job`, its rows in the order of their rowids, and `fs_job_log`. -/
structure Jobs where
  job : Table JobRow.id
  log : Table JobLogRow.key
  deriving DecidableEq

namespace Jobs

variable (jobs : Jobs)

def selectById (id : Text) : Option JobRow := jobs.job.find? id

def selectByKey (key : Text) : Option JobRow := jobs.job.rows.find? fun row => row.idempotencyKey = key

/-- `INSERT INTO fs_job`: both the id and the idempotency key are unique. -/
def insert (row : JobRow) : Except Failure Jobs := do
  refuse (∃ other ∈ jobs.job.rows, other.idempotencyKey = row.idempotencyKey) (.constraint "fs_job")
  let job ← required (jobs.job.insert? row) (.constraint "fs_job")
  return { jobs with job }

/-- `UPDATE fs_job` of the selected rows. -/
def update (selected : JobRow → Bool) (change : JobRow → JobRow) (same : ∀ row, (change row).id = row.id) : Jobs :=
  { jobs with
    job := jobs.job.modify (fun row => if selected row then change row else row) fun row => by
      split
      · exact same row
      · rfl }

/-! ## Submission -/

def submitJob (input : SubmitJobInput) (id : Text) (now : Int) : Except Failure (SubmitJobResult × Jobs) := do
  let command ← validateCommand input.command
  let cwd ← validateCwd input.cwd
  let idempotencyKey ← validateIdempotencyKey input.idempotencyKey
  match jobs.selectByKey idempotencyKey with
  | some existing =>
    refuse (existing.command ≠ command ∨ existing.cwd ≠ cwd)
      (.http 409 "IDEMPOTENCY_CONFLICT" "Idempotency-Key is already associated with a different command")
    return ({ job := toJobDto existing, created := false }, jobs)
  | none =>
    let jobs ← jobs.insert
      { id, idempotencyKey, command, cwd, status := .queued, execId := none, exitCode := none, error := none,
        cancelRequested := 0, outputBytes := 0, outputTruncated := 0, createdAt := now, updatedAt := now,
        startedAt := none, finishedAt := none }
    let created ← required (jobs.selectById id) (.error "Job row vanished immediately after creation")
    return ({ job := toJobDto created, created := true }, jobs)

/-! ## The state machine -/

/-- What happens to a row that a crashed generation left running. -/
def interrupt (now : Int) (row : JobRow) : JobRow :=
  { row with status := .unknown, error := some "interrupted".toList, finishedAt := some now, updatedAt := now }

theorem interrupt_id (now : Int) (row : JobRow) : (interrupt now row).id = row.id := rfl

/-- The number of rows that were still running, and the tables without any. -/
def recoverOrphans (now : Int) : Nat × Jobs :=
  let running := jobs.job.rows.filter fun row => row.status = .running
  (running.length, running.foldl (fun jobs orphan =>
    jobs.update (fun row => row.id = orphan.id && row.status = .running) (interrupt now) (interrupt_id now)) jobs)

/-- `ORDER BY created_at ASC, rowid ASC LIMIT 1` over the queued rows. -/
def oldestQueued : Option JobRow :=
  @List.argmin JobRow Int Int.instLinearOrder.toPreorder Int.decLt JobRow.createdAt (jobs.job.rows.filter fun row => row.status = .queued)

def claimNextJob (now : Int) : Option JobRow × Jobs :=
  match jobs.oldestQueued with
  | none => (none, jobs)
  | some row =>
    let jobs := jobs.update (fun other => other.id = row.id && other.status = .queued)
      (fun row => { row with status := .running, startedAt := some now, updatedAt := now }) fun _ => rfl
    ((jobs.selectById row.id).filter fun claimed => claimed.status = .running, jobs)

def setExecId (id execId : Text) (now : Int) : Jobs :=
  jobs.update (fun row => row.id = id) (fun row => { row with execId := some execId, updatedAt := now }) fun _ => rfl

def appendJobLog (row : JobLogRow) : Except Failure Jobs := do
  let log ← required (jobs.log.insert? row) (.constraint "fs_job_log")
  return { jobs with log }

def finalizeJob (id : Text) (outcome : Outcome) (now : Int) : Jobs :=
  jobs.update (fun row => row.id = id) (fun row =>
    { row with
      status := outcome.status, exitCode := outcome.exitCode, error := outcome.error, outputBytes := outcome.outputBytes
      outputTruncated := if outcome.outputTruncated then 1 else 0, finishedAt := some now, updatedAt := now }) fun _ => rfl

def requestCancel (id : Text) (now : Int) : Except Failure (CancelResult × Jobs) := do
  let row ← required (jobs.selectById id) (.http 404 "JOB_NOT_FOUND" s!"No job with id {String.ofList id}")
  match row.status with
  | .queued =>
    let jobs := jobs.update (fun other => other.id = id && other.status = .queued)
      (fun row => { row with status := .canceled, cancelRequested := 1, finishedAt := some now, updatedAt := now })
      fun _ => rfl
    return ({ job := toJobDto ((jobs.selectById id).getD row), changed := true, execToCancel := none }, jobs)
  | .running =>
    let already := row.cancelRequested != 0
    let jobs := if already then jobs else
      jobs.update (fun other => other.id = id) (fun row => { row with cancelRequested := 1, updatedAt := now }) fun _ => rfl
    let updated := (jobs.selectById id).getD row
    return ({ job := toJobDto updated, changed := !already, execToCancel := updated.execId }, jobs)
  | _ => return ({ job := toJobDto row, changed := false, execToCancel := none }, jobs)

end Jobs

end AiryFS
