import AiryFS.Foundation.Runs
import AiryFS.Jobs.Queue

/-! The queue runner of a durable object, with what else reaches the job table while it waits.

Everything between two awaits is one step. A restart forgets the runner and keeps the tables.
-/

set_option autoImplicit false

namespace AiryFS

open Foundation

namespace Jobs

/-! ## Commands and errors -/

/-- The characters that need no quotes: letters, digits and `_@%+=:,/.-`. -/
def plainCharacter (character : Char) : Bool := character.isAlphanum || character ∈ "_@%+=:,/.-".toList

def apostrophe : Char := Char.ofNat 39

/-- An apostrophe leaves the quotes, stands in quotes of the other kind, and enters them again. -/
def shellQuote (value : Text) : Text :=
  if value ≠ [] ∧ value.all plainCharacter then value
  else
    let quoted := value.flatMap fun character =>
      if character = apostrophe then [apostrophe, '"', apostrophe, '"', apostrophe] else [character]
    apostrophe :: quoted ++ [apostrophe]

def composeJobCommand (command cwd : Text) : Text :=
  let mountPath := if cwd = ['/'] then "/volume".toList else "/volume".toList ++ cwd
  "cd -- ".toList ++ shellQuote mountPath ++ " && ".toList ++ command

/-- `slice(0, count)`: half of a pair is stored as the replacement character. -/
def sliceUnits : Nat → Text → Text
  | _, [] => []
  | 0, _ => []
  | 1, character :: _ => if character.toNat > 0xFFFF then [Char.ofNat 0xFFFD] else [character]
  | count + 2, character :: rest =>
    if character.toNat > 0xFFFF then character :: sliceUnits count rest else character :: sliceUnits (count + 1) rest

def conciseError (error : Failure) : Text :=
  if utf16Length error.text > 500 then sliceUnits 497 error.text ++ "...".toList else error.text

/-- `toLowerCase`, of the characters that become a letter from a to z. -/
def lowerCase (character : Char) : Char := if character.toNat = 0x212A then 'k' else character.toLower

def isUnknownOutcome (error : Failure) : Bool :=
  (match error with
    | .http _ code _ => code = "COMMAND_OUTCOME_UNKNOWN"
    | _ => false) ||
  decide ("outcome is unknown".toList <:+: (conciseError error).map lowerCase)

/-! ## The runner -/

/-- An event of the container, its output decoded. -/
inductive ExecEvent where
  | start (id : Text)
  | output (stream : JobStream) (id : Text) (data : Bytes)
  | exit (id : Text) (exitCode : Int)
  deriving DecidableEq

/-- The variables of `runJob`. -/
structure JobRun where
  job : JobRow
  seq : Nat
  outputBytes : Nat
  truncated : Bool
  exitCode : Option Int
  deriving DecidableEq

/-- What `runNextJob` waits for, while `jobRunning` is set. -/
inductive Runner where
  | idle
  /-- `destroyContainer`. -/
  | recycling
  /-- `execStream`. -/
  | starting (job : JobRow)
  /-- The next event of the stream. -/
  | reading (run : JobRun)
  /-- `scheduleJobRun`. -/
  | scheduling
  deriving DecidableEq

end Jobs

open Jobs

structure JobSystem where
  jobs : Jobs
  runner : Runner
  /-- Every job whose command was handed to `execStream`, with what was handed over. -/
  started : List (Text × Text)
  /-- Every command that was signalled. -/
  signalled : List Text
  deriving DecidableEq

namespace JobSystem

def initial : JobSystem := ⟨⟨.empty, .empty⟩, .idle, [], []⟩

inductive Action where
  | submit (input : SubmitJobInput) (id : Text) (now : Int)
  | cancel (id : Text) (now : Int)
  /-- The scheduled callback. `busy` is `activeExec || destroyPromise`. -/
  | runNextJob (busy : Bool) (now : Int)
  | recycled (failed busy : Bool) (now : Int)
  | accepted
  | rejected (error : Failure) (now : Int)
  | event (event : ExecEvent) (now : Int)
  /-- The stream, its decoder or a handler throws. -/
  | broken (error : Failure) (now : Int)
  | ended (now : Int)
  | scheduled
  | restart
  deriving DecidableEq

variable (system : JobSystem)

def submit (input : SubmitJobInput) (id : Text) (now : Int) : JobSystem :=
  match system.jobs.submitJob input id now with
  | .ok (_, jobs) => { system with jobs }
  | .error _ => system

def cancel (id : Text) (now : Int) : JobSystem :=
  match system.jobs.requestCancel id now with
  | .ok (result, jobs) => { system with jobs, signalled := system.signalled ++ result.execToCancel.toList }
  | .error _ => system

/-- `runJob` up to its first await. -/
def runJob (jobId : Text) : JobSystem :=
  match system.jobs.selectById jobId with
  | none => { system with runner := .scheduling }
  | some job =>
    if job.status ≠ .running then { system with runner := .scheduling }
    else
      { system with
        runner := .starting job
        started := system.started ++ [(jobId, composeJobCommand job.command job.cwd)] }

/-- `runNextJob` after the recovery. -/
def claimAndRun (busy : Bool) (now : Int) : JobSystem :=
  if busy then { system with runner := .scheduling }
  else
    match system.jobs.claimNextJob now with
    | (none, jobs) => { system with jobs, runner := .idle }
    | (some claimed, jobs) => runJob { system with jobs } claimed.id

def runNextJob (busy : Bool) (now : Int) : JobSystem :=
  match system.runner with
  | .idle =>
    let (recovered, jobs) := system.jobs.recoverOrphans now
    if recovered > 0 then { system with jobs, runner := .recycling }
    else claimAndRun { system with jobs } busy now
  | _ => system

/-- `runJob` ends with a terminal row, and the queue is advanced. -/
def finish (id : Text) (outcome : Outcome) (now : Int) : JobSystem :=
  { system with jobs := system.jobs.finalizeJob id outcome now, runner := .scheduling }

/-- The two `catch` blocks of `runJob`. -/
def fail (run : JobRun) (error : Failure) (now : Int) : JobSystem :=
  system.finish run.job.id
    { status := if isUnknownOutcome error then .unknown else .failed
      exitCode := run.exitCode, error := some (conciseError error)
      outputBytes := run.outputBytes, outputTruncated := run.truncated
      terminal := by split <;> decide } now

/-- A run before its first event. -/
def newRun (job : JobRow) : JobRun := { job, seq := 0, outputBytes := 0, truncated := false, exitCode := none }

/-- A log row of the run, cut to what the cap leaves. -/
def handleOutput (run : JobRun) (stream : JobStream) (data : Bytes) (now : Int) : JobSystem :=
  if data = [] ∨ run.truncated then system
  else
    let remaining := MAX_OUTPUT_BYTES - run.outputBytes
    let kept := data.take remaining
    let run' := { run with truncated := decide (remaining < data.length) }
    if kept = [] then { system with runner := .reading run' }
    else
      match system.jobs.appendJobLog { jobId := run.job.id, seq := run.seq, stream, data := kept, timestamp := now } with
      | .ok jobs =>
        { system with
          jobs, runner := .reading { run' with seq := run.seq + 1, outputBytes := run.outputBytes + kept.length } }
      | .error failure => system.fail run failure now

def handle (run : JobRun) (event : ExecEvent) (now : Int) : JobSystem :=
  match event with
  | .start id =>
    let jobs := system.jobs.setExecId run.job.id id now
    let canceled := (jobs.selectById run.job.id).any fun row => row.cancelRequested != 0
    { system with jobs, signalled := if canceled then system.signalled ++ [id] else system.signalled }
  | .output stream _ data => system.handleOutput run stream data now
  | .exit _ exitCode => { system with runner := .reading { run with exitCode := some exitCode } }

/-- `runJob` after the last event. -/
def conclude (run : JobRun) (now : Int) : JobSystem :=
  let canceled := ((system.jobs.selectById run.job.id).getD run.job).cancelRequested != 0
  let status := if canceled then .canceled else if run.exitCode = some 0 then .succeeded
    else if run.exitCode = none then .unknown else .failed
  let error := if canceled ∨ run.exitCode ≠ none then none
    else some "Command outcome is unknown because the stream ended without an exit event".toList
  system.finish run.job.id
    { status, exitCode := run.exitCode, error, outputBytes := run.outputBytes, outputTruncated := run.truncated
      terminal := by
        dsimp only [status]
        split
        · decide
        · split
          · decide
          · split <;> decide } now

def step (system : JobSystem) (action : Action) : JobSystem :=
  match action, system.runner with
  | .submit input id now, _ => system.submit input id now
  | .cancel id now, _ => system.cancel id now
  | .runNextJob busy now, _ => system.runNextJob busy now
  | .recycled failed busy now, .recycling => if failed then { system with runner := .idle } else system.claimAndRun busy now
  | .accepted, .starting job => { system with runner := .reading (newRun job) }
  | .rejected error now, .starting job => system.fail (newRun job) error now
  | .event event now, .reading run => system.handle run event now
  | .broken error now, .reading run => system.fail run error now
  | .ended now, .reading run => system.conclude run now
  | .scheduled, .scheduling => { system with runner := .idle }
  | .restart, _ => { system with runner := .idle }
  | _, _ => system

end JobSystem

end AiryFS
