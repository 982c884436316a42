import AiryFS.Storage.Values
import AiryFS.Foundation.Fallible

/-! The command server of the container: three ways to start a command, and one slot for them.

A request for a buffered or a streaming command looks at the slot when it arrives, reads its
body, and takes the slot when it has read it. A terminal takes the slot in the same turn in
which it looks at it. A process counts as running until the event that reports its end.
-/

set_option autoImplicit false

namespace AiryFS

open Foundation

namespace CommandServer

inductive Endpoint where
  | exec
  | execStream
  | pty
  deriving DecidableEq, Repr

/-- A child process, by its number among all that were started. -/
structure Process where
  number : Nat
  /-- The request that started it. -/
  request : Nat
  id : Text
  endpoint : Endpoint
  running : Bool
  /-- Whether there is a process to signal. -/
  spawned : Bool
  signals : List String
  /-- The timer that escalates to `SIGKILL`. -/
  killTimer : Bool
  timedOut : Bool
  deriving DecidableEq, Repr

/-- `terminate` signals the process of the number. -/
structure ActiveCommand where
  id : Text
  process : Nat
  deriving DecidableEq, Repr

inductive Response where
  | error (status : Nat) (message : String)
  | result (exitCode : Int) (stdout stderr : Text)
  | start (id : Text)
  | exit (id : Text) (exitCode : Int) (signal : Option String) (timedOut : Bool)
  | canceled (canceled : Bool)
  /-- The frame that ends a terminal. -/
  | ptyExit (exitCode : Int) (signal : Nat)
  | destroyed (message : String)
  deriving DecidableEq, Repr

structure PendingRequest where
  number : Nat
  endpoint : Endpoint
  deriving DecidableEq, Repr

end CommandServer

open CommandServer

structure CommandServer where
  /-- `ExecutionSlot.active`. -/
  active : Option ActiveCommand
  processes : List Process
  /-- The requests whose body is being read. -/
  requests : List PendingRequest
  received : Nat
  started : Nat
  /-- `cwd === MOUNT_POINT`. -/
  mounted : Bool
  /-- What `fuseDaemonError` returns. -/
  fuseDaemonError : Option String
  /-- Each answer with the number of its request. -/
  responses : List (Nat × Response)
  deriving DecidableEq

namespace CommandServer

def MAX_STDIN_BYTES : Nat := 10 * 1024 * 1024

def SIGNAL_EXIT_CODES : List (String × Int) := [("SIGHUP", 1), ("SIGINT", 2), ("SIGKILL", 9), ("SIGTERM", 15)]

/-! ## Request bodies -/

/-- The field `stdin`, with what base64 decoding finds in a string. -/
inductive StdinField where
  | absent
  | other
  | base64 (canonical : Bool) (decoded : Bytes)

def decodeStdin (value : StdinField) : Except String (Option Bytes) := do
  match value with
  | .absent => return none
  | .other => .error "\"stdin\" must be a base64 string when provided"
  | .base64 canonical decoded =>
    refuse (canonical = false) "\"stdin\" must be canonical base64"
    refuse (decoded.length > MAX_STDIN_BYTES) ("stdin exceeds " ++ toString MAX_STDIN_BYTES ++ " bytes")
    return some decoded

/-- A body that was read to its end. A field is `none` when it is missing, and a value that
is not a string is `some none`. -/
inductive Body where
  | unparsable
  | object (command id : Option (Option Text)) (stdin : StdinField)

/-- What `trim` removes. -/
def isSpace (character : Char) : Bool :=
  let code := character.toNat
  (9 ≤ code && code ≤ 13) || (0x2000 ≤ code && code ≤ 0x200A) ||
    code ∈ [0x20, 0xA0, 0x1680, 0x2028, 0x2029, 0x202F, 0x205F, 0x3000, 0xFEFF]

/-- A command that is not blank. -/
def commandOf (command : Option (Option Text)) : Except String Text := do
  let text ← required command.join "Missing \"command\" string in request body"
  refuse (text.all isSpace) "Missing \"command\" string in request body"
  return text

structure Command where
  command : Text
  /-- The identifier of the request, when it has one. -/
  id : Option Text
  stdin : Option Bytes

/-- The checks of `handleExec` and `handleExecStream`; only the latter reads an identifier. -/
def parseBody (endpoint : Endpoint) (body : Body) : Except String Command :=
  match body with
  | .unparsable => .error "Invalid JSON in request body"
  | .object command id stdin => do
    let command ← commandOf command
    refuse (endpoint = .execStream ∧ id = some none) "\"id\" must be a string when provided"
    let stdin ← decodeStdin stdin
    let id := if endpoint = .execStream then id.join.filter fun id => id.length > 0 else none
    return { command, id, stdin }

/-! ## Requests -/

variable (state : CommandServer)

def respond (request : Nat) (response : Response) : CommandServer :=
  { state with responses := state.responses ++ [(request, response)] }

/-- `handleExec` and `handleExecStream` up to the reading of the body. -/
def receive (endpoint : Endpoint) : CommandServer :=
  let number := state.received
  let state := { state with received := number + 1 }
  if state.active.isSome then state.respond number (.error 503 "Another command is already running")
  else match state.mounted, state.fuseDaemonError with
    | true, some fuseErr => state.respond number (.error 503 ("FUSE unavailable: " ++ fuseErr))
    | _, _ => { state with requests := state.requests ++ [({ number, endpoint } : PendingRequest)] }

/-- Start a process and put it into the slot. -/
def startProcess (request : Nat) (endpoint : Endpoint) (id : Text) (spawned : Bool) : CommandServer :=
  let process : Process :=
    { number := state.started, request, id, endpoint, running := true, spawned, signals := [], killTimer := false, timedOut := false }
  { state with
    active := some { id, process := state.started }
    processes := state.processes ++ [process]
    started := state.started + 1 }

/-- How the attempt to start a process ends: with a process, with none and an error event to
come, or with an exception, which nobody catches. -/
inductive Spawn where
  | process
  | failed
  | throws
  deriving DecidableEq, Repr

/-- The rest of `handleExec` and `handleExecStream`, with the identifier that they make up. -/
def continueRequest (request : PendingRequest) (body : Body) (generated : Text) (spawn : Spawn) : CommandServer :=
  let state := { state with requests := state.requests.erase request }
  match parseBody request.endpoint body, spawn with
  | .error message, _ => state.respond request.number (.error 400 message)
  | .ok _, .throws => state
  | .ok command, spawn =>
    let id := command.id.getD generated
    let state := state.startProcess request.number request.endpoint id (spawn = .process)
    if request.endpoint = .execStream then state.respond request.number (.start id) else state

/-- `handleConnection` of the terminal server. -/
def connect (generated : Text) (spawn : Spawn) : CommandServer :=
  let number := state.received
  let state := { state with received := number + 1 }
  if state.active.isSome then state.respond number (.destroyed "Another command is already running")
  else match spawn with
    | .process => state.startProcess number .pty generated true
    | _ => state.respond number (.destroyed "the terminal could not be started")

/-! ## Processes -/

def updateProcess (number : Nat) (change : Process → Process) : CommandServer :=
  { state with processes := state.processes.map fun process => if process.number = number then change process else process }

/-- The `terminate` function of each endpoint. -/
def Process.terminate (process : Process) : Process :=
  match process.endpoint with
  | .exec => { process with signals := process.signals ++ ["SIGTERM"] }
  | .execStream =>
    if process.spawned then { process with signals := process.signals ++ ["SIGTERM"], killTimer := true } else process
  | .pty => { process with signals := process.signals ++ ["SIGHUP"], killTimer := true }

/-- The timer of a termination. -/
def Process.escalate (process : Process) : Process :=
  if process.killTimer then { process with signals := process.signals ++ ["SIGKILL"], killTimer := false } else process

def Process.expire (process : Process) : Process := { process.terminate with timedOut := true }

def Process.signal (signal : String) (process : Process) : Process :=
  { process with signals := process.signals ++ [signal] }

/-- Its end has been reported, and a terminal's timer is cleared. -/
def Process.ended (process : Process) : Process :=
  { process with running := false, killTimer := process.killTimer && process.endpoint != .pty }

def exitCode (code : Option Int) (signal : Option String) : Int :=
  code.getD <| match signal with
    | some signal => 128 + (SIGNAL_EXIT_CODES.lookup signal).getD 0
    | none => 1

/-- How a process ended, and what it wrote. -/
structure Ending where
  code : Option Int
  signal : Option String
  signalNumber : Nat
  stdout : Text
  stderr : Text

def endingResponse (process : Process) (ending : Ending) : Response :=
  match process.endpoint with
  | .exec => .result (ending.code.getD 1) ending.stdout ending.stderr
  | .execStream => .exit process.id (exitCode ending.code ending.signal) ending.signal process.timedOut
  | .pty => .ptyExit (ending.code.getD 1) ending.signalNumber

/-- The callback that reports the end. It frees the slot only while the slot is its own. -/
def finish (process : Process) (ending : Ending) : CommandServer :=
  let state := state.updateProcess process.number Process.ended
  let state := { state with
    active := state.active.filter fun execution => execution.process ≠ process.number }
  state.respond process.request (endingResponse process ending)

/-- The running process of the number, if any. -/
def runningProcess (number : Nat) : Option Process :=
  state.processes.find? fun process => process.number = number && process.running

/-- `handleExecCancel`, once it has read its body. -/
def cancel (id : Option (Option Text)) : CommandServer :=
  let number := state.received
  let state := { state with received := number + 1 }
  match id with
  | some (some id) =>
    if id = [] then state.respond number (.error 400 "Missing \"id\" string in request body")
    else match state.active with
      | some execution =>
        if execution.id = id then (state.updateProcess execution.process Process.terminate).respond number (.canceled true)
        else state.respond number (.canceled false)
      | none => state.respond number (.canceled false)
  | _ => state.respond number (.error 400 "Missing \"id\" string in request body")

inductive Action where
  | receive (streaming : Bool)
  /-- The body of the request has been read. -/
  | body (number : Nat) (body : Body) (generated : Text) (spawn : Spawn)
  /-- The client went away before that. -/
  | abort (number : Nat)
  | connect (generated : Text) (spawn : Spawn)
  | cancel (id : Option (Option Text))
  /-- The client of a running command goes away. -/
  | disconnect (process : Nat)
  | timeout (process : Nat)
  /-- The timer of a termination fires. -/
  | escalate (process : Nat)
  /-- A terminal's client sends a signal. -/
  | signal (process : Nat) (signal : String)
  | exit (process : Nat) (ending : Ending)
  /-- The mount and its daemon come and go. -/
  | environment (mounted : Bool) (fuseDaemonError : Option String)

def disconnect (process : Process) : CommandServer :=
  match process.endpoint with
  | .exec => state
  | _ => state.updateProcess process.number Process.terminate

def timeout (process : Process) : CommandServer :=
  match process.endpoint with
  | .exec => state.updateProcess process.number Process.terminate
  | .execStream => state.updateProcess process.number Process.expire
  | .pty => state

def step (action : Action) : CommandServer :=
  match action with
  | .receive streaming => state.receive (if streaming then .execStream else .exec)
  | .body number body generated spawn =>
    match state.requests.find? fun request => request.number = number with
    | none => state
    | some request => state.continueRequest request body generated spawn
  | .abort number => { state with requests := state.requests.filter fun request => request.number ≠ number }
  | .connect generated spawn => state.connect generated spawn
  | .cancel id => state.cancel id
  | .disconnect process => (state.runningProcess process).elim state state.disconnect
  | .timeout process => (state.runningProcess process).elim state state.timeout
  | .escalate process => state.updateProcess process Process.escalate
  | .signal process signal =>
    match state.runningProcess process with
    | none => state
    | some found =>
      if found.endpoint = .pty ∧ signal ≠ "" then
        state.updateProcess process (Process.signal signal)
      else state
  | .exit process ending => (state.runningProcess process).elim state fun found => state.finish found ending
  | .environment mounted fuseDaemonError => { state with mounted, fuseDaemonError }

/-- A server that has just started. -/
def initial : CommandServer := ⟨none, [], [], 0, 0, false, some "FUSE daemon not started", []⟩

end CommandServer

end AiryFS
