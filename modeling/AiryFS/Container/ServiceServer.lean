import AiryFS.Foundation.NumberedLog
import AiryFS.Storage.Values

/-! The supervisor of preview services in the container: processes, their logs, and the client that polls a log.

A log keeps its last entries. A client that names another generation is answered from the start of the log, and is told so;
what this log has lost by then it is not told.
-/

set_option autoImplicit false

namespace AiryFS

open Foundation

namespace Services

def MAX_LOG_BYTES : Nat := 1024 * 1024

inductive LogStream where
  | stdout
  | stderr
  deriving DecidableEq, Repr

structure LogEntry where
  seq : Nat
  stream : LogStream
  data : Bytes
  timestamp : Int
  bytes : Nat
  deriving DecidableEq

/-- The process runs as long as it has no exit code. -/
structure ServiceProcess where
  name : Text
  generation : Text
  port : Int
  startedAt : Int
  exitCode : Option Int
  logs : List LogEntry
  logBytes : Nat
  nextSeq : Nat
  deriving DecidableEq

/-- The loop of `appendLog`: the oldest entry goes, but never the last. -/
def shiftLogs : Nat → List LogEntry → Nat × List LogEntry
  | logBytes, oldest :: entry :: logs =>
    if MAX_LOG_BYTES < logBytes then shiftLogs (logBytes - oldest.bytes) (entry :: logs) else (logBytes, oldest :: entry :: logs)
  | logBytes, logs => (logBytes, logs)

namespace ServiceProcess

def appendLog (service : ServiceProcess) (stream : LogStream) (chunk : Bytes) (now : Int) : ServiceProcess :=
  let entry : LogEntry := ⟨service.nextSeq, stream, chunk, now, chunk.length⟩
  let kept := shiftLogs (service.logBytes + entry.bytes) (service.logs ++ [entry])
  { service with nextSeq := service.nextSeq + 1, logBytes := kept.1, logs := kept.2 }

def onClose (service : ServiceProcess) (code : Option Int) : ServiceProcess := { service with exitCode := some (code.getD 1) }

end ServiceProcess

structure ServiceStatus where
  name : Text
  port : Int
  running : Bool
  exitCode : Option Int
  startedAt : Int
  deriving DecidableEq

def status (service : ServiceProcess) : ServiceStatus :=
  ⟨service.name, service.port, service.exitCode = none, service.exitCode, service.startedAt⟩

/-- An entry without its size. -/
structure PageEntry where
  seq : Nat
  stream : LogStream
  data : Bytes
  timestamp : Int
  deriving DecidableEq

structure LogPage where
  generation : Text
  reset : Bool
  earliestSeq : Option Nat
  truncated : Bool
  entries : List PageEntry
  deriving DecidableEq

/-- The logs route, for a service that exists. -/
def readLogs (service : ServiceProcess) (requestedGeneration : Option Text) (requestedAfter : Nat) : LogPage :=
  let reset : Bool := requestedGeneration ≠ none ∧ requestedGeneration ≠ some service.generation
  let after := if reset then 0 else requestedAfter
  let earliestSeq := service.logs.head?.map LogEntry.seq
  { generation := service.generation
    reset
    earliestSeq
    truncated := !reset && earliestSeq.any fun earliest => (after : Int) < earliest - 1
    entries := (service.logs.filter fun entry => after < entry.seq).map fun entry =>
      ⟨entry.seq, entry.stream, entry.data, entry.timestamp⟩ }

/-- The processes, the newest first: the map has the newest of each name. -/
structure ServiceServer where
  processes : List ServiceProcess
  deriving DecidableEq

/-- What a request to start says; a member of another type than the route expects is missing here. -/
structure StartBody where
  name : Option Text
  command : Option Text
  port : Option Int
  cwd : Option Text
  env : List (Text × Option Text)
  deriving DecidableEq

inductive Reply where
  | status (code : Nat) (status : ServiceStatus)
  | error (code : Nat) (message : String)
  deriving DecidableEq

namespace ServiceServer

/-- `services.get(name)`. -/
def get (server : ServiceServer) (name : Text) : Option ServiceProcess := server.processes.find? fun service => service.name = name

def startService (name generation : Text) (port now : Int) : ServiceProcess := ⟨name, generation, port, now, none, [], 0, 1⟩

/-- The start route, with the id and the time that a new process would get. -/
def start (server : ServiceServer) (generation : Text) (now : Int) (body : StartBody) : Reply × ServiceServer :=
  match body.name.filter (· ≠ []), body.command.filter (· ≠ []) with
  | some name, some _ =>
    match body.port.filter fun port => 1 ≤ port ∧ port ≤ 65535 with
    | none => (.error 400 "port must be a valid integer", server)
    | some port =>
      match (server.get name).filter fun existing => existing.exitCode = none with
      | some existing => (.status 200 (status existing), server)
      | none =>
        if body.env.any fun entry => entry.2 = none then (.error 400 "env values must be strings", server)
        else
          let service := startService name generation port now
          (.status 201 (status service), { server with processes := service :: server.processes })
  | _, _ => (.error 400 "name and command are required", server)

/-- A listener of a process that runs. -/
def onProcess (server : ServiceServer) (generation : Text) (listener : ServiceProcess → ServiceProcess) : ServiceServer :=
  { server with processes := server.processes.map fun service =>
      if service.generation = generation ∧ service.exitCode = none then listener service else service }

end ServiceServer

/-! ## The client -/

/-- An answer, and the service as it was then. -/
structure Poll where
  service : ServiceProcess
  page : LogPage
  deriving DecidableEq

/-- A client that follows a log: it keeps the generation and the number it received last, and forgets the number of
another generation. -/
structure Follower where
  generation : Option Text
  cursor : Option Nat
  polls : List Poll
  deriving DecidableEq

def Follower.poll (follower : Follower) (service : ServiceProcess) : Follower :=
  let page := readLogs service follower.generation (follower.cursor.getD 0)
  let cursor := if page.reset then none else follower.cursor
  { generation := some page.generation
    cursor := (page.entries.getLast?.map PageEntry.seq).or cursor
    polls := follower.polls ++ [⟨service, page⟩] }

/-! ## Runs -/

inductive Event where
  | start (body : StartBody) (now : Int)
  | output (generation : Text) (stream : LogStream) (chunk : Bytes) (now : Int)
  | exit (generation : Text) (code : Option Int)
  /-- A signal; the process exits on its own. -/
  | stop (name : Text)
  | poll
  deriving DecidableEq

/-- The server, the number of ids it has drawn, and one client. -/
structure System where
  server : ServiceServer
  drawn : Nat
  follower : Follower
  deriving DecidableEq

namespace System

def initial : System := ⟨⟨[]⟩, 0, ⟨none, none, []⟩⟩

variable (uuid : Nat → Text) (name : Text)

def step (system : System) : Event → System
  | .start body now =>
    { system with server := (system.server.start (uuid system.drawn) now body).2, drawn := system.drawn + 1 }
  | .output generation stream chunk now =>
    { system with server := system.server.onProcess generation fun service => service.appendLog stream chunk now }
  | .exit generation code => { system with server := system.server.onProcess generation fun service => service.onClose code }
  | .stop _ => system
  | .poll =>
    match system.server.get name with
    | none => system
    | some service => { system with follower := system.follower.poll service }

def run (system : System) (events : List Event) : System := events.foldl (step uuid name) system

end System

/-! ## What is asked of them -/

/-- An entry of the current generation that has gone since the poll before, and that no poll has returned. -/
structure Lost (earlier : List Poll) (poll : Poll) (seq : Nat) : Prop where
  written : 1 ≤ seq ∧ seq < poll.service.nextSeq
  evicted : ∀ entry ∈ poll.service.logs, entry.seq ≠ seq
  unread : ∀ before ∈ earlier, before.page.generation = poll.page.generation → ∀ entry ∈ before.page.entries, entry.seq ≠ seq
  since : ∀ before ∈ earlier.getLast?, before.page.generation = poll.page.generation →
    before.service.nextSeq ≤ seq ∨ ∃ entry ∈ before.service.logs, entry.seq = seq

/-- A loss is announced by the next poll. -/
def Announced (announces : LogPage → Bool) (polls : List Poll) : Prop :=
  EachPoint (fun earlier poll => ∀ seq, Lost earlier poll seq → announces poll.page = true) polls

/-- An answer is marked as a reset if the answer before was of another generation. -/
def ResetMarked (polls : List Poll) : Prop :=
  EachPoint (fun earlier poll => poll.page.reset = true ↔
    ∃ before ∈ earlier.getLast?, before.page.generation ≠ poll.page.generation) polls

/-- What the log holds has been returned, by this answer or an earlier one. -/
def Returned (polls : List Poll) : Prop :=
  EachPoint (fun earlier poll => ∀ entry ∈ poll.service.logs, ∃ before ∈ earlier ++ [poll],
    before.page.generation = poll.page.generation ∧ ∃ returned ∈ before.page.entries, returned.seq = entry.seq) polls

/-- The numbers that were received of a generation. -/
def received (generation : Text) (polls : List Poll) : List Nat :=
  (polls.filter fun poll => poll.page.generation = generation).flatMap fun poll => poll.page.entries.map PageEntry.seq

def Increasing (polls : List Poll) : Prop := ∀ generation, (received generation polls).Pairwise (· < ·)

/-- The log is within its limit, or over it by one entry that is alone. -/
def Bounded (service : ServiceProcess) : Prop :=
  (service.logs.map LogEntry.bytes).sum ≤ MAX_LOG_BYTES ∨ ∃ entry, service.logs = [entry]

/-- One process of a name runs at most. -/
def OneRuns (server : ServiceServer) : Prop :=
  ∀ name, (server.processes.filter fun service => service.name = name ∧ service.exitCode = none).length ≤ 1

end Services

end AiryFS
