import AiryFS.Files.VolumeAccess
import AiryFS.Direct.FileHandle
import AiryFS.Direct.Primitives

/-! Requests that write into files, with every `await` as a point where others may run.

A request first queues for its path. Once granted it opens the path, which fixes the inode,
reads the inode's size, and then writes piece by piece; it gives its lock back at the end or
where it fails. An upload already knows its offset and writes right after opening.
-/

set_option autoImplicit false

namespace AiryFS

open Foundation

def WRITE_CHUNK_SIZE : Nat := 256 * 1024

def MAX_APPEND_BYTES : Nat := 1024 * 1024

inductive WriteRequest where
  /-- `appendFileData`. -/
  | append (path : Text) (data : Bytes)
  /-- `writeFileRange`, with the values that its stream delivers. -/
  | range (path : Text) (offset : Nat) (values : List Bytes)
  /-- A handle opened under the lock of its path and written once. -/
  | pwrite (path : Text) (offset : Nat) (data : Bytes)
  deriving DecidableEq, Repr

namespace WriteRequest

def path : WriteRequest → Text
  | append path _ => path
  | range path _ _ => path
  | pwrite path _ _ => path

/-- The buffers that the request passes to `pwrite`, in order. -/
def pieces : WriteRequest → List Bytes
  | append _ data => if data.length = 0 then [] else [data]
  | range _ _ values => values.flatMap fun value => (AgentFS.chunksOf WRITE_CHUNK_SIZE value).map Prod.snd
  | pwrite _ _ data => [data]

/-- Where the first of them goes in a file of the given size. -/
def offset (size : Nat) : WriteRequest → Nat
  | append _ _ => size
  | range _ offset _ => offset
  | pwrite _ offset _ => offset

/-- An append above the limit is answered before it queues. -/
def accepted : WriteRequest → Bool
  | append _ data => data.length ≤ MAX_APPEND_BYTES
  | _ => true

end WriteRequest

/-- A request that has not opened its file yet. -/
structure WriteCall where
  id : Nat
  request : WriteRequest
  deriving DecidableEq, Repr

inductive WritePhase where
  | opened
  | writing (position : Nat) (remaining : List Bytes)
  | finished (succeeded : Bool)
  deriving DecidableEq, Repr

/-- A request with its file open, or done with it. -/
structure WriteSession where
  id : Nat
  request : WriteRequest
  file : AgentFSFile
  phase : WritePhase
  /-- Where its first piece goes, once it knows. -/
  start : Nat
  /-- The number of pieces written. -/
  written : Nat
  deriving DecidableEq, Repr

/-- Whether the request still holds its lock. -/
def WriteSession.busy (session : WriteSession) : Bool :=
  match session.phase with
  | .finished _ => false
  | _ => true

/-- The requests of one volume, with the sessions in the order in which they opened. -/
structure WriteSystem where
  access : VolumeAccessCoordinator
  volume : Volume
  calls : List WriteCall
  sessions : List WriteSession

namespace WriteSystem

def initial (volume : Volume) : WriteSystem := ⟨.initial, volume, [], []⟩

variable (state : WriteSystem)

def call (request : WriteRequest) : WriteSystem :=
  if request.accepted then { state with
    access := state.access.acquire .write [request.path]
    calls := state.calls ++ [{ id := state.access.requests, request }] }
  else state

/-- The session after `fs.open`. -/
def opening (call : WriteCall) (file : AgentFSFile) : WriteSession where
  id := call.id
  request := call.request
  file := file
  phase :=
    match call.request with
    | .pwrite _ offset _ => .writing offset call.request.pieces
    | _ => .opened
  start :=
    match call.request with
    | .pwrite _ offset _ => offset
    | _ => 0
  written := 0

def openCall (chunkSize : Nat) (call : WriteCall) : WriteSystem :=
  match AgentFS.openFile state.volume chunkSize call.request.path with
  | .error _ => { state with access := state.access.release call.id, calls := state.calls.erase call }
  | .ok file => { state with
      calls := state.calls.erase call
      sessions := state.sessions ++ [opening call file] }

def replace (session : WriteSession) : WriteSystem :=
  { state with sessions := state.sessions.map fun other => if other.id = session.id then session else other }

def finish (session : WriteSession) (succeeded : Bool) : WriteSystem :=
  { state with access := state.access.release session.id }.replace { session with phase := .finished succeeded }

/-- What an append that wrote something does last. -/
def afterwards (session : WriteSession) : Volume :=
  match session.request with
  | .append path data =>
    if data.length = 0 then state.volume
    else settle state.volume (FilesystemPrimitives.updateCtime state.volume path)
  | _ => state.volume

/-- A session up to its next `await`. The checks on what `fstat` returned read nothing else,
so they are made together with it. -/
def advance (session : WriteSession) : WriteSystem :=
  match session.phase with
  | .opened =>
    match session.file.fstat state.volume with
    | .error _ => state.finish session false
    | .ok stats =>
      if ¬isRegular stats.mode then state.finish session false
      else
        let start := session.request.offset stats.size
        state.replace { session with phase := .writing start session.request.pieces, start }
  | .writing position (piece :: remaining) =>
    match session.file.pwrite state.volume position piece with
    | .error _ => state.finish session false
    | .ok volume => { state with volume }.replace { session with
        phase := .writing (position + piece.length) remaining, written := session.written + 1 }
  | .writing _ [] => { state with volume := state.afterwards session }.finish session true
  | .finished _ => state

inductive Action where
  | call (request : WriteRequest)
  /-- The request continues, if it is granted. -/
  | resume (id : Nat)
  /-- The stream of a range write fails. -/
  | interrupt (id : Nat)
  deriving DecidableEq, Repr

def resume (chunkSize id : Nat) : WriteSystem :=
  match state.calls.find? fun call => call.id = id with
  | some call => if state.access.active.any fun waiter => waiter.id = id then state.openCall chunkSize call else state
  | none =>
    match state.sessions.find? fun session => session.id = id with
    | none => state
    | some session => state.advance session

def interrupt (id : Nat) : WriteSystem :=
  match state.sessions.find? fun session => session.id = id with
  | none => state
  | some session =>
    match session.request, session.phase with
    | .range .., .writing .. => state.finish session false
    | _, _ => state

def step (chunkSize : Nat) (action : Action) : WriteSystem :=
  match action with
  | .call request => state.call request
  | .resume id => state.resume chunkSize id
  | .interrupt id => state.interrupt id

end WriteSystem

end AiryFS
