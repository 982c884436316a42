import AiryFS.Direct.Directories
import AiryFS.Files.WriteRequests

/-! `writeFileStream`, with every `await` as a point where other requests may run.

The bytes go to a hidden name beside the path, which a rename then gives them. What another
request does is a volume it leaves, and it waits for the lock that the writer holds.
-/

set_option autoImplicit false

namespace AiryFS

open Foundation

/-- What the stream delivers, and the error it then ends with, if any. -/
structure StreamBody where
  values : List Bytes
  failure : Option Failure

structure FileStream where
  path : Text
  /-- `crypto.randomUUID()`. -/
  uuid : Text
  body : Option StreamBody
  /-- Whether the call is given the coordinator. -/
  access : Bool
  /-- It reads the file at the temporary path. -/
  validateTemp : Volume → Except Failure Unit

namespace FileStream

variable (stream : FileStream)

/-- The path up to its last slash, without it. -/
def parent : Text := (stream.path.rdropWhile (· ≠ '/')).dropLast

def parentPath : Text := if stream.parent = [] then ['/'] else stream.parent

/-- The name that the new contents have until they are complete. -/
def uploadName : Text := ".airyfs-upload-".toList ++ stream.uuid

def temp : Text := stream.parent ++ '/' :: stream.uploadName

def temporaryPath : Except Failure Text := do
  refuse (stream.path = ['/'] ∨ stream.path.getLast? = some '/')
    (.http 400 "INVALID_PATH" "A file path without a trailing slash is required")
  return stream.temp

/-- The buffers passed to `pwrite`, one after the other. -/
def pieces : List Bytes :=
  match stream.body with
  | none => []
  | some body => body.values.flatMap fun value => (AgentFS.chunksOf WRITE_CHUNK_SIZE value).map Prod.snd

/-- What the call is to write. -/
def content : Bytes :=
  match stream.body with
  | none => []
  | some body => body.values.flatten

end FileStream

/-- Where the call waits. -/
inductive StreamPhase where
  | queueTemp
  | stat
  | create
  | opening
  | writing (handle : AgentFSFile) (offset : Nat) (remaining : List Bytes)
  | validate
  | queuePath
  | rename
  | cleanUp (failure : Failure)
  | resolved
  | rejected (failure : Failure)

structure StreamSystem where
  volume : Volume
  phase : StreamPhase
  /-- The inode that the call has made; it is there to be spoken of, no step reads it. -/
  made : Option Int

namespace StreamSystem

variable (stream : FileStream) (chunkSize : Nat) (state : StreamSystem)

def start (volume : Volume) : StreamSystem :=
  match stream.temporaryPath with
  | .error failure => ⟨volume, .rejected failure, none⟩
  | .ok _ => ⟨volume, .queueTemp, none⟩

/-- The path whose lock the call holds. -/
def held : Option Text :=
  if stream.access then
    match state.phase with
    | .stat | .create => some stream.temp
    | .rename => some stream.path
    | _ => none
  else none

/-- The call up to its next `await`. -/
def next : StreamSystem :=
  match state.phase with
  | .queueTemp => { state with phase := .stat }
  | .stat =>
    match AgentFS.stat state.volume stream.parentPath with
    | .error failure => { state with phase := .cleanUp failure }
    | .ok row =>
      if isDirectory row.mode then { state with phase := .create }
      else
        let shown := String.ofList stream.parentPath
        { state with phase := .cleanUp (.fs ⟨.ENOTDIR, "", stream.parentPath, s!"ENOTDIR: not a directory, open '{shown}'"⟩) }
  | .create =>
    match AgentFS.writeFile state.volume chunkSize stream.temp [] with
    | .error failure => { state with phase := .cleanUp failure }
    | .ok volume => {
        volume
        phase := if stream.body.isSome then .opening else .validate
        made := AgentFS.resolvePath volume stream.temp }
  | .opening =>
    match AgentFS.openFile state.volume chunkSize stream.temp with
    | .error failure => { state with phase := .cleanUp failure }
    | .ok handle => { state with phase := .writing handle 0 stream.pieces }
  | .writing handle offset (piece :: remaining) =>
    match handle.pwrite state.volume offset piece with
    | .error failure => { state with phase := .cleanUp failure }
    | .ok volume => { state with volume, phase := .writing handle (offset + piece.length) remaining }
  | .writing _ _ [] =>
    match stream.body.bind (·.failure) with
    | some failure => { state with phase := .cleanUp failure }
    | none => { state with phase := .validate }
  | .validate =>
    match stream.validateTemp state.volume with
    | .error failure => { state with phase := .cleanUp failure }
    | .ok _ => { state with phase := .queuePath }
  | .queuePath => { state with phase := .rename }
  | .rename =>
    match AgentFS.rename state.volume stream.temp stream.path with
    | .error failure => { state with phase := .cleanUp failure }
    | .ok volume => { state with volume, phase := .resolved }
  | .cleanUp failure => { state with
      volume := settle state.volume (AgentFS.rm state.volume stream.temp true false)
      phase := .rejected failure }
  | .resolved | .rejected _ => state

inductive Action where
  | next
  /-- Another request, which holds the locks of some paths, leaves the volume so. -/
  | others (locks : List Text) (volume : Volume)

def blocked (locks : List Text) : Bool :=
  (state.held stream).any fun path => locks.any (VolumeAccessCoordinator.pathsOverlap path)

def step (action : Action) : StreamSystem :=
  match action with
  | .next => state.next stream chunkSize
  | .others locks volume => if state.blocked stream locks then state else { state with volume }

def run (actions : List Action) : StreamSystem := actions.foldl (step stream chunkSize) state

end StreamSystem

end AiryFS
