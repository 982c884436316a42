import AiryFS.Client.Checksum
import AiryFS.Foundation.Json
import AiryFS.Foundation.Utf8

/-! `resumableDownload`, against a volume that others may change at any time.

A session asks the local filesystem and the server. The server's answers come from the functions
that serve them, question by question, so the volume may be another one from each question to the
next. A session ends where its process is stopped, at any of its calls.
-/

set_option autoImplicit false

namespace AiryFS

open Foundation Sites

/-! ## Calls -/

/-- The calls of `node:fs`; `rm` is given `force`, `append` is a stream piped to the file. -/
inductive FileCall where
  | stat (path : Text)
  | readFile (path : Text)
  | rm (path : Text)
  | writeFile (path : Text) (data : Bytes)
  | append (path : Text) (stream : Streamed)
  | rename (source target : Text)
  deriving DecidableEq

@[reducible] def FileCall.Value : FileCall → Type
  | .stat _ => Nat
  | .readFile _ => Bytes
  | .rm _ | .writeFile _ _ | .append _ _ | .rename _ _ => Unit

inductive TransferFailure where
  | error (message : String)
  /-- What a call of `node:fs` rejects with. -/
  | io (code : String) (call : FileCall)
  /-- `AiryFSApiError` -/
  | api (status : Nat) (code : String)
  /-- The connection broke, before the response or in its body. -/
  | transport
  deriving DecidableEq

inductive Call where
  | file (call : FileCall)
  | headFile (path : Text)
  | readFile (path range : Text)
  | checksum (path : Text)

@[reducible] def Call.Value : Call → Type
  | .file call => call.Value
  | .headFile _ | .readFile _ _ => Response
  | .checksum _ => ChecksumResult

def Reply (call : Call) : Type := Except TransferFailure call.Value

abbrev Session := Asking Reply TransferFailure

def ask (call : Call) : Session call.Value := Asking.consult call fun reply => reply

/-! ## The local files of a download -/

/-- `error.code === 'ENOENT'` -/
def missing (failure : TransferFailure) : Bool :=
  match failure with
  | .io "ENOENT" _ => true
  | _ => false

def fileSize (path : Text) : Session (Option Nat) :=
  tryCatch (do return some (← ask (.file (.stat path)))) fun failure =>
    if missing failure then return none else throw failure

def pathExists (path : Text) : Session Bool :=
  tryCatch (do let _ ← ask (.file (.stat path)); return true) fun failure =>
    if missing failure then return false else throw failure

structure Sidecar where
  inode : Text
  /-- A number of JSON; `none` is beyond all doubles. -/
  size : Option Rat

def Sidecar.parse (raw : Text) : Option Sidecar := do
  let parsed ← Json.parse raw
  match parsed.field "inode".toList, parsed.field "size".toList with
  | some (.string inode), some (.number size) => return ⟨inode, size⟩
  | _, _ => none

/-- `JSON.stringify({ inode: remoteInode, size: remoteSize })` -/
def sidecarText (inode : Text) (size : Nat) : Text :=
  Json.stringify [("inode".toList, .string inode), ("size".toList, .natural size)]

def readSidecar (path : Text) : Session (Option Sidecar) := do
  let raw ← tryCatch (do return some (← ask (.file (.readFile path)))) fun failure =>
    if missing failure then return none else throw failure
  return raw.bind fun data => Sidecar.parse (Utf8.decodeFrom none data)

/-! ## The download -/

/-- What the first request tells of the remote file. -/
structure Remote where
  size : Nat
  inode : Text

def inodeHeader (response : Response) : Text := (response.headers.get "X-AiryFS-Inode").getD []

/-- `Number(header ?? '0')`, where the server spells a length. -/
def remoteSize (header : Option Text) : Option Nat :=
  let text := header.getD ['0']
  if digits text ∧ isSafeInteger (digitsValue text) then some (digitsValue text) else none

def headRemote (remotePath : Text) : Session Remote := do
  let head ← ask (.headFile remotePath)
  match remoteSize (head.headers.get "Content-Length") with
  | none =>
    let shown := String.ofList remotePath
    throw (.error s!"Invalid remote size for {shown}")
  | some size => return ⟨size, inodeHeader head⟩

def partialPath (localPath : Text) : Text := localPath ++ ".airyfs-partial".toList

def sidecarPath (localPath : Text) : Text := partialPath localPath ++ ".json".toList

structure DownloadResult where
  size : Nat
  checksum : Text
  resumed : Bool
  deriving DecidableEq

section Steps
variable (sha256 : Bytes → Text) (remotePath localPath : Text) (remote : Remote)

def requireFree (force : Bool) : Session Unit := do
  if !force then
    if ← pathExists localPath then
      let shown := String.ofList localPath
      throw (.error s!"Local path already exists: {shown} (use --force to overwrite)")

/-- The partial file starts again from nothing. -/
def restart : Session Nat := do
  ask (.file (.rm (partialPath localPath)))
  ask (.file (.rm (sidecarPath localPath)))
  ask (.file (.writeFile (partialPath localPath) []))
  ask (.file (.writeFile (sidecarPath localPath) (Utf8.encode (sidecarText remote.inode remote.size))))
  return 0

/-- Whether the sidecar and the partial file still match the remote file. -/
def matching (sidecar : Option Sidecar) (partialSize : Option Nat) : Option Nat :=
  match sidecar, partialSize with
  | some sidecar, some partialSize =>
    if sidecar.inode = remote.inode ∧ sidecar.size = some (remote.size : Rat) ∧ partialSize ≤ remote.size then some partialSize
    else none
  | _, _ => none

/-- The offset to go on from. -/
def prepare : Session Nat := do
  let sidecar ← readSidecar (sidecarPath localPath)
  let partialSize ← fileSize (partialPath localPath)
  match matching remote sidecar partialSize with
  | some offset => return offset
  | none => restart localPath remote

def changed (inode : Text) : TransferFailure :=
  let former := String.ofList remote.inode
  let latter := String.ofList inode
  .error s!"Remote file changed during download (inode {former} -> {latter}); partial state kept"

/-- A range that the server finds beyond the end is no failure; the checks that follow decide. -/
def readRest (offset : Nat) : Session (Option Response) :=
  tryCatch (do return some (← ask (.readFile remotePath (rangeFrom offset)))) fun failure =>
    match failure with
    | .api 416 _ => return none
    | _ => throw failure

def fetchRest (offset : Nat) : Session Unit := do
  if offset < remote.size then
    match ← readRest remotePath offset with
    | none => return
    | some response =>
      if inodeHeader response ≠ remote.inode then throw (changed remote (inodeHeader response))
      else
        match response.body with
        | none => return
        | some body => ask (.file (.append (partialPath localPath) body))

def verify : Session ChecksumResult := do
  let finalSize ← fileSize (partialPath localPath)
  if finalSize ≠ some remote.size then
    let shown := (finalSize.map toString).getD "null"
    throw (.error s!"Downloaded size {shown} does not match remote size {remote.size}; partial state kept")
  else
    let remoteSum ← ask (.checksum remotePath)
    if integerText 10 remoteSum.ino ≠ remote.inode then throw (changed remote (integerText 10 remoteSum.ino))
    else
      let localChecksum := sha256 (← ask (.file (.readFile (partialPath localPath))))
      if localChecksum ≠ remoteSum.checksum then
        let path := String.ofList remotePath
        let former := String.ofList localChecksum
        let latter := String.ofList remoteSum.checksum
        throw (.error s!"Checksum mismatch for {path} ({former} != {latter}); partial state kept")
      else return remoteSum

def publish : Session Unit := do
  ask (.file (.rename (partialPath localPath) localPath))
  ask (.file (.rm (sidecarPath localPath)))

def resumableDownload (force : Bool) : Session DownloadResult := do
  requireFree localPath force
  let remote ← headRemote remotePath
  let offset ← prepare localPath remote
  fetchRest remotePath localPath remote offset
  let remoteSum ← verify sha256 remotePath localPath remote
  publish localPath
  return ⟨remote.size, remoteSum.checksum, 0 < offset⟩

end Steps

/-! ## The world of a download -/

structure DownloadWorld where
  volume : Volume
  files : Text → Option Bytes
  /-- The bytes behind the last checksum given; it is there to be spoken of, no reply depends on it. -/
  hashed : Option Bytes

/-- How others may change the volume between two questions, and whether calls may break. -/
structure Weather where
  drift : Volume → Volume → Prop
  faulty : Prop

/-- Anything may happen. -/
def Weather.any : Weather := ⟨fun _ _ => True, True⟩

/-- Nobody changes the volume and nothing breaks. -/
def Weather.calm : Weather := ⟨fun volume volume' => volume' = volume, False⟩

/-- What a local call answers and leaves. -/
def FileCall.Performs (files : Text → Option Bytes) : ∀ call : FileCall, Except TransferFailure call.Value → (Text → Option Bytes) → Prop
  | .stat path, reply, files' => files' = files ∧
    reply = ((files path).map List.length).elim (.error (.io "ENOENT" (.stat path))) .ok
  | .readFile path, reply, files' => files' = files ∧ reply = (files path).elim (.error (.io "ENOENT" (.readFile path))) .ok
  | .rm path, reply, files' => files' = Function.update files path none ∧ reply = .ok ()
  | .writeFile path data, reply, files' => files' = Function.update files path (some data) ∧ reply = .ok ()
  | .append path stream, reply, files' => ∃ count, files' = Function.update files path (some ((files path).getD [] ++
    stream.bytes.take count)) ∧
    (stream.failure = none ∧ stream.bytes.length ≤ count ∧ reply = .ok () ∨ stream.failure ≠ none ∧ reply = .error .transport)
  | .rename source target, reply, files' =>
    files source = none ∧ files' = files ∧ reply = .error (.io "ENOENT" (.rename source target)) ∨
    ∃ data, files source = some data ∧ files' = Function.update (Function.update files source none) target (some data) ∧
      reply = .ok ()

/-- What a local call that breaks may leave. -/
def FileCall.Tears (files : Text → Option Bytes) : FileCall → (Text → Option Bytes) → Prop
  | .writeFile path data, files' => files' = files ∨ ∃ count, files' = Function.update files path (some (data.take count))
  | .append path stream, files' => files' = files ∨
    ∃ count, files' = Function.update files path (some ((files path).getD [] ++ stream.bytes.take count))
  | .stat _, files' | .readFile _, files' | .rm _, files' | .rename _ _, files' => files' = files

/-- The status and the code that `errorResponse` gives a failure. -/
def errorStatus (failure : Failure) : Nat × String :=
  match failure with
  | .http status code _ => (status, code)
  | .fs error =>
    match error.code with
    | .ENOENT => (404, "ENOENT")
    | .EEXIST => (409, "EEXIST")
    | .ENOTEMPTY => (409, "ENOTEMPTY")
    | .EISDIR => (409, "EISDIR")
    | .ENOTDIR => (409, "ENOTDIR")
    | .EINVAL => (400, "EINVAL")
    | .EPERM => (403, "EPERM")
    | .ELOOP => (409, "ELOOP")
  | .coded code _ => (500, code)
  | .error message | .abort message =>
    if "AIRYFS_ENOSPC_".toList <:+: message.toList then (507, "ENOSPC") else (500, "INTERNAL_ERROR")
  | .constraint _ => (500, "INTERNAL_ERROR")

def apiError (failure : Failure) : TransferFailure := .api (errorStatus failure).1 (errorStatus failure).2

/-- A response whose body breaks off. -/
def Breaks (whole given : Response) : Prop := ∃ sent count failure,
  whole.body = some sent ∧ given = { whole with body := some ⟨sent.bytes.take count, some failure⟩ }

section World
variable (chunkSize : Nat) (parse : Text → Option Int) (sha256 : Bytes → Text) (weather : Weather)

/-- What the server's functions are answered, each time out of the volume as it then is. -/
def Weather.serves : Asking.World Sites.Answer Volume := fun question volume given volume' =>
  weather.drift volume volume' ∧ given = Sites.answer chunkSize volume' question

/-- How a request that the program serves can fail. -/
def Weather.Refuses {α : Type} (program : Serving α) (volume : Volume) (failure : TransferFailure) (volume' : Volume) : Prop :=
  (∃ cause, Asking.Plays (weather.serves chunkSize) program volume (.thrown cause) volume' ∧ failure = apiError cause) ∨
    weather.faulty ∧ Asking.Plays (weather.serves chunkSize) program volume .stopped volume' ∧ failure = .transport

/-- A request for a file, and the response as the client has it. -/
def Weather.Responds (path : Text) (request : Request) (volume : Volume) (reply : Except TransferFailure Response)
    (volume' : Volume) : Prop :=
  match reply with
  | .ok given => ∃ response, Asking.Plays (weather.serves chunkSize) (fileResponse parse path request) volume (.returned response) volume' ∧
    200 ≤ response.status ∧ response.status ≤ 299 ∧ (given = response ∨ weather.faulty ∧ Breaks response given)
  | .error failure => weather.Refuses chunkSize (fileResponse parse path request) volume failure volume' ∨
    ∃ response, Asking.Plays (weather.serves chunkSize) (fileResponse parse path request) volume (.returned response) volume' ∧
      ¬(200 ≤ response.status ∧ response.status ≤ 299) ∧ failure = .api response.status s!"HTTP_{response.status}"

def headRequest (path : Text) : Request := ⟨"HEAD".toList, path, none, none, none, none⟩

def rangeRequest (path range : Text) : Request := ⟨"GET".toList, path, none, none, none, some range⟩

def Weather.world : Asking.World Reply DownloadWorld
  | .file call, state, reply, state' => ∃ files', state' = { state with files := files' } ∧
    (call.Performs state.files reply files' ∨
      weather.faulty ∧ ∃ code, code ≠ "ENOENT" ∧ reply = .error (.io code call) ∧ call.Tears state.files files')
  | .headFile path, state, reply, state' => ∃ volume', state' = { state with volume := volume' } ∧
    weather.Responds chunkSize parse path (headRequest path) state.volume reply volume'
  | .readFile path range, state, reply, state' => ∃ volume', state' = { state with volume := volume' } ∧
    weather.Responds chunkSize parse path (rangeRequest path range) state.volume reply volume'
  | .checksum path, state, reply, state' =>
    (∃ volume' hashed, state' = { state with volume := volume', hashed := some hashed.bytes } ∧ reply = .ok (hashed.result sha256) ∧
      Asking.Plays (weather.serves chunkSize) (sha256Path path) state.volume (.returned hashed) volume') ∨
    ∃ volume' failure, state' = { state with volume := volume' } ∧ reply = .error failure ∧
      weather.Refuses chunkSize (sha256Path path) state.volume failure volume'

/-- One attempt, from where the world was to where it then is. -/
def Weather.Attempts (remotePath localPath : Text) (force : Bool) (state : DownloadWorld)
    (outcome : Asking.Outcome TransferFailure DownloadResult) (state' : DownloadWorld) : Prop :=
  Asking.Plays (weather.world chunkSize parse sha256) (resumableDownload sha256 remotePath localPath force)
    { state with hashed := none } outcome state'

end World

end AiryFS
