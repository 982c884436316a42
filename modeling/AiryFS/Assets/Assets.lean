import AiryFS.Client.Checksum
import AiryFS.Files.FileStream

/-! Assets, which are stored under the digest of their contents.

Any number of calls of `putAsset` share a volume, and every `await` is a point where another call goes on. What
is awaited may fail instead. A call waits for a lock while another holds a path that overlaps.
-/

set_option autoImplicit false

namespace AiryFS

open Foundation Sites

def ASSET_ROOT : Text := "/.airyfs/assets/sha256".toList

structure AssetInfo where
  checksum : Text
  size : Nat
  created : Bool
  deriving DecidableEq, Repr

def isHash (hash : Text) : Bool := hash.length = 64 && hash.all fun c => ('0' ≤ c && c ≤ '9') || ('a' ≤ c && c ≤ 'f')

/-- Only the letters from `A` to `F` have one of the digits for their lower case. -/
def validateAssetHash (value : Text) : Except Failure Text := do
  let hash := value.map Char.toLower
  refuse (isHash hash = false) (.http 400 "INVALID_ASSET_HASH" "Asset id must be a 64-character SHA-256 hex digest")
  return hash

/-- `assetPath` of a hash that is valid. -/
def assetPath (hash : Text) : Text := ASSET_ROOT ++ '/' :: hash

/-- The directories that `ensureAssetRoot` makes. -/
def assetDirectories : List Text := ["/.airyfs".toList, "/.airyfs/assets".toList, ASSET_ROOT]

structure AssetCall where
  rawHash : Text
  body : Option StreamBody
  /-- `crypto.randomUUID()` of the call, and of its `writeFileStream`. -/
  uuid : Text
  streamUuid : Text

namespace AssetCall

variable (call : AssetCall)

def checksum : Text := call.rawHash.map Char.toLower

def target : Text := assetPath call.checksum

def uploadName : Text := ".upload-".toList ++ call.uuid

def temporary : Text := ASSET_ROOT ++ '/' :: call.uploadName

def stream : FileStream :=
  { path := call.temporary, uuid := call.streamUuid, body := call.body, access := true, validateTemp := fun _ => .ok () }

end AssetCall

/-- Where a call waits. -/
inductive AssetPhase where
  /-- For `mkdir` of the first of these directories. -/
  | making (directories : List Text)
  /-- For the first `exists`, and for `stat` of an asset that does. -/
  | looking
  | known
  | writing (phase : StreamPhase) (made : Option Int)
  /-- For the lock of `sha256Path`, and for what it asks then. -/
  | lockingHash
  | hashing (rest : Serving Hashed)
  | locking (actual : ChecksumResult)
  /-- For the second `exists`. -/
  | checking (actual : ChecksumResult)
  /-- For `rm` where the asset is there by now, and for its `stat`. -/
  | dropping
  | measuring
  | publishing (actual : ChecksumResult)
  | cleanUp (failure : Failure)
  | resolved (info : AssetInfo)
  | rejected (failure : Failure)

namespace AssetPhase

def isSettled : AssetPhase → Bool
  | .resolved _ | .rejected _ => true
  | _ => false

/-- Where a call has come to when its stream has. -/
def ofStream (phase : StreamPhase) (made : Option Int) : AssetPhase :=
  match phase with
  | .resolved => .lockingHash
  | .rejected failure => .cleanUp failure
  | _ => .writing phase made

/-- What is awaited fails. The removals at the end are done as best they can. -/
def fail (failure : Failure) : AssetPhase → AssetPhase
  | .making _ | .looking | .known => .rejected failure
  | .writing (.cleanUp earlier) _ => .cleanUp earlier
  | .writing _ made => .writing (.cleanUp failure) made
  | .cleanUp earlier => .rejected earlier
  | .resolved info => .resolved info
  | .rejected earlier => .rejected earlier
  | _ => .cleanUp failure

/-- Whether it is a final removal that fails. -/
def abandons : AssetPhase → Bool
  | .writing (.cleanUp _) _ | .cleanUp _ => true
  | _ => false

end AssetPhase

def hasCode (failure : Failure) (code : FsErrorCode) : Bool :=
  match failure with
  | .fs error => error.code = code
  | _ => false

namespace AssetCall

section
variable (call : AssetCall) (sha256 : Bytes → Text) (chunkSize : Nat) (volume : Volume)

def start : AssetPhase :=
  match validateAssetHash call.rawHash with
  | .error failure => .rejected failure
  | .ok _ => .making assetDirectories

/-- `exists` of the asset. -/
def targetExists : Except Failure Bool :=
  match AgentFS.stat volume call.target with
  | .ok row => .ok (isRegular row.mode)
  | .error failure => if hasCode failure .ENOENT then .ok false else .error failure

/-- Where `sha256Path` has come to. -/
def hashed (rest : Serving Hashed) : AssetPhase :=
  match rest with
  | .ask _ _ => .hashing rest
  | .thrown failure => .cleanUp failure
  | .returned hashed =>
    let actual := hashed.result sha256
    if actual.checksum = call.checksum then .locking actual
    else
      let found := String.ofList actual.checksum
      let wanted := String.ofList call.checksum
      .cleanUp (.http 409 "ASSET_CHECKSUM_MISMATCH" s!"Uploaded content SHA-256 {found} does not match asset id {wanted}")

/-- The call up to its next `await`. -/
def next : AssetPhase → Volume × AssetPhase
  | .making [] => (volume, .looking)
  | .making (directory :: directories) =>
    match AgentFS.mkdir volume directory with
    | .ok volume => (volume, .making directories)
    | .error failure => if hasCode failure .EEXIST then (volume, .making directories) else (volume, .rejected failure)
  | .looking =>
    match call.targetExists volume with
    | .ok true => (volume, .known)
    | .ok false => (volume, .ofStream (StreamSystem.start call.stream volume).phase none)
    | .error failure => (volume, .rejected failure)
  | .known =>
    match AgentFS.stat volume call.target with
    | .ok row => (volume, .resolved ⟨call.checksum, row.size, false⟩)
    | .error failure => (volume, .rejected failure)
  | .writing phase made =>
    let stream := StreamSystem.next call.stream chunkSize ⟨volume, phase, made⟩
    (stream.volume, .ofStream stream.phase stream.made)
  | .lockingHash => (volume, call.hashed sha256 (sha256Path call.temporary))
  | .hashing (.ask question rest) => (volume, call.hashed sha256 (rest (answer chunkSize volume question)))
  | .hashing rest => (volume, call.hashed sha256 rest)
  | .locking actual => (volume, .checking actual)
  | .checking actual =>
    match call.targetExists volume with
    | .ok true => (volume, .dropping)
    | .ok false => (volume, .publishing actual)
    | .error failure => (volume, .cleanUp failure)
  | .dropping =>
    match AgentFS.rm volume call.temporary true false with
    | .ok volume => (volume, .measuring)
    | .error failure => (volume, .cleanUp failure)
  | .measuring =>
    match AgentFS.stat volume call.target with
    | .ok row => (volume, .resolved ⟨call.checksum, row.size, false⟩)
    | .error failure => (volume, .cleanUp failure)
  | .publishing actual =>
    match AgentFS.rename volume call.temporary call.target with
    | .ok volume => (volume, .resolved ⟨call.checksum, actual.size, true⟩)
    | .error failure => (volume, .cleanUp failure)
  | .cleanUp failure => (settle volume (AgentFS.rm volume call.temporary true false), .rejected failure)
  | .resolved info => (volume, .resolved info)
  | .rejected failure => (volume, .rejected failure)

/-- The paths whose lock the call holds. -/
def held : AssetPhase → List Text
  | .writing phase made => (StreamSystem.held call.stream ⟨volume, phase, made⟩).toList
  | .hashing _ => [call.temporary]
  | .checking _ | .dropping | .measuring | .publishing _ => [call.temporary, call.target]
  | _ => []

/-- The paths whose lock it waits for. -/
def wanted : AssetPhase → List Text
  | .writing .queueTemp _ => [call.stream.temp]
  | .writing .queuePath _ => [call.temporary]
  | .lockingHash => [call.temporary]
  | .locking _ => [call.temporary, call.target]
  | _ => []

end

end AssetCall

structure AssetSystem (n : Nat) where
  volume : Volume
  phase : Fin n → AssetPhase
  /-- A final removal of the call has failed. -/
  abandoned : Fin n → Bool

namespace AssetSystem

inductive Action (n : Nat) where
  | next (i : Fin n)
  | fail (i : Fin n) (failure : Failure)

variable {n : Nat} (calls : Fin n → AssetCall) (sha256 : Bytes → Text) (chunkSize : Nat)

def start (volume : Volume) : AssetSystem n :=
  { volume, phase := fun i => (calls i).start, abandoned := fun _ => false }

section
variable (system : AssetSystem n)

def blocked (i : Fin n) : Bool :=
  decide (∃ j, j ≠ i ∧ ((calls i).wanted (system.phase i)).any fun path =>
    ((calls j).held system.volume (system.phase j)).any (VolumeAccessCoordinator.pathsOverlap path))

def step : Action n → AssetSystem n
  | .next i =>
    if system.blocked calls i then system
    else
      let (volume, phase) := (calls i).next sha256 chunkSize system.volume (system.phase i)
      { system with volume, phase := Function.update system.phase i phase }
  | .fail i failure => { system with
      phase := Function.update system.phase i ((system.phase i).fail failure)
      abandoned := Function.update system.abandoned i (system.abandoned i || (system.phase i).abandons) }

end

end AssetSystem

end AiryFS
