import AiryFS.Direct.AgentFS
import AiryFS.Foundation.Chunks

/-! Reading and writing file contents through the direct adapter.

A handle names an inode and carries the chunk size its adapter was created with. Offsets
and lengths are natural numbers; the requests that lead here reject any other.
-/

set_option autoImplicit false

namespace AiryFS

open Foundation

structure AgentFSFile where
  ino : Int
  chunkSize : Nat
  deriving DecidableEq, Repr

namespace AgentFSFile

variable (file : AgentFSFile) (volume : Volume)

/-! ## Reading -/

/-- The loop of `pread` over the remaining rows, with the buffers collected so far. -/
def collect (startOffsetInChunk size : Nat) : List Bytes → List Bytes → Nat → List Bytes
  | [], buffers, _ => buffers
  | data :: rows, buffers, bytesCollected =>
    let skip := if buffers.length = 0 then startOffsetInChunk else 0
    if skip ≥ data.length then collect startOffsetInChunk size rows buffers bytesCollected
    else
      let remaining := size - bytesCollected
      let take := min (data.length - skip) remaining
      collect startOffsetInChunk size rows (buffers ++ [(data.drop skip).take take]) (bytesCollected + take)

def pread (offset size : Nat) : Bytes :=
  let startChunk := offset / file.chunkSize
  let endChunk : Int := ((offset : Int) + size - 1) / file.chunkSize
  let rows := volume.chunkRows file.ino fun chunkIndex => startChunk ≤ chunkIndex && (chunkIndex : Int) ≤ endChunk
  (collect (offset % file.chunkSize) size (rows.map (·.data)) [] 0).flatten

/-- `File handle refers to deleted inode` once the inode is gone. -/
def fstat : Except Failure InodeRow :=
  required (volume.inode? file.ino) (.error "File handle refers to deleted inode")

/-! ## Writing -/

/-- The chunk that one round of the loop in `writeDataAtOffset` stores. A chunk that is too
short, or not there, has zeros in front of the data. -/
def chunkData (offset : Nat) (data : Bytes) (chunkIdx : Nat) (existing : Option Bytes) : Bytes :=
  let chunkStart := chunkIdx * file.chunkSize
  let chunkEnd := chunkStart + file.chunkSize
  let dataStart := chunkStart - offset
  let dataEnd := min data.length (chunkEnd - offset)
  let writeOffset := offset - chunkStart
  patch 0 (existing.getD []) writeOffset ((data.take dataEnd).drop dataStart)

def writeChunk (offset : Nat) (data : Bytes) (volume : Volume) (chunkIdx : Nat) : Volume :=
  volume.putChunk file.ino chunkIdx (file.chunkData offset data chunkIdx (volume.chunk? file.ino chunkIdx))

/-- The chunks that the data meets. -/
def touchedChunks (offset : Nat) (data : Bytes) : List Nat :=
  let startChunk := offset / file.chunkSize
  let endChunk := (offset + data.length - 1) / file.chunkSize
  List.range' startChunk (endChunk + 1 - startChunk)

def writeDataAtOffset (offset : Nat) (data : Bytes) : Volume :=
  (file.touchedChunks offset data).foldl (file.writeChunk offset data) volume

def currentSize : Nat := (volume.inode? file.ino).elim 0 (·.size)

def pwrite (offset : Nat) (data : Bytes) : Except Failure Volume :=
  if data.length = 0 then return volume
  else
    let currentSize := file.currentSize volume
    let written :=
      if offset > currentSize then
        file.writeDataAtOffset volume currentSize (List.replicate (offset - currentSize) 0)
      else volume
    let written := file.writeDataAtOffset written offset data
    let newSize := max currentSize (offset + data.length)
    written.resizeInode file.ino fun row => { row with size := newSize, mtime := volume.now }

def truncate (newSize : Nat) : Except Failure Volume :=
  let shortened :=
    if newSize = 0 then volume.deleteChunks file.ino fun _ => true
    else if newSize < file.currentSize volume then volume.cutChunks file.ino file.chunkSize newSize
    else volume
  shortened.resizeInode file.ino fun row => { row with size := newSize, mtime := volume.now }

end AgentFSFile

namespace AgentFS

variable (volume : Volume)

def openFile (chunkSize : Nat) (path : Text) : Except Failure AgentFSFile := do
  let (normalizedPath, ino) ← resolvePathOrThrow volume path "open"
  refuse (knownDirectory (getInodeMode volume ino))
    (createFsError .EISDIR "open" normalizedPath "illegal operation on a directory")
  return { ino, chunkSize }

/-- The chunk rows of the file, one after the other; only the access time changes. -/
def readFile (path : Text) : Except Failure (Bytes × Volume) := do
  let (normalizedPath, ino) ← resolvePathOrThrow volume path "open"
  refuse (knownDirectory (getInodeMode volume ino))
    (createFsError .EISDIR "open" normalizedPath "illegal operation on a directory")
  let combined := ((volume.chunkRows ino fun _ => true).map (·.data)).flatten
  return (combined, volume.updateInode ino fun row => { row with atime := volume.now })

end AgentFS

/-! The chunk size of a volume, which can be chosen while the volume is empty.

Every request reaches its files through `filesystem`, which settles the chunk size first.
-/

def DEFAULT_CHUNK_SIZE : Nat := 256 * 1024
def MIN_CHUNK_SIZE : Nat := 4 * 1024
def MAX_CHUNK_SIZE : Nat := 1024 * 1024

def validateChunkSize (value : JsValue) : Except Failure Nat :=
  let invalid := Failure.error s!"chunkSize must be a power of two between {MIN_CHUNK_SIZE} and {MAX_CHUNK_SIZE} bytes"
  match value with
  | .integer size =>
    if ¬isSafeInteger size ∨ size < MIN_CHUNK_SIZE ∨ size > MAX_CHUNK_SIZE ∨ size.toNat &&& (size.toNat - 1) ≠ 0 then
      .error invalid
    else .ok size.toNat
  | _ => .error invalid

structure ChunkSizeConfiguration where
  chunkSize : Nat
  created : Bool
  deriving DecidableEq, Repr

namespace Volume

variable (volume : Volume)

def withChunkSize (chunkSize : Nat) : Volume := { volume with config := { volume.config with chunkSize := some chunkSize } }

/-- `none` stands for an omitted size. -/
def configureChunkSize (requestedChunkSize : Option JsValue) : Except Failure (ChunkSizeConfiguration × Volume) := do
  let requested ← requestedChunkSize.mapM validateChunkSize
  match volume.config.chunkSize with
  | none =>
    let chunkSize := requested.getD DEFAULT_CHUNK_SIZE
    return ({ chunkSize, created := true }, volume.withChunkSize chunkSize)
  | some current =>
    refuse (current = 0) (.error s!"Stored volume chunk size is invalid: {current}")
    match requested with
    | none => return ({ chunkSize := current, created := false }, volume)
    | some requested =>
      if current = requested then return ({ chunkSize := current, created := false }, volume)
      else
        refuse (volume.dentry.rows ≠ [] ∨ volume.data.rows ≠ [])
          (.error s!"Volume chunk size is {current} bytes and cannot change after filesystem data exists")
        return ({ chunkSize := requested, created := false }, volume.withChunkSize requested)

/-- The adapter that a request gets, by its chunk size. -/
def filesystem (requestedChunkSize : Option JsValue) : Except Failure (Nat × Volume) := do
  let (configuration, volume) ← volume.configureChunkSize requestedChunkSize
  return (configuration.chunkSize, volume)

/-- What a request reads from a file of the volume. -/
def readBack (ino : Int) (offset size : Nat) : Except Failure Bytes := do
  let (chunkSize, volume) ← volume.filesystem none
  return AgentFSFile.pread ⟨ino, chunkSize⟩ volume offset size

/-- The chunk size that requests use. -/
def chunkSize : Nat := volume.config.chunkSize.getD DEFAULT_CHUNK_SIZE

theorem readBack_eq (ino : Int) (offset size : Nat) : volume.readBack ino offset size =
    if volume.config.chunkSize = some 0 then .error (.error "Stored volume chunk size is invalid: 0")
    else .ok (AgentFSFile.pread ⟨ino, volume.chunkSize⟩ volume offset size) := by
  unfold readBack filesystem configureChunkSize chunkSize
  cases configured : volume.config.chunkSize with
  | none => rfl
  | some current =>
    cases current with
    | zero => rfl
    | succ current => rfl

end Volume

end AiryFS
