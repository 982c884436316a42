import AiryFS.Remote.Compound
import AiryFS.Foundation.Chunks

/-! The remote client's writes to file contents, one statement each. -/

set_option autoImplicit false

namespace AiryFS

open Foundation

namespace Remote

variable (volume : Volume)

/-- The arguments of `airyfs_pwrite_v1` after its checks. -/
structure Pwrite where
  ino : Int
  offset : Nat
  data : Bytes
  chunkSize : Nat
  nowSecs : Int
  nowNsecs : Int
  deriving DecidableEq, Repr

def Pwrite.parse (bindings : List JsValue) : Except Failure Pwrite := do
  refuse (bindings.length ≠ 6) (.error "airyfs_pwrite_v1 requires six arguments")
  let ino ← requireSafeInteger (binding bindings 0) "ino"
  let offset ← requireSafeInteger (binding bindings 1) "offset"
  let data ← requireBytes (binding bindings 2)
  let chunkSize ← requireSafeInteger (binding bindings 3) "chunk_size"
  let nowSecs ← requireSafeInteger (binding bindings 4) "now_secs"
  let nowNsecs ← requireSafeInteger (binding bindings 5) "now_nsecs"
  refuse (ino ≤ 0 ∨ offset < 0 ∨ chunkSize ≤ 0 ∨ data.length = 0) (.error "invalid airyfs_pwrite_v1 arguments")
  refuse (¬isSafeInteger (offset + data.length)) (.error "write end is outside the supported range")
  return { ino, offset := offset.toNat, data, chunkSize := chunkSize.toNat, nowSecs, nowNsecs }

/-- One round of the loop: the part of the data that falls into one chunk. -/
def Pwrite.writeChunk (ino : Int) (chunkSize currentOffset : Nat) (piece : Bytes) : Volume :=
  let chunkIndex := currentOffset / chunkSize
  let chunkData :=
    if piece.length = chunkSize then piece
    else patch 0 ((volume.chunk? ino chunkIndex).getD []) (currentOffset % chunkSize) piece
  volume.putChunk ino chunkIndex chunkData

/-- The loop from the given offset on, with the data not written yet. Every round writes some
of it, so there are no more rounds than bytes. -/
def Pwrite.loop (ino : Int) (chunkSize : Nat) : Nat → Volume → Nat → Bytes → Volume
  | 0, volume, _, _ => volume
  | rounds + 1, volume, currentOffset, data =>
    if data.length = 0 then volume
    else
      let toWrite := min (chunkSize - currentOffset % chunkSize) data.length
      Pwrite.loop ino chunkSize rounds (Pwrite.writeChunk volume ino chunkSize currentOffset (data.take toWrite))
        (currentOffset + toWrite) (data.drop toWrite)

def Pwrite.run (call : Pwrite) : Except Failure Volume := do
  let shown := toString call.ino
  refuse (volume.inode? call.ino = none) (.error s!"inode not found: {shown}")
  let written := Pwrite.loop call.ino call.chunkSize call.data.length volume call.offset call.data
  let writeEnd := call.offset + call.data.length
  written.resizeInode call.ino fun row => { row with
    size := max row.size writeEnd, mtime := call.nowSecs, mtimeNsec := call.nowNsecs }

/-- The result is the number of bytes written. -/
def executeRemotePwrite (bindings : List JsValue) : Except Failure (Int × Volume) := do
  let call ← Pwrite.parse bindings
  let volume ← call.run volume
  return (call.data.length, volume)

/-! ## Truncating -/

structure Truncate where
  ino : Int
  newSize : Nat
  chunkSize : Nat
  nowSecs : Int
  nowNsecs : Int
  deriving DecidableEq, Repr

def Truncate.parse (bindings : List JsValue) : Except Failure Truncate := do
  refuse (bindings.length ≠ 5) (.error "airyfs_truncate_v1 requires five arguments")
  let ino ← requireSafeInteger (binding bindings 0) "ino"
  let newSize ← requireSafeInteger (binding bindings 1) "new_size"
  let chunkSize ← requireSafeInteger (binding bindings 2) "chunk_size"
  let nowSecs ← requireSafeInteger (binding bindings 3) "now_secs"
  let nowNsecs ← requireSafeInteger (binding bindings 4) "now_nsecs"
  refuse (ino ≤ 0 ∨ newSize < 0 ∨ chunkSize ≤ 0) (.error "invalid airyfs_truncate_v1 arguments")
  return { ino, newSize := newSize.toNat, chunkSize := chunkSize.toNat, nowSecs, nowNsecs }

/-- The length of a chunk in a file that ends with the chunk `lastNewChunk`. -/
def Truncate.chunkLength (call : Truncate) (lastNewChunk chunkIndex : Nat) : Nat :=
  if chunkIndex = lastNewChunk then (call.newSize - 1) % call.chunkSize + 1 else call.chunkSize

/-- The chunks when the file gets longer: the last one is filled up, and new ones are zeros. -/
def Truncate.extend (call : Truncate) (currentSize : Nat) : Volume :=
  let lastExistingChunk := if currentSize = 0 then none else some ((currentSize - 1) / call.chunkSize)
  let lastNewChunk := (call.newSize - 1) / call.chunkSize
  let padded :=
    match lastExistingChunk with
    | none => volume
    | some last =>
      match volume.chunk? call.ino last with
      | none => volume
      | some data =>
        let neededLength := call.chunkLength lastNewChunk last
        if data.length < neededLength then volume.updateChunk call.ino last (pad 0 data neededLength) else volume
  let firstNewChunk := lastExistingChunk.elim 0 (· + 1)
  (List.range' firstNewChunk (lastNewChunk + 1 - firstNewChunk)).foldl
    (fun volume chunkIndex => volume.putChunk call.ino chunkIndex
      (List.replicate (call.chunkLength lastNewChunk chunkIndex) 0)) padded

def Truncate.run (call : Truncate) : Except Failure (Int × Volume) :=
  match volume.inode? call.ino with
  | none => return (-1, volume)
  | some inode => do
    let resized :=
      if call.newSize = 0 then volume.deleteChunks call.ino fun _ => true
      else if call.newSize < inode.size then volume.cutChunks call.ino call.chunkSize call.newSize
      else if call.newSize > inode.size then call.extend volume inode.size
      else volume
    let volume ← resized.resizeInode call.ino fun row => { row with
      size := call.newSize, mtime := call.nowSecs, ctime := call.nowSecs,
      mtimeNsec := call.nowNsecs, ctimeNsec := call.nowNsecs }
    return (call.ino, volume)

def executeRemoteTruncate (bindings : List JsValue) : Except Failure (Int × Volume) := do
  let call ← Truncate.parse bindings
  call.run volume

end Remote

end AiryFS
