import AiryFS.Contents.Writing

/-! What the tables hold of one file, and the direct write as a function of it alone.

Nothing is asked of the layout of the chunks here, so a sequence of writes can be replayed
on any file.
-/

set_option autoImplicit false

namespace AiryFS

open Foundation

/-- The chunk rows of a file and, while its inode exists, its size. -/
@[ext] structure FileBytes where
  chunks : Nat → Option Bytes
  size : Option Nat

def Volume.fileBytes (volume : Volume) (ino : Int) : FileBytes :=
  ⟨volume.chunk? ino, (volume.inode? ino).map (·.size)⟩

namespace FileBytes

def writeChunk (file : AgentFSFile) (offset : Nat) (data : Bytes) (chunks : Nat → Option Bytes) (chunkIdx : Nat) :
    Nat → Option Bytes :=
  Function.update chunks chunkIdx (some (file.chunkData offset data chunkIdx (chunks chunkIdx)))

def writeDataAtOffset (file : AgentFSFile) (chunks : Nat → Option Bytes) (offset : Nat) (data : Bytes) :
    Nat → Option Bytes :=
  (file.touchedChunks offset data).foldl (writeChunk file offset data) chunks

def pwrite (file : AgentFSFile) (bytes : FileBytes) (offset : Nat) (data : Bytes) : FileBytes :=
  if data.length = 0 then bytes
  else
    let currentSize := bytes.size.getD 0
    let chunks :=
      if offset > currentSize then
        writeDataAtOffset file bytes.chunks currentSize (List.replicate (offset - currentSize) 0)
      else bytes.chunks
    ⟨writeDataAtOffset file chunks offset data, bytes.size.map fun size => max size (offset + data.length)⟩

end FileBytes

namespace AgentFSFile

variable {file : AgentFSFile} {volume volume' : Volume}

theorem currentSize_eq (file : AgentFSFile) (volume : Volume) :
    file.currentSize volume = (volume.fileBytes file.ino).size.getD 0 := by
  rw [currentSize, Volume.fileBytes]
  cases volume.inode? file.ino <;> rfl

theorem chunk?_writeDataAtOffset (file : AgentFSFile) (volume : Volume) (offset : Nat) (data : Bytes) :
    (file.writeDataAtOffset volume offset data).chunk? file.ino =
      FileBytes.writeDataAtOffset file (volume.chunk? file.ino) offset data := by
  unfold writeDataAtOffset FileBytes.writeDataAtOffset
  induction file.touchedChunks offset data generalizing volume with
  | nil => rfl
  | cons index indexes ih =>
    rw [List.foldl_cons, List.foldl_cons, ih, FileBytes.writeChunk, writeChunk, Volume.chunk?_putChunk]

/-- The write on the tables is the write on what they hold of the file. -/
theorem pwrite_fileBytes {offset : Nat} {data : Bytes} (written : file.pwrite volume offset data = .ok volume') :
    volume'.fileBytes file.ino = (volume.fileBytes file.ino).pwrite file offset data := by
  unfold pwrite at written
  unfold FileBytes.pwrite
  split at written
  · rename_i none
    rw [if_pos none, ← pure_eq_ok.mp written]
  · rename_i some
    rw [if_neg some, ← currentSize_eq]
    dsimp only at written ⊢
    have gap : (if offset > file.currentSize volume then file.writeDataAtOffset volume (file.currentSize volume)
        (List.replicate (offset - file.currentSize volume) 0) else volume).chunk? file.ino =
          if offset > file.currentSize volume then FileBytes.writeDataAtOffset file (volume.chunk? file.ino)
            (file.currentSize volume) (List.replicate (offset - file.currentSize volume) 0)
          else volume.chunk? file.ino := by
      split
      · exact chunk?_writeDataAtOffset _ _ _ _
      · rfl
    have tables : Volume.Rewrites file.ino volume (if offset > file.currentSize volume then
        file.writeDataAtOffset volume (file.currentSize volume) (List.replicate (offset - file.currentSize volume) 0)
        else volume) := by
      split
      · exact writeDataAtOffset_rewrites _ _ _ _
      · exact .refl _ _
    have size : file.currentSize volume = (volume.inode? file.ino).elim 0 (·.size) := rfl
    have rewrites := tables.trans (writeDataAtOffset_rewrites file _ offset data)
    have chunks := chunk?_writeDataAtOffset file (if offset > file.currentSize volume then file.writeDataAtOffset volume
      (file.currentSize volume) (List.replicate (offset - file.currentSize volume) 0) else volume) offset data
    rw [gap] at chunks
    generalize file.writeDataAtOffset (if offset > file.currentSize volume then file.writeDataAtOffset volume
      (file.currentSize volume) (List.replicate (offset - file.currentSize volume) 0) else volume) offset data = table
      at written rewrites chunks
    obtain ⟨⟨data', rfl⟩, _⟩ := rewrites
    rw [Volume.resizeInode_ok _ _ _ written]
    apply FileBytes.ext
    · change Volume.chunk? (Volume.modifyInode _ _ _) _ = _
      rw [Volume.chunk?_modifyInode]
      exact chunks
    · change (Volume.inode? (Volume.modifyInode _ _ _) _).map _ = _
      rw [Volume.inode?_modifyInode, Volume.inode?_updateInode]
      change ((volume.inode? file.ino).map _).map _ = ((volume.inode? file.ino).map _).map _
      cases stored : volume.inode? file.ino with
      | none => rfl
      | some row =>
        have numbered : row.ino = file.ino := volume.inode.find?_key stored
        rw [size, stored]
        simp [Volume.changeRow, numbered]

end AgentFSFile

namespace Volume

variable {volume volume' : Volume} {ino : Int}

theorem Edits.fileBytes (edits : Edits ino volume volume') {other : Int} (different : other ≠ ino) :
    volume'.fileBytes other = volume.fileBytes other := by
  rw [Volume.fileBytes, edits.chunks other different, edits.inodes other different]
  rfl

/-- An update that keeps the sizes keeps what the tables hold of every file. -/
theorem fileBytes_updateInode (volume : Volume) (ino : Int) {change : InodeRow → InodeRow}
    (kept : ∀ row, (change row).size = row.size) (other : Int) :
    (volume.updateInode ino change).fileBytes other = volume.fileBytes other := by
  apply FileBytes.ext
  · rfl
  · change ((volume.updateInode ino change).inode? other).map _ = (volume.inode? other).map _
    rw [inode?_updateInode, Option.map_map]
    congr 1
    funext row
    unfold changeRow
    simp only [Function.comp_apply]
    split
    · exact kept row
    · rfl

end Volume

end AiryFS
