import AiryFS.Foundation.Archive
import AiryFS.Direct.FileHandle

/-! Snapshots of a volume: a copy of its tables under a new id, and their return.

The copies and the live tables are in one database, and each operation is a transaction. A
restore deletes every live row and inserts the copied ones, with the triggers of the schema
firing row by row. The configuration of the volume is not part of a snapshot.
-/

set_option autoImplicit false

namespace AiryFS

open Foundation

namespace Volume

variable (volume : Volume)

/-- `DELETE FROM fs_dentry`, one row after the other. -/
def deleteDentries : Volume :=
  volume.dentry.rows.foldl (fun volume entry => volume.deleteDentry entry.parentIno entry.name) volume

/-- `INSERT INTO fs_inode` with an inode number. -/
def storeInode (row : InodeRow) : Except Failure Volume := do
  volume.quotaInsert row.size
  match volume.inode.insert? row with
  | none => throw (.constraint "fs_inode")
  | some inode => return { volume with inode, inodeSequence := max volume.inodeSequence row.ino }

/-- The first half of a restore. -/
def deleteTables : Volume :=
  let volume := volume.deleteInodes fun _ => true
  let volume := volume.deleteDentries
  { volume with data := .empty, symlink := .empty }

/-- The second half, and the end of every lease. -/
def insertTables (inode : List InodeRow) (dentry : List DentryRow) (data : List DataRow) (symlink : List SymlinkRow) :
    Except Failure Volume := do
  let volume ← inode.foldlM storeInode volume
  let volume ← dentry.foldlM insertDentry volume
  let volume ← data.foldlM (fun volume row => volume.insertChunk row.ino row.chunkIndex row.data) volume
  let volume ← symlink.foldlM (fun volume row => volume.insertSymlink row.ino row.target) volume
  return { volume with openInode := .empty }

end Volume

structure SnapshotInfo where
  id : Text
  name : Text
  note : Option Text
  createdAt : Int
  chunkSize : Option Nat
  inodeCount : Nat
  fileCount : Nat
  directoryCount : Nat
  symlinkCount : Nat
  byteCount : Nat
  deriving DecidableEq, Repr

/-- A volume with its snapshots. -/
structure SnapshotStorage where
  volume : Volume
  snapshot : Table SnapshotInfo.id
  inode : Archive Text InodeRow.ino
  dentry : Archive Text DentryRow.key
  data : Archive Text DataRow.key
  symlink : Archive Text SymlinkRow.ino
  deriving DecidableEq

namespace SnapshotStorage

/-! ## Names and notes -/

def MAX_NAME_LENGTH : Nat := 255
def MAX_NOTE_LENGTH : Nat := 4096

def trimmable (character : Char) : Bool :=
  let code := character.toNat
  (9 ≤ code && code ≤ 13) || (0x2000 ≤ code && code ≤ 0x200A) ||
    code ∈ [0x20, 0xA0, 0x1680, 0x2028, 0x2029, 0x202F, 0x205F, 0x3000, 0xFEFF]

def trim (text : Text) : Text := (text.dropWhile trimmable).rdropWhile trimmable

def validateName (name : JsValue) : Except Failure Text :=
  match name with
  | .text name => do
    let trimmed := trim name
    refuse (trimmed.length = 0) (.coded "INVALID_NAME" "Snapshot name must not be empty")
    refuse (utf16Length trimmed > MAX_NAME_LENGTH)
      (.coded "INVALID_NAME" s!"Snapshot name must be at most {MAX_NAME_LENGTH} characters")
    refuse (trimmed.any fun character => character.toNat < 0x20)
      (.coded "INVALID_NAME" "Snapshot name must not contain control characters")
    refuse ('/' ∈ trimmed) (.coded "INVALID_NAME" "Snapshot name must not contain \"/\"")
    refuse (trimmed = ['.'] ∨ trimmed = ['.', '.'])
      (.coded "INVALID_NAME" "Snapshot name must not be \".\" or \"..\"")
    return trimmed
  | _ => .error (.coded "INVALID_NAME" "Snapshot name must be a string")

def validateNote (note : Option JsValue) : Except Failure (Option Text) :=
  match note with
  | none | some .null => .ok none
  | some (.text note) => do
    refuse (utf16Length note > MAX_NOTE_LENGTH)
      (.coded "INVALID_NOTE" s!"Snapshot note must be at most {MAX_NOTE_LENGTH} characters")
    refuse (note.any fun character => character.toNat = 0)
      (.coded "INVALID_NOTE" "Snapshot note must not contain null bytes")
    return some note
  | some _ => .error (.coded "INVALID_NOTE" "Snapshot note must be a string")

def SnapshotExistsError (name : Text) : Failure :=
  let quoted := String.ofList name
  .coded "SNAPSHOT_EXISTS" s!"A snapshot named \"{quoted}\" already exists"

def SnapshotNotFoundError (nameOrId : Text) : Failure :=
  let wanted := String.ofList nameOrId
  .coded "SNAPSHOT_NOT_FOUND" s!"Snapshot not found: {wanted}"

/-! ## Operations -/

def countByMode (inode : List InodeRow) (type : Nat) : Nat := inode.countP fun row => fileType row.mode = type

variable (storage : SnapshotStorage)

/-- The id and the default name are the random ones that the call draws. -/
def createSnapshot (id defaultName : Text) (name note : Option JsValue) :
    Except Failure (SnapshotInfo × SnapshotStorage) := do
  let validated ← name.elim (pure defaultName) validateName
  let validatedNote ← validateNote note
  refuse (storage.snapshot.rows.any fun row => row.name = validated) (SnapshotExistsError validated)
  let inode ← required (storage.inode.capture? id storage.volume.inode.rows) (.constraint "fs_snapshot_inode")
  let dentry ← required (storage.dentry.capture? id storage.volume.dentry.rows) (.constraint "fs_snapshot_dentry")
  let data ← required (storage.data.capture? id storage.volume.data.rows) (.constraint "fs_snapshot_data")
  let symlink ← required (storage.symlink.capture? id storage.volume.symlink.rows) (.constraint "fs_snapshot_symlink")
  let info : SnapshotInfo := {
    id
    name := validated
    note := validatedNote
    createdAt := storage.volume.now
    chunkSize := storage.volume.config.chunkSize
    inodeCount := (inode.select id).length
    fileCount := countByMode (inode.select id) S_IFREG
    directoryCount := countByMode (inode.select id) S_IFDIR
    symlinkCount := countByMode (inode.select id) S_IFLNK
    byteCount := ((data.select id).map fun row => row.data.length).sum }
  let snapshot ← required (storage.snapshot.insert? info) (.constraint "fs_snapshot")
  return (info, { storage with snapshot, inode, dentry, data, symlink })

/-- By id first, then by name. -/
def resolveSnapshot (nameOrId : Text) : Option SnapshotInfo :=
  if nameOrId.length = 0 then none
  else match storage.snapshot.find? nameOrId with
    | some info => some info
    | none => storage.snapshot.rows.find? fun row => row.name = nameOrId

def requireSnapshot (nameOrId : Text) : Except Failure SnapshotInfo :=
  required (storage.resolveSnapshot nameOrId) (SnapshotNotFoundError nameOrId)

def deleteSnapshot (nameOrId : Text) : Except Failure (SnapshotInfo × SnapshotStorage) := do
  let info ← storage.requireSnapshot nameOrId
  return (info, { storage with
    snapshot := storage.snapshot.erase info.id
    inode := storage.inode.drop info.id
    dentry := storage.dentry.drop info.id
    data := storage.data.drop info.id
    symlink := storage.symlink.drop info.id })

def restoreSnapshot (nameOrId : Text) : Except Failure (SnapshotInfo × SnapshotStorage) := do
  let info ← storage.requireSnapshot nameOrId
  let volume ← storage.volume.deleteTables.insertTables (storage.inode.select info.id) (storage.dentry.select info.id)
    (storage.data.select info.id) (storage.symlink.select info.id)
  return (info, { storage with volume })

/-- What can happen to a volume and its snapshots. -/
inductive Action where
  /-- Any statements on the filesystem tables. They do not choose the chunk size. -/
  | mutate (change : Volume → Volume)
  | createSnapshot (id defaultName : Text) (name note : Option JsValue)
  | deleteSnapshot (nameOrId : Text)
  | restoreSnapshot (nameOrId : Text)
  | configureChunkSize (requestedChunkSize : Option JsValue)

def step (action : Action) : SnapshotStorage :=
  match action with
  | .mutate change =>
    let changed := change storage.volume
    { storage with volume := { changed with config := { changed.config with chunkSize := storage.volume.config.chunkSize } } }
  | .createSnapshot id defaultName name note =>
    settle storage ((storage.createSnapshot id defaultName name note).map Prod.snd)
  | .deleteSnapshot nameOrId => settle storage ((storage.deleteSnapshot nameOrId).map Prod.snd)
  | .restoreSnapshot nameOrId => settle storage ((storage.restoreSnapshot nameOrId).map Prod.snd)
  | .configureChunkSize requested =>
    settle storage ((storage.volume.configureChunkSize requested).map fun result => { storage with volume := result.2 })

def initial (clock : Int) : SnapshotStorage := ⟨.fresh clock, .empty, .empty, .empty, .empty, .empty⟩

end SnapshotStorage

end AiryFS
