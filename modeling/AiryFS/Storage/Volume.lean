import AiryFS.Foundation.Table
import AiryFS.Storage.Values
import Mathlib.Data.List.Sort

/-! Directory entries, the paths they spell, and the change feed the triggers write.

Entries are kept in the order of their `id` column, which is what the triggers sort by.
-/

set_option autoImplicit false

namespace AiryFS

structure DentryRow where
  name : Text
  parentIno : Int
  ino : Int
  deriving DecidableEq, Repr

/-- `UNIQUE(parent_ino, name)`. -/
def DentryRow.key (row : DentryRow) : Int × Text := (row.parentIno, row.name)

abbrev DentryTable := Foundation.Table DentryRow.key

inductive ChangeType where
  | create | modify | remove | rename
  deriving DecidableEq, Repr

structure ChangeRow where
  seq : Nat
  type : ChangeType
  path : Text
  oldPath : Option Text
  ino : Int
  timestamp : Int
  deriving DecidableEq, Repr

/-- `fs_change_feed` with the counter of `fs_change_sequence`. -/
structure Feed where
  nextSeq : Nat
  rows : List ChangeRow
  deriving DecidableEq, Repr

def CHANGE_FEED_RETENTION : Nat := 10000

def Feed.initial : Feed := ⟨1, []⟩

/-- Append an event, then run the retention trigger on the new sequence number. -/
def Feed.push (feed : Feed) (type : ChangeType) (path : Text) (oldPath : Option Text) (ino timestamp : Int) :
    Feed where
  nextSeq := feed.nextSeq + 1
  rows := (feed.rows ++ [{ seq := feed.nextSeq, type, path, oldPath, ino, timestamp : ChangeRow }]).filter
    fun row => feed.nextSeq < row.seq + CHANGE_FEED_RETENTION

/-- The recursion of `pathExpr`, one queue level per step. A level answers with its first
row under the root; otherwise every row is extended by the entries naming its parent. The
recursion of the query itself does not end on a cycle. -/
def resolveLevels (entries : List DentryRow) : Nat → List (Int × Text) → Option Text
  | 0, _ => none
  | levels + 1, frontier =>
    match frontier.find? fun row => row.1 = 1 with
    | some row => some row.2
    | none => resolveLevels entries levels <| frontier.flatMap fun row =>
        (entries.filter fun entry => entry.ino = row.1).map fun entry =>
          (entry.parentIno, '/' :: entry.name ++ row.2)

/-- The absolute path of an entry, when its ancestors reach the root. -/
def pathExpr (entries : List DentryRow) (parentIno : Int) (name : Text) : Option Text :=
  resolveLevels entries (entries.length + 1) [(parentIno, '/' :: name)]

def DentryRow.path (entries : List DentryRow) (row : DentryRow) : Option Text :=
  pathExpr entries row.parentIno row.name

/-- `trg_fs_change_create` and `trg_fs_change_remove`. -/
def Feed.entryEvent (feed : Feed) (type : ChangeType) (entries : List DentryRow) (row : DentryRow)
    (timestamp : Int) : Feed :=
  match row.path entries with
  | none => feed
  | some path => feed.push type path none row.ino timestamp

/-- `trg_fs_change_rename`. -/
def Feed.renameEvent (feed : Feed) (entries : List DentryRow) (old new : DentryRow) (timestamp : Int) : Feed :=
  if old.name = new.name ∧ old.parentIno = new.parentIno then feed
  else match new.path entries with
    | none => feed
    | some path => feed.push .rename path (old.path entries) new.ino timestamp

/-- `trg_fs_change_modify`: one event for each linked path of the inode. -/
def Feed.modifyEvents (feed : Feed) (entries : List DentryRow) (ino timestamp : Int) : Feed :=
  ((entries.filter fun link => link.ino = ino).filterMap (DentryRow.path entries)).foldl
    (fun feed path => feed.push .modify path none ino timestamp) feed

example : pathExpr [⟨"a".toList, 1, 2⟩, ⟨"b".toList, 2, 3⟩] 3 "c".toList = some "/a/b/c".toList := by
  decide

/-! The filesystem tables of a volume and the statements the code runs on them.

Each statement includes the triggers of the schema: the cleanup after an inode is
deleted, the quota checks before an inode is inserted or grows, and the change feed.
A violated constraint or a raised abort has no resulting volume, so a transaction
that meets one leaves the volume it started from. Stored integers are ones a JavaScript
number holds exactly.
-/

open Foundation (Table)

structure InodeRow where
  ino : Int
  mode : Int
  nlink : Int
  uid : Int
  gid : Int
  size : Nat
  atime : Int
  mtime : Int
  ctime : Int
  rdev : Int
  atimeNsec : Int
  mtimeNsec : Int
  ctimeNsec : Int
  deriving DecidableEq, Repr

structure DataRow where
  ino : Int
  chunkIndex : Nat
  data : Bytes
  deriving DecidableEq, Repr

def DataRow.key (row : DataRow) : Int × Nat := (row.ino, row.chunkIndex)

structure SymlinkRow where
  ino : Int
  target : Text
  deriving DecidableEq, Repr

structure OpenInodeRow where
  sessionId : Text
  ino : Int
  openCount : Int
  expiresAt : Int
  deriving DecidableEq, Repr

def OpenInodeRow.key (row : OpenInodeRow) : Text × Int := (row.sessionId, row.ino)

/-- The entries of `fs_config` that the filesystem code reads. -/
structure Config where
  chunkSize : Option Nat
  quotaBytes : Option Nat
  quotaInodes : Option Nat
  deriving DecidableEq, Repr

abbrev InodeTable := Table InodeRow.ino
abbrev DataTable := Table DataRow.key
abbrev SymlinkTable := Table SymlinkRow.ino
abbrev OpenInodeTable := Table OpenInodeRow.key

structure Volume where
  inode : InodeTable
  dentry : DentryTable
  data : DataTable
  symlink : SymlinkTable
  openInode : OpenInodeTable
  /-- `sqlite_sequence`: the largest inode number ever stored. -/
  inodeSequence : Int
  config : Config
  feed : Feed
  /-- `Date.now()`, in milliseconds. -/
  clock : Int
  deriving DecidableEq

def ROOT_INO : Int := 1

def Volume.now (volume : Volume) : Int := volume.clock / 1000

/-- The columns an inode row gets when the statement names only `mode`, `uid`, `gid` and one time. -/
def InodeRow.create (mode uid gid now : Int) : InodeRow where
  ino := 0
  mode := mode
  nlink := 0
  uid := uid
  gid := gid
  size := 0
  atime := now
  mtime := now
  ctime := now
  rdev := 0
  atimeNsec := 0
  mtimeNsec := 0
  ctimeNsec := 0

/-- The root directory that `initSchema` seeds: mode 0o040755 and one link. -/
def InodeRow.root (now : Int) : InodeRow := { InodeRow.create 16877 0 0 now with ino := ROOT_INO, nlink := 1 }

/-- A volume after `initSchema` at the given time. -/
def Volume.fresh (clock : Int) : Volume where
  inode := ⟨[InodeRow.root (clock / 1000)], List.nodup_singleton _⟩
  dentry := .empty
  data := .empty
  symlink := .empty
  openInode := .empty
  inodeSequence := 1
  config := ⟨none, none, none⟩
  feed := .initial
  clock := clock

namespace Volume

variable (volume : Volume)

def inode? (ino : Int) : Option InodeRow := volume.inode.find? ino

def dentry? (parentIno : Int) (name : Text) : Option DentryRow := volume.dentry.find? (parentIno, name)

def hasChildren (ino : Int) : Bool := volume.dentry.rows.any fun entry => entry.parentIno = ino

/-- The number of directory entries that name an inode. -/
def links (ino : Int) : Nat := volume.dentry.count fun entry => entry.ino = ino

/-! ## Statements on `fs_inode` -/

def usedBytes : Nat := (volume.inode.rows.map (·.size)).sum

/-- `trg_fs_inode_quota_insert`. -/
def quotaInsert (size : Nat) : Except Failure Unit := do
  match volume.config.quotaInodes with
  | some quota => if volume.inode.rows.length + 1 > quota then throw (.abort "AIRYFS_ENOSPC_INODES")
  | none => pure ()
  match volume.config.quotaBytes with
  | some quota => if size > 0 ∧ volume.usedBytes + size > quota then throw (.abort "AIRYFS_ENOSPC_BYTES")
  | none => pure ()

/-- `trg_fs_inode_quota_update`. -/
def quotaUpdate (old new : Nat) : Except Failure Unit :=
  match volume.config.quotaBytes with
  | some quota =>
    if new > old ∧ volume.usedBytes - old + new > quota then throw (.abort "AIRYFS_ENOSPC_BYTES") else pure ()
  | none => pure ()

/-- `INSERT INTO fs_inode` without an inode number: AUTOINCREMENT supplies one that no
row of the table ever had. -/
def insertInode (row : InodeRow) : Except Failure (Int × Volume) := do
  let ino := volume.inodeSequence + 1
  volume.quotaInsert row.size
  match volume.inode.insert? { row with ino } with
  | none => throw (.constraint "fs_inode")
  | some inode => return (ino, { volume with inode, inodeSequence := ino })

def changeRow (ino : Int) (change : InodeRow → InodeRow) (row : InodeRow) : InodeRow :=
  if row.ino = ino then { change row with ino := row.ino } else row

theorem changeRow_ino (ino : Int) (change : InodeRow → InodeRow) (row : InodeRow) :
    (changeRow ino change row).ino = row.ino := by
  unfold changeRow
  split <;> rfl

/-- `UPDATE fs_inode SET .. WHERE ino = ?` on columns that no trigger watches. -/
def updateInode (ino : Int) (change : InodeRow → InodeRow) : Volume :=
  { volume with inode := volume.inode.modify (changeRow ino change) (changeRow_ino ino change) }

/-- The same on `mtime` or `mode`, which the feed watches. -/
def modifyInode (ino : Int) (change : InodeRow → InodeRow) : Volume :=
  match volume.inode? ino with
  | none => volume
  | some old =>
    let updated := volume.updateInode ino change
    if isRegular (change old).mode ∨ old.mode ≠ (change old).mode then
      { updated with feed := updated.feed.modifyEvents updated.dentry.rows ino volume.now }
    else updated

/-- The same with a new `size`, which the quota also watches. -/
def resizeInode (ino : Int) (change : InodeRow → InodeRow) : Except Failure Volume := do
  match volume.inode? ino with
  | none => return volume
  | some old =>
    volume.quotaUpdate old.size (change old).size
    return volume.modifyInode ino change

/-- `DELETE FROM fs_inode WHERE ..` with `trg_fs_inode_delete_cleanup`. -/
def deleteInodes (selected : InodeRow → Bool) : Volume :=
  let removed (ino : Int) : Bool := volume.inode.rows.any fun row => row.ino = ino && selected row
  { volume with
    inode := volume.inode.deleteWhere selected
    data := volume.data.deleteWhere fun row => removed row.ino
    symlink := volume.symlink.deleteWhere fun row => removed row.ino
    openInode := volume.openInode.deleteWhere fun row => removed row.ino }

def deleteInode (ino : Int) : Volume := volume.deleteInodes fun row => row.ino = ino

/-! ## Statements on `fs_dentry` -/

def insertDentry (row : DentryRow) : Except Failure Volume :=
  match volume.dentry.insert? row with
  | none => .error (.constraint "fs_dentry")
  | some dentry => .ok { volume with
      dentry, feed := volume.feed.entryEvent .create dentry.rows row volume.now }

/-- `DELETE FROM fs_dentry WHERE parent_ino = ? AND name = ?`. -/
def deleteDentry (parentIno : Int) (name : Text) : Volume :=
  match volume.dentry? parentIno name with
  | none => volume
  | some row =>
    let dentry := volume.dentry.erase (parentIno, name)
    { volume with dentry, feed := volume.feed.entryEvent .remove dentry.rows row volume.now }

/-- `UPDATE fs_dentry SET parent_ino = ?, name = ? WHERE parent_ino = ? AND name = ?`. -/
def moveDentry (newParentIno : Int) (newName : Text) (oldParentIno : Int) (oldName : Text) :
    Except Failure Volume :=
  match volume.dentry? oldParentIno oldName with
  | none => .ok volume
  | some row =>
    let moved := { row with parentIno := newParentIno, name := newName }
    match volume.dentry.update? (fun entry => entry.key = (oldParentIno, oldName))
        (fun entry => { entry with parentIno := newParentIno, name := newName }) with
    | none => .error (.constraint "fs_dentry")
    | some dentry => .ok { volume with
        dentry, feed := volume.feed.renameEvent dentry.rows row moved volume.now }

/-! ## Statements on `fs_data` and `fs_symlink` -/

def chunk? (ino : Int) (chunkIndex : Nat) : Option Bytes :=
  (volume.data.find? (ino, chunkIndex)).map (·.data)

/-- `SELECT .. FROM fs_data WHERE ino = ? AND .. ORDER BY chunk_index ASC`. -/
def chunkRows (ino : Int) (selected : Nat → Bool) : List DataRow :=
  (volume.data.rows.filter fun row => row.ino = ino && selected row.chunkIndex).insertionSort
    fun first second => first.chunkIndex ≤ second.chunkIndex

/-- `INSERT OR REPLACE`, and `INSERT .. ON CONFLICT DO UPDATE`. -/
def putChunk (ino : Int) (chunkIndex : Nat) (data : Bytes) : Volume :=
  { volume with data := volume.data.upsert ⟨ino, chunkIndex, data⟩ }

def insertChunk (ino : Int) (chunkIndex : Nat) (data : Bytes) : Except Failure Volume :=
  match volume.data.insert? ⟨ino, chunkIndex, data⟩ with
  | none => .error (.constraint "fs_data")
  | some data => .ok { volume with data }

/-- `UPDATE fs_data SET data = ?`: no row, no effect. -/
def updateChunk (ino : Int) (chunkIndex : Nat) (data : Bytes) : Volume :=
  match volume.chunk? ino chunkIndex with
  | none => volume
  | some _ => volume.putChunk ino chunkIndex data

def deleteChunks (ino : Int) (selected : Nat → Bool) : Volume :=
  { volume with data := volume.data.deleteWhere fun row => row.ino = ino && selected row.chunkIndex }

/-- How both writers make a file shorter: drop the chunks past the new last one, and cut that
one when it is longer than what remains of it. -/
def cutChunks (ino : Int) (chunkSize newSize : Nat) : Volume :=
  let lastChunkIdx := (newSize - 1) / chunkSize
  let volume := volume.deleteChunks ino fun chunkIndex => chunkIndex > lastChunkIdx
  let offsetInChunk := newSize % chunkSize
  if offsetInChunk > 0 then
    match volume.chunk? ino lastChunkIdx with
    | none => volume
    | some existingData =>
      if existingData.length > offsetInChunk then
        volume.updateChunk ino lastChunkIdx (existingData.take offsetInChunk)
      else volume
  else volume

def insertSymlink (ino : Int) (target : Text) : Except Failure Volume :=
  match volume.symlink.insert? ⟨ino, target⟩ with
  | none => .error (.constraint "fs_symlink")
  | some symlink => .ok { volume with symlink }

/-- An unexpired lease with a positive open count. -/
def leased (ino now : Int) : Bool :=
  volume.openInode.rows.any fun row => row.ino = ino && row.openCount > 0 && row.expiresAt > now

end Volume

end AiryFS
