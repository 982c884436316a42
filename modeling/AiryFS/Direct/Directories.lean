import AiryFS.Direct.FileHandle
import Mathlib.Data.List.Lex

/-! Listing, symbolic links and recursive removal in the direct adapter.

A listing is read once, in the order of the names' bytes, before anything below it is touched.
-/

set_option autoImplicit false

namespace AiryFS

open Foundation

/-- `ORDER BY name ASC`: the order of the bytes of UTF-8 is that of the code points. -/
def DentryRow.Ordered (first second : DentryRow) : Prop := first.name.map Char.toNat ≤ second.name.map Char.toNat

instance : DecidableRel DentryRow.Ordered := fun first second =>
  inferInstanceAs (Decidable (first.name.map Char.toNat ≤ second.name.map Char.toNat))

namespace AgentFS

variable (volume : Volume)

/-- `SELECT .. FROM fs_dentry WHERE parent_ino = ? ORDER BY name ASC`. -/
def entriesOf (ino : Int) : List DentryRow :=
  (volume.dentry.rows.filter fun entry => entry.parentIno = ino).insertionSort DentryRow.Ordered

/-- The directory that `readdir` and `readdirPlus` list. -/
def scandir (path : Text) : Except Failure Int := do
  let (normalizedPath, ino) ← resolvePathOrThrow volume path "scandir"
  refuse (knownFile (getInodeMode volume ino)) (createFsError .ENOTDIR "scandir" normalizedPath "not a directory")
  return ino

def readdir (path : Text) : Except Failure (List Text) := do
  let ino ← scandir volume path
  return (entriesOf volume ino).map (·.name)

/-- The entries with the rows they join. -/
def readdirPlus (path : Text) : Except Failure (List (Text × InodeRow)) := do
  let ino ← scandir volume path
  return (entriesOf volume ino).filterMap fun entry => (volume.inode? entry.ino).map fun row => (entry.name, row)

def stat (path : Text) : Except Failure InodeRow := do
  let (normalizedPath, ino) ← resolvePathOrThrow volume path "stat"
  required (volume.inode? ino) (createFsError .ENOENT "stat" normalizedPath "no such file or directory")

/-! ## Symbolic links -/

/-- `UPDATE fs_inode SET size = ? WHERE ino = ?`: the quota watches it, the feed does not. -/
def setSize (ino : Int) (size : Nat) : Except Failure Volume := do
  match volume.inode? ino with
  | none => return volume
  | some row =>
    volume.quotaUpdate row.size size
    return volume.updateInode ino fun row => { row with size := size }

def symlink (target linkpath : Text) : Except Failure Volume := do
  let normalizedLinkpath := normalizePath linkpath
  refuse (resolvePath volume normalizedLinkpath).isSome
    (createFsError .EEXIST "open" normalizedLinkpath "file already exists")
  let (parentIno, name) ← required (resolveParent volume normalizedLinkpath)
    (createFsError .ENOENT "open" normalizedLinkpath "no such file or directory")
  let (symlinkIno, volume) ← createInode volume (S_IFLNK ||| 0o777 : Nat) 0 0
  let volume ← createDentry volume parentIno name symlinkIno
  let volume ← volume.insertSymlink symlinkIno target
  setSize volume symlinkIno (utf16Length target)

def readlink (path : Text) : Except Failure Text := do
  let (normalizedPath, ino) ← resolvePathOrThrow volume path "open"
  refuse (¬(getInodeMode volume ino).any isSymlink) (createFsError .EINVAL "open" normalizedPath "invalid argument")
  let row ← required (volume.symlink.find? ino)
    (createFsError .ENOENT "open" normalizedPath "no such file or directory")
  return row.target

/-! ## Removal -/

/-- The recursion of `rmDirContentsRecursive`, to a depth that no chain of entries exceeds. A cycle of
entries would not end it. -/
def rmDirContentsRecursive : Nat → Volume → Int → Volume
  | 0, volume, _ => volume
  | depth + 1, volume, dirIno =>
    (entriesOf volume dirIno).foldl (fun volume child =>
      match getInodeMode volume child.ino with
      | none => volume
      | some mode =>
        let volume := if isDirectory mode then rmDirContentsRecursive depth volume child.ino else volume
        removeDentryAndMaybeInode volume dirIno child.name child.ino) volume

def rm (path : Text) (force recursive : Bool) : Except Failure Volume := do
  let normalizedPath := normalizePath path
  refuse (normalizedPath = ['/']) (createFsError .EPERM "rm" normalizedPath "operation not permitted")
  let missing := createFsError .ENOENT "rm" normalizedPath "no such file or directory"
  match resolvePath volume normalizedPath with
  | none => if force then return volume else throw missing
  | some ino =>
    match getInodeMode volume ino with
    | none => if force then return volume else throw missing
    | some mode =>
      let (parentIno, name) ← required (resolveParent volume normalizedPath)
        (createFsError .EPERM "rm" normalizedPath "operation not permitted")
      if isDirectory mode then
        refuse (¬recursive) (createFsError .EISDIR "rm" normalizedPath "illegal operation on a directory")
        let emptied := rmDirContentsRecursive (volume.dentry.rows.length + 1) volume ino
        return removeDentryAndMaybeInode emptied parentIno name ino
      else return removeDentryAndMaybeInode volume parentIno name ino

end AgentFS

/-! Copying one file through the direct adapter: the chunk rows of its inode under another. -/

namespace AgentFS

variable (volume : Volume)

/-- The loop that inserts the chunk rows of the source for the destination. -/
def copyChunks (srcIno destIno : Int) : Except Failure Volume :=
  insertChunks volume destIno ((volume.chunkRows srcIno fun _ => true).map fun row => (row.chunkIndex, row.data))

/-- The transaction onto an inode that is there: its own chunks go first, and it takes the
mode and the owner of the source. -/
def overwriteFile (srcIno destIno : Int) (srcRow : InodeRow) : Except Failure Volume := do
  let now := volume.now
  let volume := volume.deleteChunks destIno fun _ => true
  let volume ← copyChunks volume srcIno destIno
  volume.resizeInode destIno fun row => { row with
    mode := srcRow.mode, uid := srcRow.uid, gid := srcRow.gid, size := srcRow.size, mtime := now, ctime := now }

/-- The transaction under a new name. -/
def duplicateFile (srcIno : Int) (srcRow : InodeRow) (parentIno : Int) (name : Text) : Except Failure Volume := do
  let now := volume.now
  let (destIno, volume) ← createInode volume srcRow.mode srcRow.uid srcRow.gid
  let volume ← createDentry volume parentIno name destIno
  let volume ← copyChunks volume srcIno destIno
  volume.resizeInode destIno fun row => { row with size := srcRow.size, mtime := now, ctime := now }

def copyFile (src dest : Text) : Except Failure Volume := do
  let srcNormalized := normalizePath src
  let destNormalized := normalizePath dest
  refuse (srcNormalized = destNormalized) (createFsError .EINVAL "copyfile" destNormalized "invalid argument")
  let (_, srcIno) ← resolvePathOrThrow volume srcNormalized "copyfile"
  refuse (knownDirectory (getInodeMode volume srcIno))
    (createFsError .EISDIR "copyfile" srcNormalized "illegal operation on a directory")
  let srcRow ← required (volume.inode? srcIno)
    (createFsError .ENOENT "copyfile" srcNormalized "no such file or directory")
  let (parentIno, name) ← required (resolveParent volume destNormalized)
    (createFsError .ENOENT "copyfile" destNormalized "no such file or directory")
  match resolvePath volume destNormalized with
  | some destIno =>
    refuse (knownDirectory (getInodeMode volume destIno))
      (createFsError .EISDIR "copyfile" destNormalized "illegal operation on a directory")
    overwriteFile volume srcIno destIno srcRow
  | none => duplicateFile volume srcIno srcRow parentIno name

end AgentFS

end AiryFS
