import AiryFS.Direct.Paths
import Mathlib.Data.Rat.Floor

/-! Small mutations the worker adds to the direct adapter: touch, chmod and hard links.

These resolve with a join on the inode table and insist that every component they pass
through is a directory.
-/

set_option autoImplicit false

namespace AiryFS

open Foundation

namespace FilesystemPrimitives

variable (volume : Volume)

/-- Seconds and nanoseconds. -/
structure Timestamp where
  seconds : Int
  nanoseconds : Int
  deriving DecidableEq, Repr

def splitTimestamp (value : Rat) : Except Failure Timestamp := do
  refuse (value < 0) (.http 400 "INVALID_ARGUMENT" "Timestamps must be non-negative finite numbers")
  return ⟨⌊value⌋, ⌊(value - ⌊value⌋) * 1000000000⌋⟩

def currentTimestamp : Timestamp := ⟨volume.clock / 1000, volume.clock % 1000 * 1000000⟩

def validatePath (rawPath : Text) (syscall : String) (allowRoot : Bool) : Except Failure Text := do
  refuse (rawPath = [] ∨ '\x00' ∈ rawPath) (.http 400 "INVALID_ARGUMENT" s!"Invalid path for {syscall}")
  let path := Auth.normalizePath rawPath
  refuse (¬allowRoot ∧ path = ['/']) (createFsError .EEXIST syscall path "volume root already exists")
  return path

/-- The inode an entry leads to: `fs_dentry d JOIN fs_inode i ON i.ino = d.ino`. -/
def joined (parentIno : Int) (name : Text) : Option InodeRow :=
  (volume.dentry? parentIno name).bind fun entry => volume.inode? entry.ino

/-- The loop of `resolve`. -/
def follow (path : Text) (syscall : String) (must : Bool) (current : InodeRow) :
    List Text → Except Failure (Option InodeRow)
  | [] => return some current
  | name :: parts => do
    refuse (¬isDirectory current.mode)
      (createFsError .ENOTDIR syscall path "path component is not a directory")
    match joined volume current.ino name with
    | none => do
      refuse must (createFsError .ENOENT syscall path "no such file or directory")
      return none
    | some next => follow path syscall must next parts

def resolve (path : Text) (syscall : String) (must : Bool) : Except Failure (Option InodeRow) := do
  let root ← required (volume.inode? ROOT_INO)
    (createFsError .ENOENT syscall path "volume root does not exist")
  follow volume path syscall must root (fields '/' path)

/-- `resolve(.., true)!`. -/
def resolveRequired (path : Text) (syscall : String) : Except Failure InodeRow := do
  let found ← resolve volume path syscall true
  required found (.error "Cannot read properties of null")

def resolveParent (path : Text) (syscall : String) : Except Failure (InodeRow × Text) := do
  let parts := fields '/' path
  let name ← required parts.getLast? (createFsError .EINVAL syscall path "invalid path")
  let parentPath := absolute '/' parts.dropLast
  let parent ← resolveRequired volume parentPath syscall
  refuse (¬isDirectory parent.mode) (createFsError .ENOTDIR syscall parentPath "not a directory")
  return (parent, name)

def rejectSymlink (inode : InodeRow) (path : Text) (syscall : String) : Except Failure Unit :=
  refuse (isSymlink inode.mode)
    (createFsError .ELOOP syscall path "symbolic links are not followed by direct operations")

def updateDirectoryTimes (ino : Int) (timestamp : Timestamp) : Volume :=
  volume.modifyInode ino fun row => { row with
    mtime := timestamp.seconds, mtimeNsec := timestamp.nanoseconds,
    ctime := timestamp.seconds, ctimeNsec := timestamp.nanoseconds }

/-- The times a call passes, or the current one. -/
def chosenTimestamp (value : Option Rat) : Except Failure Timestamp :=
  match value with
  | none => return currentTimestamp volume
  | some value => splitTimestamp value

def touchedRow (access modify now : Timestamp) : InodeRow :=
  { InodeRow.create DEFAULT_FILE_MODE 0 0 now.seconds with
    atime := access.seconds, atimeNsec := access.nanoseconds,
    mtime := modify.seconds, mtimeNsec := modify.nanoseconds, ctimeNsec := now.nanoseconds }

def touch (rawPath : Text) (atime mtime : Option Rat) : Except Failure Volume := do
  let path ← validatePath rawPath "touch" true
  let now := currentTimestamp volume
  let access ← chosenTimestamp volume atime
  let modify ← chosenTimestamp volume mtime
  match ← resolve volume path "touch" false with
  | some inode =>
    rejectSymlink inode path "touch"
    return volume.modifyInode inode.ino fun row => { row with
      atime := access.seconds, atimeNsec := access.nanoseconds,
      mtime := modify.seconds, mtimeNsec := modify.nanoseconds,
      ctime := now.seconds, ctimeNsec := now.nanoseconds }
  | none =>
    let (parent, name) ← resolveParent volume path "touch"
    let (ino, volume) ← volume.insertInode (touchedRow access modify now)
    let volume ← volume.insertDentry { name, parentIno := parent.ino, ino }
    let volume := volume.updateInode ino fun row => { row with nlink := 1 }
    return updateDirectoryTimes volume parent.ino now

def chmod (rawPath : Text) (mode : Int) : Except Failure Volume := do
  let path ← validatePath rawPath "chmod" true
  refuse (mode < 0 ∨ mode > 0o7777)
    (.http 400 "INVALID_ARGUMENT" "mode must be an integer between 0000 and 7777")
  let now := currentTimestamp volume
  let inode ← resolveRequired volume path "chmod"
  rejectSymlink inode path "chmod"
  return volume.modifyInode inode.ino fun row => { row with
    mode := (fileType row.mode ||| mode.toNat : Nat), ctime := now.seconds, ctimeNsec := now.nanoseconds }

def link (rawExisting rawPath : Text) : Except Failure Volume := do
  let existing ← validatePath rawExisting "link" true
  let path ← validatePath rawPath "link" false
  let now := currentTimestamp volume
  let source ← resolveRequired volume existing "link"
  refuse (isDirectory source.mode)
    (createFsError .EPERM "link" existing "hard link not allowed for directory")
  let taken ← resolve volume path "link" false
  refuse taken.isSome (createFsError .EEXIST "link" path "file already exists")
  let (parent, name) ← resolveParent volume path "link"
  let volume ← volume.insertDentry { name, parentIno := parent.ino, ino := source.ino }
  let volume := volume.updateInode source.ino fun row => { row with
    nlink := row.nlink + 1, ctime := now.seconds, ctimeNsec := now.nanoseconds }
  return updateDirectoryTimes volume parent.ino now

def updateCtime (rawPath : Text) : Except Failure Volume := do
  let path ← validatePath rawPath "append" true
  let now := currentTimestamp volume
  let inode ← resolveRequired volume path "append"
  return volume.updateInode inode.ino fun row => { row with ctime := now.seconds, ctimeNsec := now.nanoseconds }

/-! ## What resolution finds -/

theorem follow_some {path : Text} {syscall : String} {must : Bool} {current found : InodeRow} {parts : List Text}
    (start : volume.inode? current.ino = some current)
    (reached : follow volume path syscall must current parts = .ok (some found)) :
    volume.inode? found.ino = some found := by
  induction parts generalizing current with
  | nil =>
    rw [follow, pure_eq_ok, Option.some.injEq] at reached
    rw [← reached]
    exact start
  | cons name parts ih =>
    obtain ⟨_, _, reached⟩ := bind_eq_ok.mp reached
    split at reached
    · obtain ⟨_, _, returned⟩ := bind_eq_ok.mp reached
      cases pure_eq_ok.mp returned
    · rename_i next joining
      obtain ⟨entry, _, row⟩ := Option.bind_eq_some_iff.mp joining
      have numbered : next.ino = entry.ino := volume.inode.find?_key row
      exact ih (by rw [numbered]; exact row) reached

/-- A resolved row is the stored one. -/
theorem resolve_some {path : Text} {syscall : String} {must : Bool} {found : InodeRow}
    (reached : resolve volume path syscall must = .ok (some found)) :
    volume.inode? found.ino = some found := by
  obtain ⟨root, stored, reached⟩ := bind_eq_ok.mp reached
  rw [required_eq_ok] at stored
  have numbered : root.ino = ROOT_INO := volume.inode.find?_key stored
  exact follow_some volume (by rw [numbered]; exact stored) reached

theorem resolveRequired_ok {path : Text} {syscall : String} {found : InodeRow}
    (reached : resolveRequired volume path syscall = .ok found) : volume.inode? found.ino = some found := by
  obtain ⟨result, resolved, present⟩ := bind_eq_ok.mp reached
  rw [required_eq_ok] at present
  exact resolve_some volume (by rw [resolved, present])

end FilesystemPrimitives

end AiryFS
