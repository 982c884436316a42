import AiryFS.Direct.Paths

/-! The namespace operations of the direct adapter, with the open-handle leases.

Every operation is synchronous between its checks and its statements, and each
transaction either yields the whole new volume or a failure. The chunk size is the one
the adapter read when it was created.
-/

set_option autoImplicit false

namespace AiryFS

open Foundation

namespace AgentFS

variable (volume : Volume)

def getInodeMode (ino : Int) : Option Int := (volume.inode? ino).map (·.mode)

def getLinkCount (ino : Int) : Int :=
  match volume.inode? ino with
  | some row => row.nlink
  | none => 0

def hasActiveLease (ino : Int) : Bool := volume.leased ino volume.now

/-- `mode !== null && (mode & S_IFMT) !== S_IFDIR`. -/
def knownFile (mode : Option Int) : Bool := mode.any fun mode => !isDirectory mode

/-- `mode !== null && (mode & S_IFMT) === S_IFDIR`. -/
def knownDirectory (mode : Option Int) : Bool := mode.any isDirectory

def createInode (mode : Int) (uid gid : Int) : Except Failure (Int × Volume) :=
  volume.insertInode (InodeRow.create mode uid gid volume.now)

/-- Insert the entry, then count it: `nlink = nlink + 1`. -/
def createDentry (parentIno : Int) (name : Text) (ino : Int) : Except Failure Volume := do
  let volume ← volume.insertDentry { name, parentIno, ino }
  return volume.updateInode ino fun row => { row with nlink := row.nlink + 1 }

/-- The loop of `ensureParentDirs`: descend, creating the directories that are missing. -/
def descend (path : Text) (volume : Volume) (currentIno : Int) : List Text → Except Failure Volume
  | [] => return volume
  | name :: parts =>
    match volume.dentry? currentIno name with
    | none => do
      let (dirIno, volume) ← createInode volume DEFAULT_DIR_MODE 0 0
      let volume ← createDentry volume currentIno name dirIno
      descend path volume dirIno parts
    | some row => do
      refuse (knownFile (getInodeMode volume row.ino))
        (createFsError .ENOTDIR "open" (normalizePath path) "not a directory")
      descend path volume row.ino parts

def ensureParentDirs (path : Text) : Except Failure Volume :=
  descend path volume ROOT_INO (splitPath path).dropLast

/-! ## File contents as a whole -/

/-- The chunks of a buffer under their indexes: the loop of `updateFileContent` starts
chunk `i` at offset `i * chunkSize`. -/
def chunksOf (chunkSize : Nat) (buffer : Bytes) : List (Nat × Bytes) :=
  (List.range ((buffer.length + chunkSize - 1) / chunkSize)).map fun chunkIndex =>
    (chunkIndex, (buffer.drop (chunkIndex * chunkSize)).take chunkSize)

def insertChunks (ino : Int) (chunks : List (Nat × Bytes)) : Except Failure Volume :=
  chunks.foldlM (fun volume chunk => volume.insertChunk ino chunk.1 chunk.2) volume

def updateFileContent (chunkSize : Nat) (ino : Int) (buffer : Bytes) : Except Failure Volume := do
  let now := volume.now
  let volume := volume.deleteChunks ino fun _ => true
  let volume ← insertChunks volume ino (chunksOf chunkSize buffer)
  volume.resizeInode ino fun row => { row with size := buffer.length, mtime := now }

def writeFile (chunkSize : Nat) (path : Text) (buffer : Bytes) : Except Failure Volume := do
  let volume ← ensureParentDirs volume path
  let normalizedPath := normalizePath path
  match resolvePath volume path with
  | some ino =>
    refuse (knownDirectory (getInodeMode volume ino))
      (createFsError .EISDIR "open" normalizedPath "illegal operation on a directory")
    updateFileContent volume chunkSize ino buffer
  | none =>
    let (parentIno, name) ← required (resolveParent volume path)
      (createFsError .ENOENT "open" normalizedPath "no such file or directory")
    let (fileIno, volume) ← createInode volume DEFAULT_FILE_MODE 0 0
    let volume ← createDentry volume parentIno name fileIno
    updateFileContent volume chunkSize fileIno buffer

/-! ## Directories -/

def mkdir (path : Text) : Except Failure Volume := do
  let normalizedPath := normalizePath path
  refuse (resolvePath volume normalizedPath).isSome
    (createFsError .EEXIST "mkdir" normalizedPath "file already exists")
  let (parentIno, name) ← required (resolveParent volume normalizedPath)
    (createFsError .ENOENT "mkdir" normalizedPath "no such file or directory")
  refuse (knownFile (getInodeMode volume parentIno))
    (createFsError .ENOTDIR "mkdir" normalizedPath "not a directory")
  let (dirIno, volume) ← createInode volume DEFAULT_DIR_MODE 0 0
  (createDentry volume parentIno name dirIno).mapError fun _ =>
    createFsError .EEXIST "mkdir" normalizedPath "file already exists"

/-- Remove one entry of an inode, and the inode when that was the last link and no live
handle leases it. -/
def removeDentryAndMaybeInode (parentIno : Int) (name : Text) (ino : Int) : Volume :=
  let volume := volume.deleteDentry parentIno name
  let volume := volume.updateInode ino fun row => { row with nlink := row.nlink - 1 }
  if getLinkCount volume ino = 0 ∧ ¬hasActiveLease volume ino then volume.deleteInode ino else volume

def rmdir (path : Text) : Except Failure Volume := do
  let normalizedPath := normalizePath path
  refuse (normalizedPath = ['/']) (createFsError .EPERM "rmdir" normalizedPath "operation not permitted")
  let (_, ino) ← resolvePathOrThrow volume normalizedPath "rmdir"
  refuse (¬knownDirectory (getInodeMode volume ino))
    (createFsError .ENOTDIR "rmdir" normalizedPath "not a directory")
  refuse (volume.hasChildren ino) (createFsError .ENOTEMPTY "rmdir" normalizedPath "directory not empty")
  let (parentIno, name) ← required (resolveParent volume normalizedPath)
    (createFsError .EPERM "rmdir" normalizedPath "operation not permitted")
  return removeDentryAndMaybeInode volume parentIno name ino

/-! ## Entries -/

/-- The statements of the transaction are those of `removeDentryAndMaybeInode`. -/
def unlink (path : Text) : Except Failure Volume := do
  let normalizedPath := normalizePath path
  refuse (normalizedPath = ['/']) (createFsError .EPERM "unlink" normalizedPath "operation not permitted")
  let (_, ino) ← resolvePathOrThrow volume normalizedPath "unlink"
  refuse (knownDirectory (getInodeMode volume ino))
    (createFsError .EISDIR "unlink" normalizedPath "illegal operation on a directory")
  let (parentIno, name) ← required (resolveParent volume normalizedPath)
    (.error "Cannot read properties of null")
  return removeDentryAndMaybeInode volume parentIno name ino

/-- The part of `rename` that clears an existing destination. -/
def clearDestination (newNormalized : Text) (newParentIno : Int) (newName : Text) (oldIsDir : Bool) :
    Except Failure Volume :=
  match resolvePath volume newNormalized with
  | none => return volume
  | some newIno =>
    match getInodeMode volume newIno with
    | none => return volume
    | some newMode => do
      let newIsDir := isDirectory newMode
      refuse (newIsDir ∧ ¬oldIsDir)
        (createFsError .EISDIR "rename" newNormalized "illegal operation on a directory")
      refuse (¬newIsDir ∧ oldIsDir) (createFsError .ENOTDIR "rename" newNormalized "not a directory")
      refuse (newIsDir ∧ volume.hasChildren newIno)
        (createFsError .ENOTEMPTY "rename" newNormalized "directory not empty")
      return removeDentryAndMaybeInode volume newParentIno newName newIno

def rename (oldPath newPath : Text) : Except Failure Volume :=
  let oldNormalized := normalizePath oldPath
  let newNormalized := normalizePath newPath
  if oldNormalized = newNormalized then return volume
  else do
    refuse (oldNormalized = ['/'] ∨ newNormalized = ['/'])
      (createFsError .EPERM "rename" (if oldNormalized = ['/'] then oldNormalized else newNormalized)
        "operation not permitted")
    let (oldParentIno, oldName) ← required (resolveParent volume oldNormalized)
      (createFsError .EPERM "rename" oldNormalized "operation not permitted")
    let (newParentIno, newName) ← required (resolveParent volume newNormalized)
      (createFsError .ENOENT "rename" newNormalized "no such file or directory")
    let (_, oldIno) ← resolvePathOrThrow volume oldNormalized "rename"
    let oldMode ← required (getInodeMode volume oldIno)
      (createFsError .ENOENT "rename" oldNormalized "no such file or directory")
    let oldIsDir := isDirectory oldMode
    refuse (oldIsDir ∧ (oldNormalized ++ ['/']).isPrefixOf newNormalized)
      (createFsError .EINVAL "rename" newNormalized "invalid argument")
    let volume ← clearDestination volume newNormalized newParentIno newName oldIsDir
    let volume ← volume.moveDentry newParentIno newName oldParentIno oldName
    let now := volume.now
    let volume := volume.updateInode oldIno fun row => { row with ctime := now }
    let volume := volume.modifyInode oldParentIno fun row => { row with mtime := now, ctime := now }
    if newParentIno ≠ oldParentIno then
      return volume.modifyInode newParentIno fun row => { row with mtime := now, ctime := now }
    else return volume

end AgentFS

end AiryFS
