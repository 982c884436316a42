import AiryFS.Snapshots.Storage
import AiryFS.Transfer.Archive

/-! A state of the filesystem, live or captured, as diff and export read it.

A view is loaded once. Its paths are those that lead from the root through directories, and
the content of a file is a sequence of chunk rows.
-/

set_option autoImplicit false

namespace AiryFS

open Foundation

inductive EntryKind where
  | file | directory | symlink | other
  deriving DecidableEq, Repr

def kindOf (mode : Int) : EntryKind :=
  if isDirectory mode then .directory
  else if isRegular mode then .file
  else if isSymlink mode then .symlink
  else .other

/-- The rows of one state. -/
structure FsStateView where
  inodes : List InodeRow
  dentries : List DentryRow
  symlinks : List SymlinkRow
  data : List DataRow

inductive StateSelector where
  | live
  | snapshotId (id : Text)
  deriving DecidableEq, Repr

structure PathEntry where
  path : Text
  ino : Int
  kind : EntryKind
  deriving DecidableEq, Repr

namespace FsStateView

def live (volume : Volume) : FsStateView :=
  ⟨volume.inode.rows, volume.dentry.rows, volume.symlink.rows, volume.data.rows⟩

def load (storage : SnapshotStorage) : StateSelector → FsStateView
  | .live => live storage.volume
  | .snapshotId id =>
    ⟨storage.inode.select id, storage.dentry.select id, storage.symlink.select id, storage.data.select id⟩

variable (view : FsStateView)

/-- The members of the row that a diff compares are fields of it. -/
def inodeMeta (ino : Int) : Option InodeRow := view.inodes.find? fun row => row.ino = ino

def symlinkTarget (ino : Int) : Option Text := (view.symlinks.find? fun row => row.ino = ino).map (·.target)

/-- The entries of a directory by name, as JavaScript compares names. -/
def sortedChildren (parentIno : Int) : List DentryRow :=
  (view.dentries.filter fun entry => entry.parentIno = parentIno).insertionSort
    fun first second => Archive.utf16 first.name ≤ Archive.utf16 second.name

def chunks (ino : Int) : List Bytes :=
  ((view.data.filter fun row => row.ino = ino).insertionSort
    fun first second => first.chunkIndex ≤ second.chunkIndex).map (·.data)

def fileBytes (ino : Int) : Nat := ((view.data.filter fun row => row.ino = ino).map fun row => row.data.length).sum

/-- One child in the walk over all paths. -/
def visit (below : List PathEntry × List Int → Int → Text → List PathEntry × List Int) (above : Text)
    (state : List PathEntry × List Int) (child : DentryRow) : List PathEntry × List Int :=
  match view.inodeMeta child.ino with
  | none => state
  | some inode =>
    let path := Archive.joinAbsolute above child.name
    let kind := kindOf inode.mode
    if state.1.any fun entry => entry.path = path then state
    else
      let out := state.1 ++ [⟨path, child.ino, kind⟩]
      if kind = .directory ∧ child.ino ∉ state.2 then below (out, state.2 ++ [child.ino]) child.ino path
      else (out, state.2)

/-- The walk goes no deeper than there are inodes, since it enters a directory once. -/
def walkPaths : Nat → List PathEntry × List Int → Int → Text → List PathEntry × List Int
  | 0, state, _, _ => state
  | depth + 1, state, parentIno, above => (view.sortedChildren parentIno).foldl (view.visit (walkPaths depth) above) state

def paths : List PathEntry :=
  match view.inodeMeta ROOT_INO with
  | none => []
  | some _ => (view.walkPaths (view.inodes.length + 1) ([⟨['/'], ROOT_INO, .directory⟩], [ROOT_INO]) ROOT_INO ['/']).1

end FsStateView

/-! ## Export -/

namespace Archive

def encodeRootEntry : Except Failure Bytes := encodeHeader { t := .directory, p := [], s := none, l := none }

def encodeDirectoryEntry (path : Text) : Except Failure Bytes := do
  let rel ← validateRelativePath (some (.string path))
  encodeHeader { t := .directory, p := rel, s := none, l := none }

def encodeFileEntry (path : Text) (size : Nat) : Except Failure Bytes := do
  let rel ← validateRelativePath (some (.string path))
  refuse (rel = []) (archiveError "The root cannot be a file entry")
  refuse (size > MAX_FILE_SIZE) (archiveError s!"Unsafe or invalid file size: {size}")
  encodeHeader { t := .file, p := rel, s := some size, l := none }

def encodeSymlinkEntry (path target : Text) : Except Failure Bytes := do
  let rel ← validateRelativePath (some (.string path))
  refuse (rel = []) (archiveError "The root cannot be a symlink entry")
  encodeHeader { t := .symlink, p := rel, s := none, l := some target }

end Archive

namespace FsStateView

open Archive

variable (view : FsStateView)

/-- The frames of one child, with those below it when it is a directory. -/
def childFrames (below : Int → Text → Except Failure (List Bytes)) (above : Text) (child : DentryRow) :
    Except Failure (List Bytes) :=
  match view.inodeMeta child.ino with
  | none => return []
  | some inode => do
    let rel := if above = [] then child.name else above ++ '/' :: child.name
    let shown := String.ofList rel
    let _ ← validateRelativePath (some (.string rel))
    match kindOf inode.mode with
    | .directory => do
      let header ← encodeDirectoryEntry rel
      let frames ← below child.ino rel
      return header :: frames
    | .symlink => do
      let target ← required (view.symlinkTarget child.ino) (archiveError s!"Snapshot symlink missing target: {shown}")
      let header ← encodeSymlinkEntry rel target
      return [header]
    | .file => do
      let size := view.fileBytes child.ino
      let header ← encodeFileEntry rel size
      let emitted := (view.chunks child.ino).filter fun chunk => chunk.length ≠ 0
      refuse ((emitted.map List.length).sum ≠ size) (archiveError s!"Snapshot file size drifted during export: {shown}")
      return header :: emitted
    | .other => return []

/-- The recursion goes no deeper than there are entries, unless they form a cycle. -/
def walkSnapshot : Nat → Int → Text → Except Failure (List Bytes)
  | 0, _, _ => throw (.error "Maximum call stack size exceeded")
  | depth + 1, parentIno, above => do
    let frames ← (view.sortedChildren parentIno).mapM (view.childFrames (walkSnapshot depth) above)
    return frames.flatten

end FsStateView

open Archive in
def SnapshotStorage.encodeSnapshotArchive (storage : SnapshotStorage) (nameOrId : Text) : Except Failure (List Bytes) := do
  let info ← storage.requireSnapshot nameOrId
  let state := FsStateView.load storage (.snapshotId info.id)
  let header ← encodeRootEntry
  let frames ← state.walkSnapshot (state.dentries.length + 1) ROOT_INO []
  return MAGIC :: header :: frames ++ [endMarker]

/-! ## Diff -/

/-- A stream of chunks that is being compared, and whether it has said that it is at its end. -/
structure ChunkCursor where
  buffer : Bytes
  chunks : List Bytes
  done : Bool

/-- The loop that pulls chunks until there is a byte to compare. -/
def pull (buffer : Bytes) (done : Bool) : List Bytes → ChunkCursor
  | [] => ⟨buffer, [], done || buffer.length = 0⟩
  | chunk :: chunks =>
    if buffer.length = 0 ∧ done = false then pull (buffer ++ chunk) done chunks else ⟨buffer, chunk :: chunks, done⟩

/-- The loop over both streams. Every round takes bytes from each. -/
def contentsEqualFrom : Nat → ChunkCursor → ChunkCursor → Bool
  | 0, _, _ => false
  | rounds + 1, left, right =>
    let left := pull left.buffer left.done left.chunks
    let right := pull right.buffer right.done right.chunks
    if left.buffer.length = 0 ∧ right.buffer.length = 0 then left.done && right.done
    else
      let n := min left.buffer.length right.buffer.length
      if n = 0 then false
      else if left.buffer.take n ≠ right.buffer.take n then false
      else contentsEqualFrom rounds { left with buffer := left.buffer.drop n } { right with buffer := right.buffer.drop n }

namespace FsStateView

def fileContentsEqual (a : FsStateView) (aIno : Int) (b : FsStateView) (bIno : Int) : Bool :=
  if a.fileBytes aIno ≠ b.fileBytes bIno then false
  else contentsEqualFrom (a.fileBytes aIno + 1) ⟨[], a.chunks aIno, false⟩ ⟨[], b.chunks bIno, false⟩

end FsStateView

inductive DiffChange where
  | added | removed | modified
  deriving DecidableEq, Repr

structure SnapshotDiffEntry where
  path : Text
  change : DiffChange
  kind : EntryKind
  deriving DecidableEq, Repr

/-- The fields of an inode that a diff compares. -/
def META_FIELDS (row : InodeRow) := (row.mode, row.nlink, row.uid, row.gid, row.size, row.rdev)

def metadataEqual (a b : InodeRow) : Bool := META_FIELDS a = META_FIELDS b

/-- The entry for a path that exists on both sides. -/
def modifiedEntry (baseState targetState : FsStateView) (inBase inTarget : PathEntry) : Option SnapshotDiffEntry :=
  let modified : SnapshotDiffEntry := ⟨inTarget.path, .modified, inTarget.kind⟩
  let metadataDiffers :=
    match baseState.inodeMeta inBase.ino, targetState.inodeMeta inTarget.ino with
    | some baseMeta, some targetMeta => !metadataEqual baseMeta targetMeta
    | _, _ => false
  if inBase.kind ≠ inTarget.kind then some modified
  else if metadataDiffers then some modified
  else match inTarget.kind with
    | .symlink =>
      let a := (baseState.symlinkTarget inBase.ino).getD []
      let b := (targetState.symlinkTarget inTarget.ino).getD []
      if a ≠ b then some modified else none
    | .file => if baseState.fileContentsEqual inBase.ino targetState inTarget.ino then none else some modified
    | _ => none

def diffEntry (baseState targetState : FsStateView) (basePaths targetPaths : List PathEntry) (path : Text) :
    Option SnapshotDiffEntry :=
  match basePaths.find? fun entry => entry.path = path, targetPaths.find? fun entry => entry.path = path with
  | some inBase, none => some ⟨path, .removed, inBase.kind⟩
  | none, some inTarget => some ⟨path, .added, inTarget.kind⟩
  | some inBase, some inTarget => modifiedEntry baseState targetState inBase inTarget
  | none, none => none

def diffStates (baseState targetState : FsStateView) : List SnapshotDiffEntry :=
  let basePaths := baseState.paths
  let targetPaths := targetState.paths
  -- A set of strings, without the root.
  let allPaths := ((basePaths ++ targetPaths).map (·.path)).dedup.filter fun path => path ≠ ['/']
  (allPaths.filterMap (diffEntry baseState targetState basePaths targetPaths)).insertionSort
    fun first second => Archive.utf16 first.path ≤ Archive.utf16 second.path

inductive DiffEndpoint where
  | live
  | snapshot (nameOrId : Text)
  deriving DecidableEq, Repr

namespace SnapshotStorage

variable (storage : SnapshotStorage)

def resolveEndpoint : DiffEndpoint → Except Failure StateSelector
  | .live => return .live
  | .snapshot nameOrId => do
    let info ← storage.requireSnapshot nameOrId
    return .snapshotId info.id

def diffSnapshot (base target : DiffEndpoint) : Except Failure (List SnapshotDiffEntry) := do
  let baseSelector ← storage.resolveEndpoint base
  let targetSelector ← storage.resolveEndpoint target
  return diffStates (FsStateView.load storage baseSelector) (FsStateView.load storage targetSelector)

end SnapshotStorage

end AiryFS
