import AiryFS.Foundation.Runs
import AiryFS.Snapshots.Storage
import Mathlib.Data.Char
import Mathlib.Data.List.Lex
import Mathlib.Data.List.Sort

/-! Normalized paths and the segments they spell.

A normalized path is the absolute spelling of plain segments, so two normalized paths are the
same exactly when their segments are, and one lies under another exactly when its segments
extend the other's.
-/

set_option autoImplicit false

namespace AiryFS

open Foundation

namespace Auth

/-- Segments that a path can spell. -/
structure Spellable (pieces : List Text) : Prop where
  separable : Separable '/' pieces
  plain : ∀ piece ∈ pieces, piece ≠ ['.'] ∧ piece ≠ ['.', '.']

/-- `path === mountpoint || path.startsWith(mountpoint + '/')` -/
def AtOrUnder (top path : Text) : Prop := path = top ∨ top ++ ['/'] <+: path

instance (top path : Text) : Decidable (AtOrUnder top path) := inferInstanceAs (Decidable (_ ∨ _))

theorem segments_spellable (path : Text) : Spellable (segments path) where
  separable := segments_separable path
  plain _ member := ⟨fun dot => (mem_segments member).2.1 (.inr dot), (mem_segments member).2.2⟩

theorem Spellable.append {first second : List Text} (left : Spellable first) (right : Spellable second) :
    Spellable (first ++ second) where
  separable piece member := (List.mem_append.mp member).elim (left.separable piece) (right.separable piece)
  plain piece member := (List.mem_append.mp member).elim (left.plain piece) (right.plain piece)

theorem Spellable.suffix {first second : List Text} (spellable : Spellable (first ++ second)) : Spellable second where
  separable piece member := spellable.separable piece (List.mem_append_right first member)
  plain piece member := spellable.plain piece (List.mem_append_right first member)

theorem segments_of_fields {path : Text} {pieces : List Text} (spellable : Spellable pieces)
    (cut : fields '/' path = pieces) : segments path = pieces := by
  rw [segments, foldl_pushSegment [] ?_, List.nil_append]
  · exact cut
  · intro piece member
    by_cases empty : piece = []
    · exact .inl empty
    · right
      apply spellable.plain
      rw [← cut]
      exact List.mem_filter.mpr ⟨member, by simpa using empty⟩

@[simp] theorem segments_absolute {pieces : List Text} (spellable : Spellable pieces) :
    segments (absolute '/' pieces) = pieces :=
  segments_of_fields spellable (fields_absolute spellable.separable)

@[simp] theorem segments_normalizePath (path : Text) : segments (normalizePath path) = segments path :=
  segments_absolute (segments_spellable path)

/-- A separator ends the segments before it, and what follows goes on from them. -/
theorem segments_append_sep (first second : Text) :
    segments (first ++ '/' :: second) = (second.splitOn '/').foldl pushSegment (segments first) := by
  rw [segments, List.splitOn_append_cons_self, List.foldl_append, ← segments]

@[simp] theorem segments_cons_sep (path : Text) : segments ('/' :: path) = segments path :=
  segments_append_sep [] path

theorem normalizePath_inj {first second : Text} : normalizePath first = normalizePath second ↔ segments first = segments second := by
  constructor
  · intro same
    rw [← segments_normalizePath first, same, segments_normalizePath]
  · intro same
    rw [normalizePath, same, normalizePath]

theorem normalizePath_eq_root {path : Text} : normalizePath path = ['/'] ↔ segments path = [] := by
  rw [normalizePath, absolute_eq_root_iff]
  constructor
  · intro same
    rcases same with empty | blank
    · exact empty
    · have filled := (segments_spellable path).separable [] (by rw [blank]; exact List.mem_cons_self)
      exact absurd rfl filled.1
  · exact .inl

/-- Below a path that is not the root, the spelling and the segments agree on what lies under it. -/
theorem atOrUnder_iff {top path : List Text} (left : Spellable top) (right : Spellable path) (below : top ≠ []) :
    AtOrUnder (absolute '/' top) (absolute '/' path) ↔ top <+: path := by
  rw [AtOrUnder, absolute_prefix_iff left.separable right.separable below]
  constructor
  · intro under
    rcases under with same | ⟨longer, _⟩
    · rw [absolute_injective right.separable left.separable same]
    · exact longer
  · intro longer
    by_cases same : top = path
    · exact .inl (by rw [same])
    · exact .inr ⟨longer, same⟩

theorem normalizePath_atOrUnder {top path : Text} (below : segments top ≠ []) :
    AtOrUnder (normalizePath top) (normalizePath path) ↔ segments top <+: segments path :=
  atOrUnder_iff (segments_spellable top) (segments_spellable path) below

end Auth

/-! The mount table of a volume, and the paths it hands to other volumes.

No mountpoint lies at or under another one, so a path is under at most one of them and the
translation into the target volume can be undone.
-/

open Foundation Auth

namespace Mounts

/-- A persisted mount: a subtree of this volume served by another volume. -/
structure MountRecord where
  mountpoint : Text
  targetVolume : Text
  targetSubpath : Text
  credentialId : Option Text
  token : Option Text
  /-- The JSON text of the options. -/
  options : Text
  createdAt : Int
  deriving DecidableEq

/-- The rows of `fs_mount`. -/
abbrev FsMount := Table MountRecord.mountpoint

/-- The rows in the order of their mountpoints. -/
def listMounts (mounts : FsMount) : List MountRecord :=
  mounts.rows.mergeSort fun first second => first.mountpoint ≤ second.mountpoint

def getMount (mounts : FsMount) (mountpoint : Text) : Option MountRecord := mounts.find? (normalizePath mountpoint)

structure CreateMountInput where
  mountpoint : Text
  targetVolume : Text
  targetSubpath : Option Text
  hostVolume : Text
  credentialId : Option Text
  token : Option Text
  options : Option Text

def checkOverlap (mountpoint : Text) (existing : MountRecord) : Except Failure Unit := do
  refuse (existing.mountpoint = mountpoint)
    (.http 409 "MOUNT_EXISTS" s!"A mount already exists at {String.ofList mountpoint}")
  refuse (existing.mountpoint ++ ['/'] <+: mountpoint ∨ mountpoint ++ ['/'] <+: existing.mountpoint)
    (.http 409 "MOUNT_NESTED"
      s!"Mount {String.ofList mountpoint} overlaps existing mount {String.ofList existing.mountpoint}")

/-- The row that a request asks for. -/
def CreateMountInput.row (input : CreateMountInput) (now : Int) : MountRecord where
  mountpoint := normalizePath input.mountpoint
  targetVolume := input.targetVolume
  targetSubpath := normalizePath (input.targetSubpath.getD "/".toList)
  credentialId := input.credentialId
  token := input.token
  options := input.options.getD "{}".toList
  createdAt := now

def createMountRow (now : Int) (mounts : FsMount) (input : CreateMountInput) : Except Failure (MountRecord × FsMount) := do
  let mountpoint := normalizePath input.mountpoint
  refuse (mountpoint = ['/']) (.http 400 "INVALID_MOUNT" "Cannot mount over the volume root")
  refuse (SnapshotStorage.trim input.targetVolume = []) (.http 400 "INVALID_MOUNT" "A target volume is required")
  refuse (input.targetVolume = input.hostVolume) (.http 409 "MOUNT_SELF" "A volume cannot mount itself")
  let _ ← (listMounts mounts).mapM (checkOverlap mountpoint)
  let mounts ← required (mounts.insert? (input.row now)) (.constraint "fs_mount")
  return (input.row now, mounts)

def deleteMountRow (mounts : FsMount) (mountpoint : Text) : Except Failure (MountRecord × FsMount) := do
  let record ← required (getMount mounts mountpoint)
    (.http 404 "MOUNT_NOT_FOUND" s!"No mount at {String.ofList (normalizePath mountpoint)}")
  return (record, mounts.erase record.mountpoint)

/-- A path resolved through the mount table onto a target volume. -/
structure ResolvedMount where
  mount : MountRecord
  targetPath : Text
  deriving DecidableEq

/-- The longer of the best mount so far and the next one, if the path lies under it. -/
def closer (path : Text) (best : Option MountRecord) (mount : MountRecord) : Option MountRecord :=
  if AtOrUnder mount.mountpoint path then
    match best with
    | none => some mount
    | some earlier => if utf16Length mount.mountpoint > utf16Length earlier.mountpoint then some mount else some earlier
  else best

/-- Where the path lies in the target of the mount. -/
def translate (mount : MountRecord) (path : Text) : Text :=
  normalizePath (mount.targetSubpath ++ (normalizePath path).drop mount.mountpoint.length)

def resolveMount (mounts : List MountRecord) (path : Text) : Option ResolvedMount :=
  ((mounts.foldl (closer (normalizePath path)) none)).map fun best => ⟨best, translate best path⟩

end Mounts

end AiryFS
