import AiryFS.Snapshots.ExactRestore
import AiryFS.Snapshots.StateView
import AiryFS.Contents.Covered
import AiryFS.Direct.Listing

/-! What a view shows of a volume: the paths through directories, and the files at their ends. -/

set_option autoImplicit false

namespace AiryFS

open Foundation

/-! ## Paths -/

namespace Volume

section Locate

variable (volume : Volume)

def directoryAt (ino : Int) : Bool := (volume.inode? ino).any fun row => isDirectory row.mode

/-- The inode at a path below another one, when all that lie on the way are directories. -/
@[grind =]
def locate : Int → List Text → Option Int
  | ino, [] => (volume.inode? ino).map fun _ => ino
  | ino, name :: rest =>
    if volume.directoryAt ino then (volume.dentry? ino name).bind fun entry => locate entry.ino rest else none

/-- What the inode is, with a content for every file. Devices and fifos are nothing. -/
def nodeOf (content : Int → Bytes) (ino : Int) : Option TreeNode :=
  (volume.inode? ino).bind fun row => match kindOf row.mode with
    | .directory => some .directory
    | .file => some (.file (content ino))
    | .symlink => (volume.symlink.find? ino).map fun link => .symlink link.target
    | .other => none

def treeOf (content : Int → Bytes) : PathTree := fun path => (volume.locate ROOT_INO path).bind (volume.nodeOf content)

/-- The chunk rows of a file, one after the other. -/
def wholeBytes (ino : Int) : Bytes := ((volume.chunkRows ino fun _ => true).map (·.data)).flatten

end Locate

variable {volume : Volume} {ino number : Int} {path rest : List Text} {name : Text} {content : Int → Bytes}

theorem directoryAt_iff : volume.directoryAt ino = true ↔ ∃ row, volume.inode? ino = some row ∧ isDirectory row.mode = true := by
  rw [directoryAt, Option.any_eq_true]

theorem locate_stored (located : volume.locate ino path = some number) : ∃ row, volume.inode? number = some row := by
  induction path generalizing ino with
  | nil =>
    obtain ⟨row, stored, rfl⟩ := Option.map_eq_some_iff.mp located
    exact ⟨row, stored⟩
  | cons name rest ih =>
    unfold locate at located
    split at located
    · obtain ⟨entry, _, below⟩ := Option.bind_eq_some_iff.mp located
      exact ih below
    · cases located

theorem locate_append (ino : Int) (front back : List Text) :
    volume.locate ino (front ++ back) = (volume.locate ino front).bind fun middle => volume.locate middle back := by
  induction front generalizing ino with
  | nil =>
    rw [List.nil_append, locate]
    cases stored : volume.inode? ino with
    | some row => rfl
    | none =>
      cases back with
      | nil => rw [locate, stored]; rfl
      | cons name rest =>
        have missing : volume.directoryAt ino = false := by rw [directoryAt, stored]; rfl
        rw [locate, missing]
        rfl
  | cons name rest ih =>
    rw [List.cons_append, locate, locate]
    split
    · cases volume.dentry? ino name with
      | none => rfl
      | some entry => exact ih entry.ino
    · rfl

theorem locate_walk (located : volume.locate ino path = some number) : AgentFS.walk volume ino path = some number := by
  induction path generalizing ino with
  | nil =>
    obtain ⟨row, stored, same⟩ := Option.map_eq_some_iff.mp located
    rw [AgentFS.walk, same]
  | cons name rest ih =>
    unfold locate at located
    split at located
    · obtain ⟨entry, found, below⟩ := Option.bind_eq_some_iff.mp located
      rw [AgentFS.walk, found]
      exact ih below
    · cases located

/-- One step further down. -/
theorem locate_child (located : volume.locate ROOT_INO path = some ino) (directory : volume.directoryAt ino = true)
    (rest : List Text) : volume.locate ROOT_INO (path ++ name :: rest) =
      (volume.dentry? ino name).bind fun entry => volume.locate entry.ino rest := by
  rw [locate_append, located, Option.bind_some, locate, if_pos directory]

theorem nodeOf_directory : volume.nodeOf content ino = some .directory ↔ volume.directoryAt ino = true := by
  rw [directoryAt_iff, nodeOf, Option.bind_eq_some_iff]
  refine exists_congr fun row => and_congr_right fun _ => ?_
  unfold kindOf
  split_ifs with directory file link
  · simp [directory]
  · simp [directory]
  · cases volume.symlink.find? ino <;> simp [directory]
  · simp [directory]

/-- Below what is no directory there is nothing. -/
theorem treeOf_leaf (located : volume.locate ROOT_INO path = some ino) (leaf : volume.directoryAt ino = false) (name : Text)
    (rest : List Text) : volume.treeOf content (path ++ name :: rest) = none := by
  rw [treeOf, locate_append, located, Option.bind_some, locate, leaf]
  rfl

end Volume

/-! ## Loaded rows -/

namespace FsStateView

variable {volume : Volume} {ino : Int}

@[simp] theorem inodeMeta_live (volume : Volume) (ino : Int) : (live volume).inodeMeta ino = volume.inode? ino := rfl

@[simp] theorem symlinkTarget_live (volume : Volume) (ino : Int) :
    (live volume).symlinkTarget ino = (volume.symlink.find? ino).map (·.target) := rfl

theorem chunks_live (volume : Volume) (ino : Int) :
    (live volume).chunks ino = (volume.chunkRows ino fun _ => true).map (·.data) := by
  unfold chunks Volume.chunkRows live
  simp only [Bool.and_true]

/-- The sum over the rows of a file is the length of its rows put together. -/
theorem fileBytes_live (volume : Volume) (ino : Int) : (live volume).fileBytes ino = (volume.wholeBytes ino).length := by
  rw [Volume.wholeBytes, ← chunks_live, List.length_flatten]
  unfold fileBytes chunks
  rw [List.map_map]
  exact (((List.perm_insertionSort _ _).map fun row : DataRow => row.data.length).sum_eq).symm

theorem mem_sortedChildren {entry : DentryRow} : entry ∈ (live volume).sortedChildren ino ↔
    entry.parentIno = ino ∧ volume.dentry? ino entry.name = some entry := by
  unfold sortedChildren Volume.dentry?
  rw [List.mem_insertionSort, List.mem_filter, decide_eq_true_eq, volume.dentry.find?_eq_some_iff]
  constructor
  · rintro ⟨member, parent⟩
    exact ⟨parent, member, Prod.ext parent rfl⟩
  · rintro ⟨parent, member, _⟩
    exact ⟨member, parent⟩

/-- The names in a directory differ. -/
theorem nodup_sortedChildren (volume : Volume) (ino : Int) : (((live volume).sortedChildren ino).map (·.name)).Nodup := by
  have keys : (volume.dentry.rows.filter fun entry => entry.parentIno = ino).Pairwise fun first second =>
      first.name ≠ second.name := by
    have unique := List.pairwise_map.mp volume.dentry.unique
    refine List.Pairwise.imp_of_mem ?_ (unique.filter _)
    intro first second left right different same
    rw [List.mem_filter, decide_eq_true_eq] at left right
    exact different (Prod.ext (left.2.trans right.2.symm) same)
  rw [List.Nodup, List.pairwise_map]
  exact ((List.perm_insertionSort _ _).pairwise_iff fun different => Ne.symm different).mpr keys

/-- A snapshot shows the volume that it captured. -/
theorem load_snapshot {storage : SnapshotStorage} {info : SnapshotInfo} {captured : Volume}
    (holds : storage.Holds info captured) : load storage (.snapshotId info.id) = live captured := by
  have rows := holds.rows
  unfold SnapshotStorage.copies Volume.tables at rows
  simp only [Prod.mk.injEq] at rows
  unfold load live
  dsimp only
  rw [rows.1, rows.2.1, rows.2.2.1, rows.2.2.2]

end FsStateView

end AiryFS
