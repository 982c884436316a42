import AiryFS.Direct.Directories
import AiryFS.Contents.Writing
import Mathlib.Logic.Function.Basic

/-! What a volume holds below a directory, as a tree of paths, and how it grows.

A path is a list of names below the directory. A new inode has a number that nothing in the
tables has yet, so it adds one path and disturbs no other.
-/

set_option autoImplicit false

namespace AiryFS

open Foundation

/-- What a path leads to. -/
inductive TreeNode where
  | directory
  | file (content : Bytes)
  | symlink (target : Text)
  deriving DecidableEq, Repr

/-- What each path below a directory leads to; the directory itself is the empty path. -/
abbrev PathTree := List Text → Option TreeNode

namespace Volume

open AgentFS (walk)

/-- The inode is the node. -/
def Stored (volume : Volume) (chunkSize : Nat) (ino : Int) : TreeNode → Prop
  | .directory => ∃ row, volume.inode? ino = some row ∧ isDirectory row.mode = true
  | .file content => volume.Stores chunkSize ino content ∧ ∃ row, volume.inode? ino = some row ∧ isRegular row.mode = true
  | .symlink target => (∃ row, volume.inode? ino = some row ∧ isSymlink row.mode = true) ∧
    volume.symlink.find? ino = some ⟨ino, target⟩

/-- The tree below the directory. -/
def Lists (volume : Volume) (chunkSize : Nat) (base : Int) (tree : PathTree) : Prop :=
  ∀ path, match tree path with
    | none => walk volume base path = none
    | some node => ∃ ino, walk volume base path = some ino ∧ volume.Stored chunkSize ino node

/-- No two paths lead to one inode. -/
def Apart (volume : Volume) (base : Int) : Prop :=
  ∀ first second ino, walk volume base first = some ino → walk volume base second = some ino → first = second

/-- Every number in use comes from the sequence. -/
structure Numbered (volume : Volume) : Prop where
  entries : ∀ entry ∈ volume.dentry.rows, entry.ino ≤ volume.inodeSequence ∧ entry.parentIno ≤ volume.inodeSequence
  inodes : ∀ ino, volume.inode? ino ≠ none → ino ≤ volume.inodeSequence
  chunks : ∀ ino, volume.chunk? ino ≠ (fun _ => none) → ino ≤ volume.inodeSequence
  symlinks : ∀ ino, volume.symlink.find? ino ≠ none → ino ≤ volume.inodeSequence

/-- At most what the tables hold of one inode differs. -/
structure Touches (ino : Int) (before after : Volume) : Prop where
  dentry : after.dentry = before.dentry
  sequence : after.inodeSequence = before.inodeSequence
  config : after.config = before.config
  inodes : ∀ other, other ≠ ino → after.inode? other = before.inode? other
  chunks : ∀ other, other ≠ ino → after.chunk? other = before.chunk? other
  symlinks : ∀ other, other ≠ ino → after.symlink.find? other = before.symlink.find? other

/-- One new inode under one new entry. -/
structure Adds (ino parentIno : Int) (name : Text) (before after : Volume) : Prop where
  fresh : ino = before.inodeSequence + 1
  absent : before.dentry? parentIno name = none
  entries : after.dentry.rows = before.dentry.rows ++ [⟨name, parentIno, ino⟩]
  sequence : after.inodeSequence = ino
  config : after.config = before.config
  inodes : ∀ other, other ≠ ino → after.inode? other = before.inode? other
  chunks : ∀ other, other ≠ ino → after.chunk? other = before.chunk? other
  symlinks : ∀ other, other ≠ ino → after.symlink.find? other = before.symlink.find? other

variable {before middle after volume : Volume} {chunkSize : Nat} {ino parentIno base : Int} {name : Text} {tree : PathTree}

theorem Touches.refl (ino : Int) (volume : Volume) : Touches ino volume volume :=
  ⟨rfl, rfl, rfl, fun _ _ => rfl, fun _ _ => rfl, fun _ _ => rfl⟩

theorem Touches.trans (first : Touches ino before middle) (second : Touches ino middle after) : Touches ino before after where
  dentry := second.dentry.trans first.dentry
  sequence := second.sequence.trans first.sequence
  config := second.config.trans first.config
  inodes other different := (second.inodes other different).trans (first.inodes other different)
  chunks other different := (second.chunks other different).trans (first.chunks other different)
  symlinks other different := (second.symlinks other different).trans (first.symlinks other different)

/-- What happens to the new inode afterwards is part of adding it. -/
theorem Adds.touches (adds : Adds ino parentIno name before middle) (touches : Touches ino middle after) :
    Adds ino parentIno name before after where
  fresh := adds.fresh
  absent := adds.absent
  entries := by rw [touches.dentry, adds.entries]
  sequence := touches.sequence.trans adds.sequence
  config := touches.config.trans adds.config
  inodes other different := (touches.inodes other different).trans (adds.inodes other different)
  chunks other different := (touches.chunks other different).trans (adds.chunks other different)
  symlinks other different := (touches.symlinks other different).trans (adds.symlinks other different)

/-- A node is what the tables hold of its inode. -/
theorem stored_congr {node : TreeNode} (inode : after.inode? ino = before.inode? ino) (chunks : after.chunk? ino = before.chunk? ino)
    (symlink : after.symlink.find? ino = before.symlink.find? ino) :
    after.Stored chunkSize ino node ↔ before.Stored chunkSize ino node := by
  cases node with
  | directory => simp only [Stored, inode]
  | file content =>
    have stores : after.Stores chunkSize ino content ↔ before.Stores chunkSize ino content := by
      constructor
      · exact fun stores => ⟨by rw [← inode]; exact stores.file, by rw [LaidOut, ← chunks]; exact stores.laidOut⟩
      · exact fun stores => ⟨by rw [inode]; exact stores.file, by rw [LaidOut, chunks]; exact stores.laidOut⟩
    simp only [Stored, inode, stores]
  | symlink target => simp only [Stored, inode, symlink]

/-! ## Growing -/

namespace Adds

variable (adds : Adds ino parentIno name before after)

include adds

theorem dentry? (other : Int) (label : Text) : after.dentry? other label =
    if other = parentIno ∧ label = name then some ⟨name, parentIno, ino⟩ else before.dentry? other label := by
  have inserted : before.dentry.insert? ⟨name, parentIno, ino⟩ = some after.dentry :=
    before.dentry.insert?_eq_some_iff.mpr ⟨adds.absent, adds.entries⟩
  have found := before.dentry.find?_insert inserted (other, label)
  rw [Volume.dentry?, Volume.dentry?]
  simpa only [DentryRow.key, Prod.mk.injEq] using found

/-- Nothing is below a number that is not in use. -/
theorem leaf (numbered : before.Numbered) (label : Text) : before.dentry? ino label = none := by
  refine before.dentry.find?_eq_none_iff.mpr ?_
  intro entry member same
  have parent : entry.parentIno = ino := congrArg Prod.fst same
  have within := (numbered.entries entry member).2
  have fresh := adds.fresh
  omega

theorem numbered (numbered : before.Numbered) (parent : parentIno ≤ before.inodeSequence) : after.Numbered := by
  have later : before.inodeSequence < after.inodeSequence := by
    have fresh := adds.fresh
    have sequence := adds.sequence
    omega
  have own : ∀ other, other = ino → other ≤ after.inodeSequence := fun other same => by rw [same, adds.sequence]
  refine ⟨?_, ?_, ?_, ?_⟩
  · intro entry member
    rw [adds.entries, List.mem_append, List.mem_singleton] at member
    rcases member with old | rfl
    · have within := numbered.entries entry old
      omega
    · exact ⟨own _ rfl, by simp only; omega⟩
  · intro other stored
    by_cases same : other = ino
    · exact own other same
    · rw [adds.inodes other same] at stored
      have within := numbered.inodes other stored
      omega
  · intro other stored
    by_cases same : other = ino
    · exact own other same
    · rw [adds.chunks other same] at stored
      have within := numbered.chunks other stored
      omega
  · intro other stored
    by_cases same : other = ino
    · exact own other same
    · rw [adds.symlinks other same] at stored
      have within := numbered.symlinks other stored
      omega

/-- The new path, and the old ones as they were, where only one path leads to the parent. -/
theorem walks_of_only (numbered : before.Numbered) {place : List Text} (parent : AgentFS.walk before base place = some parentIno)
    (only : ∀ path, AgentFS.walk before base path = some parentIno → path = place)
    (known : parentIno ≤ before.inodeSequence) (path : List Text) :
    AgentFS.walk after base path = if path = place ++ [name] then some ino else AgentFS.walk before base path := by
  induction path using List.reverseRecOn with
  | nil => rw [if_neg (by simp), AgentFS.walk, AgentFS.walk]
  | append_singleton path label ih =>
    rw [AgentFS.walk_append, AgentFS.walk_append, ih]
    split
    · rename_i here
      -- The new path was no path before, and it has nothing below it.
      have none_before : AgentFS.walk before base path = none := by
        rw [here, AgentFS.walk_append, parent, Option.bind_some, AgentFS.walk_single, adds.absent]
        rfl
      have below : ¬(ino = parentIno ∧ label = name) := by
        rintro ⟨same, _⟩
        have fresh := adds.fresh
        omega
      have longer : path ++ [label] ≠ place ++ [name] := by
        intro same
        rw [here] at same
        have lengths := congrArg List.length same
        simp at lengths
      rw [if_neg longer, none_before, Option.bind_some, Option.bind_none, AgentFS.walk_single, adds.dentry?, if_neg below,
        adds.leaf numbered]
      rfl
    · cases reached : AgentFS.walk before base path with
      | none =>
        have other : path ++ [label] ≠ place ++ [name] := by
          intro same
          rw [(List.append_inj' same rfl).1, parent] at reached
          cases reached
        rw [if_neg other]
        rfl
      | some current =>
        rw [Option.bind_some, Option.bind_some, AgentFS.walk_single, AgentFS.walk_single, adds.dentry?]
        by_cases own : current = parentIno ∧ label = name
        · have here : path = place := only path (by rw [reached, own.1])
          rw [if_pos own, if_pos (by rw [here, own.2])]
          rfl
        · rw [if_neg own, if_neg]
          intro same
          obtain ⟨here, last⟩ := List.append_inj' same rfl
          rw [here, parent, Option.some.injEq] at reached
          exact own ⟨reached.symm, List.singleton_inj.mp last⟩

theorem walks (numbered : before.Numbered) (apart : before.Apart base) {place : List Text}
    (parent : AgentFS.walk before base place = some parentIno) (known : parentIno ≤ before.inodeSequence) (path : List Text) :
    AgentFS.walk after base path = if path = place ++ [name] then some ino else AgentFS.walk before base path :=
  adds.walks_of_only numbered parent (fun _ reached => apart _ _ _ reached parent) known path

end Adds

/-- A path below the base leads to a number in use. -/
theorem Numbered.walk_le (numbered : volume.Numbered) (known : base ≤ volume.inodeSequence) {path : List Text}
    (reached : AgentFS.walk volume base path = some ino) : ino ≤ volume.inodeSequence := by
  induction path using List.reverseRecOn generalizing ino with
  | nil =>
    rw [AgentFS.walk, Option.some.injEq] at reached
    rw [← reached]
    exact known
  | append_singleton path label _ =>
    rw [AgentFS.walk_append, Option.bind_eq_some_iff] at reached
    obtain ⟨current, _, step⟩ := reached
    rw [AgentFS.walk_single, Option.map_eq_some_iff] at step
    obtain ⟨entry, found, same⟩ := step
    rw [← same]
    exact (numbered.entries entry (volume.dentry.find?_mem found)).1

theorem Adds.apart (adds : Adds ino parentIno name before after) (numbered : before.Numbered) (apart : before.Apart base)
    {place : List Text} (parent : walk before base place = some parentIno) (known : base ≤ before.inodeSequence) :
    after.Apart base := by
  have walks := adds.walks numbered apart parent (numbered.walk_le known parent)
  have fresh : ∀ path, walk before base path ≠ some ino := by
    intro path reached
    have within := numbered.walk_le known reached
    have fresh := adds.fresh
    omega
  intro first second other left right
  rw [walks] at left right
  split at left
  · rename_i here
    split at right
    · rename_i there
      rw [here, there]
    · rw [← Option.some.inj left] at right
      exact absurd right (fresh second)
  · split at right
    · rw [← Option.some.inj right] at left
      exact absurd left (fresh first)
    · exact apart first second other left right

/-- A new node under its path. -/
theorem Adds.lists (adds : Adds ino parentIno name before after) (numbered : before.Numbered) (apart : before.Apart base)
    {place : List Text} (parent : walk before base place = some parentIno) (known : base ≤ before.inodeSequence)
    (lists : before.Lists chunkSize base tree) {node : TreeNode} (stored : after.Stored chunkSize ino node) :
    after.Lists chunkSize base (Function.update tree (place ++ [name]) (some node)) := by
  have walks := adds.walks numbered apart parent (numbered.walk_le known parent)
  intro path
  rw [walks, Function.update_apply]
  by_cases here : path = place ++ [name]
  · rw [if_pos here, if_pos here]
    exact ⟨ino, rfl, stored⟩
  · rw [if_neg here, if_neg here]
    have listed := lists path
    cases known_path : tree path with
    | none =>
      rw [known_path] at listed
      exact listed
    | some other =>
      rw [known_path] at listed
      obtain ⟨number, reached, old⟩ := listed
      have different : number ≠ ino := by
        have within := numbered.walk_le known reached
        have fresh := adds.fresh
        omega
      exact ⟨number, reached, (stored_congr (adds.inodes _ different) (adds.chunks _ different) (adds.symlinks _ different)).mpr old⟩

/-! ## Rewriting one node -/

theorem Touches.numbered (touches : Touches ino before after) (numbered : before.Numbered) (known : ino ≤ before.inodeSequence) :
    after.Numbered := by
  refine ⟨?_, ?_, ?_, ?_⟩
  · rw [touches.dentry, touches.sequence]
    exact numbered.entries
  · intro other stored
    rw [touches.sequence]
    by_cases same : other = ino
    · rw [same]
      exact known
    · exact numbered.inodes other (by rw [← touches.inodes other same]; exact stored)
  · intro other stored
    rw [touches.sequence]
    by_cases same : other = ino
    · rw [same]
      exact known
    · exact numbered.chunks other (by rw [← touches.chunks other same]; exact stored)
  · intro other stored
    rw [touches.sequence]
    by_cases same : other = ino
    · rw [same]
      exact known
    · exact numbered.symlinks other (by rw [← touches.symlinks other same]; exact stored)

theorem Touches.walks (touches : Touches ino before after) : AgentFS.walk after = AgentFS.walk before :=
  AgentFS.walk_congr touches.dentry

/-- The one path to the inode leads to something else now. -/
theorem Touches.lists (touches : Touches ino before after) (apart : before.Apart base) {place : List Text}
    (here : walk before base place = some ino) (lists : before.Lists chunkSize base tree) {node : TreeNode}
    (stored : after.Stored chunkSize ino node) : after.Lists chunkSize base (Function.update tree place (some node)) := by
  intro path
  rw [touches.walks, Function.update_apply]
  by_cases same : path = place
  · rw [if_pos same, same]
    exact ⟨ino, here, stored⟩
  · rw [if_neg same]
    have listed := lists path
    cases known : tree path with
    | none =>
      rw [known] at listed
      exact listed
    | some other =>
      rw [known] at listed
      obtain ⟨number, reached, old⟩ := listed
      have different : number ≠ ino := fun equal => same (apart _ _ _ reached (by rw [here, equal]))
      exact ⟨number, reached,
        (stored_congr (touches.inodes _ different) (touches.chunks _ different) (touches.symlinks _ different)).mpr old⟩

end Volume

end AiryFS
