import AiryFS.Transfer.Swapping

/-! Volumes whose directories form a tree.

A file may have many entries, a directory has one, and every entry is in a directory. One path
leads to a directory, so a new entry is one new path.
-/

set_option autoImplicit false

namespace AiryFS

open Foundation

namespace AgentFS

/-- A rename that does anything finds both parents. -/
theorem rename_parents {volume volume' : Volume} {oldPath newPath : Text} (renamed : rename volume oldPath newPath = .ok volume') :
    (fields '/' oldPath = fields '/' newPath ∧ volume' = volume) ∨
    (∃ source, resolveParent volume oldPath = some source) ∧ ∃ target, resolveParent volume newPath = some target := by
  unfold rename at renamed
  dsimp only at renamed
  split at renamed
  · rename_i same
    refine .inl ⟨?_, (pure_eq_ok.mp renamed).symm⟩
    rw [← fields_normalizePath oldPath, same, fields_normalizePath]
  · obtain ⟨_, _, renamed⟩ := bind_eq_ok.mp renamed
    obtain ⟨source, oldParent, renamed⟩ := bind_eq_ok.mp renamed
    obtain ⟨target, newParent, _⟩ := bind_eq_ok.mp renamed
    rw [required_eq_ok, resolveParent_normalizePath] at oldParent newParent
    exact .inr ⟨⟨source, oldParent⟩, target, newParent⟩

end AgentFS

namespace Volume

theorem walk_concat (volume : Volume) (start : Int) (place : List Text) (name : Text) :
    AgentFS.walk volume start (place ++ [name]) = (AgentFS.walk volume start place).bind fun ino => volume.child ino name := by
  rw [AgentFS.walk_append]
  cases AgentFS.walk volume start place with
  | none => rfl
  | some ino => exact AgentFS.walk_single volume ino name

def Directory (volume : Volume) (ino : Int) : Prop := ∃ row, volume.inode? ino = some row ∧ isDirectory row.mode = true

/-- Every entry is in a directory. -/
def Housed (volume : Volume) : Prop := ∀ entry ∈ volume.dentry.rows, volume.Directory entry.parentIno

structure DirectoryTree (volume : Volume) : Prop where
  root : volume.Directory ROOT_INO
  top : ∀ parent name, volume.child parent name ≠ some ROOT_INO
  housed : volume.Housed
  leads : ∀ {parent ino : Int} {name : Text}, volume.child parent name = some ino → ∃ row, volume.inode? ino = some row
  single : ∀ {parent other ino : Int} {name label : Text}, volume.child parent name = some ino →
    volume.child other label = some ino → volume.Directory ino → parent = other ∧ name = label
  numbered : volume.Numbered
  names : ∀ entry ∈ volume.dentry.rows, entry.name ≠ [] ∧ '/' ∉ entry.name

/-- The tables hold of the inode what they held. -/
structure Untouched (ino : Int) (before after : Volume) : Prop where
  inode : after.inode? ino = before.inode? ino
  chunks : after.chunk? ino = before.chunk? ino
  symlink : after.symlink.find? ino = before.symlink.find? ino

instance (volume : Volume) : DecidablePred volume.Directory := fun ino =>
  decidable_of_iff (AgentFS.knownDirectory (AgentFS.getInodeMode volume ino) = true) <| by
    unfold Directory AgentFS.knownDirectory AgentFS.getInodeMode
    cases volume.inode? ino <;> simp

instance (volume : Volume) : Decidable volume.Housed := inferInstanceAs (Decidable (∀ entry ∈ volume.dentry.rows, _))

variable {before after volume : Volume} {parent ino : Int} {name : Text} {place first second : List Text}

theorem Untouched.refl (ino : Int) (volume : Volume) : Untouched ino volume volume := ⟨rfl, rfl, rfl⟩

theorem Untouched.trans {middle after : Volume} (first : Untouched ino before middle) (second : Untouched ino middle after) :
    Untouched ino before after :=
  ⟨second.inode.trans first.inode, second.chunks.trans first.chunks, second.symlink.trans first.symlink⟩

/-- The same, read off the rows. -/
theorem DirectoryTree.of_entries (root : volume.Directory ROOT_INO) (housed : volume.Housed)
    (top : ∀ entry ∈ volume.dentry.rows, entry.ino ≠ ROOT_INO ∧ (volume.inode? entry.ino).isSome = true)
    (single : ∀ entry ∈ volume.dentry.rows, ∀ other ∈ volume.dentry.rows, entry.ino = other.ino → volume.Directory entry.ino →
      entry.parentIno = other.parentIno ∧ entry.name = other.name)
    (names : ∀ entry ∈ volume.dentry.rows, entry.name ≠ [] ∧ '/' ∉ entry.name)
    (entries : ∀ entry ∈ volume.dentry.rows, entry.ino ≤ volume.inodeSequence ∧ entry.parentIno ≤ volume.inodeSequence)
    (rows : (∀ row ∈ volume.inode.rows, row.ino ≤ volume.inodeSequence) ∧ (∀ row ∈ volume.data.rows, row.ino ≤ volume.inodeSequence) ∧
      ∀ row ∈ volume.symlink.rows, row.ino ≤ volume.inodeSequence) : volume.DirectoryTree := by
  obtain ⟨inodes, chunks, symlinks⟩ := rows
  refine ⟨root, ?_, housed, ?_, ?_, ⟨entries, ?_, ?_, ?_⟩, names⟩
  · intro parent name found
    obtain ⟨entry, member, _, _, same⟩ := mem_of_child found
    exact (top entry member).1 same
  · intro parent ino name found
    obtain ⟨entry, member, _, _, rfl⟩ := mem_of_child found
    exact Option.isSome_iff_exists.mp (top entry member).2
  · intro parent other ino name label left right directory
    obtain ⟨entry, member, rfl, rfl, rfl⟩ := mem_of_child left
    obtain ⟨entry', member', rfl, rfl, same⟩ := mem_of_child right
    exact single entry member entry' member' same.symm directory
  · intro ino stored
    obtain ⟨row, found⟩ := Option.ne_none_iff_exists'.mp stored
    rw [← volume.inode.find?_key found]
    exact inodes row (volume.inode.find?_mem found)
  · intro ino stored
    obtain ⟨index, held⟩ := Function.ne_iff.mp stored
    obtain ⟨data, found⟩ := Option.ne_none_iff_exists'.mp held
    rw [chunk?, Option.map_eq_some_iff] at found
    obtain ⟨row, found, _⟩ := found
    have own : row.ino = ino := congrArg Prod.fst (volume.data.find?_key found)
    rw [← own]
    exact chunks row (volume.data.find?_mem found)
  · intro ino stored
    obtain ⟨row, found⟩ := Option.ne_none_iff_exists'.mp stored
    rw [← volume.symlink.find?_key found]
    exact symlinks row (volume.symlink.find?_mem found)

namespace DirectoryTree

variable (tree : volume.DirectoryTree)

include tree

theorem rooted : ROOT_INO ≤ volume.inodeSequence := by
  obtain ⟨row, stored, _⟩ := tree.root
  exact tree.numbered.inodes ROOT_INO (by simp [stored])

theorem holder (found : volume.child parent name = some ino) : volume.Directory parent := by
  obtain ⟨entry, member, rfl, _, _⟩ := mem_of_child found
  exact tree.housed entry member

theorem stored (reached : AgentFS.walk volume ROOT_INO place = some ino) : ∃ row, volume.inode? ino = some row := by
  rcases List.eq_nil_or_concat place with rfl | ⟨front, label, rfl⟩
  · obtain ⟨row, stored, _⟩ := tree.root
    exact ⟨row, by rw [← Option.some.inj reached]; exact stored⟩
  · rw [List.concat_eq_append, walk_concat, Option.bind_eq_some_iff] at reached
    obtain ⟨above, _, found⟩ := reached
    exact tree.leads found

theorem walk_le (reached : AgentFS.walk volume ROOT_INO place = some ino) : ino ≤ volume.inodeSequence :=
  tree.numbered.walk_le tree.rooted reached

/-- Only the empty path leads to the root. -/
theorem walk_root (reached : AgentFS.walk volume ROOT_INO place = some ROOT_INO) : place = [] := by
  rcases List.eq_nil_or_concat place with empty | ⟨front, label, rfl⟩
  · exact empty
  · rw [List.concat_eq_append, walk_concat, Option.bind_eq_some_iff] at reached
    obtain ⟨above, _, found⟩ := reached
    exact absurd found (tree.top above label)

/-- One path leads to a directory. Induction on the path, for everything above a directory is one. -/
theorem walk_unique (directory : volume.Directory ino) (left : AgentFS.walk volume ROOT_INO first = some ino)
    (right : AgentFS.walk volume ROOT_INO second = some ino) : first = second := by
  induction first using List.reverseRecOn generalizing second ino with
  | nil =>
    rw [AgentFS.walk, Option.some.injEq] at left
    rw [← left] at right
    exact (tree.walk_root right).symm
  | append_singleton front label ih =>
    rw [walk_concat, Option.bind_eq_some_iff] at left
    obtain ⟨above, reached, found⟩ := left
    rcases List.eq_nil_or_concat second with rfl | ⟨front', label', rfl⟩
    · rw [AgentFS.walk, Option.some.injEq] at right
      rw [← right] at found
      exact absurd found (tree.top above label)
    · rw [List.concat_eq_append] at right ⊢
      rw [walk_concat, Option.bind_eq_some_iff] at right
      obtain ⟨above', reached', found'⟩ := right
      obtain ⟨rfl, rfl⟩ := tree.single found found' directory
      rw [ih (tree.holder found) reached reached']

/-- The names on a path that leads somewhere have no slash. -/
theorem separable {start : Int} (reached : AgentFS.walk volume start place = some ino) : Separable '/' place := by
  induction place using List.reverseRecOn generalizing ino with
  | nil => exact fun _ member => absurd member List.not_mem_nil
  | append_singleton front label ih =>
    rw [walk_concat, Option.bind_eq_some_iff] at reached
    obtain ⟨above, walked, found⟩ := reached
    obtain ⟨entry, member, _, rfl, _⟩ := mem_of_child found
    intro piece listed
    rcases List.mem_append.mp listed with earlier | last
    · exact ih walked piece earlier
    · rw [List.mem_singleton.mp last]
      exact tree.names entry member

end DirectoryTree

/-! ## Steps -/

/-- A new inode under a new entry of a directory. -/
theorem DirectoryTree.adds (tree : before.DirectoryTree) (adds : Adds ino parent name before after) (below : before.Directory parent)
    (row : ∃ row, after.inode? ino = some row) (valid : name ≠ [] ∧ '/' ∉ name) : after.DirectoryTree := by
  have fresh := adds.fresh
  have known : parent ≤ before.inodeSequence := by
    obtain ⟨row, stored, _⟩ := below
    exact tree.numbered.inodes parent (by simp [stored])
  have kept : ∀ {other}, before.Directory other → after.Directory other := by
    rintro other ⟨row, stored, kind⟩
    have within := tree.numbered.inodes other (by simp [stored])
    exact ⟨row, by rw [adds.inodes other (by omega)]; exact stored, kind⟩
  have unused : ∀ other label, before.child other label ≠ some ino := by
    intro other label found
    obtain ⟨entry, member, _, _, same⟩ := mem_of_child found
    have within := (tree.numbered.entries entry member).1
    omega
  refine ⟨kept tree.root, ?_, ?_, ?_, ?_, adds.numbered tree.numbered known, ?_⟩
  · intro other label
    rw [adds.child]
    split
    · intro same
      have bound := tree.rooted
      rw [Option.some.inj same] at fresh
      omega
    · exact tree.top other label
  · intro entry member
    rw [adds.entries, List.mem_append, List.mem_singleton] at member
    rcases member with old | rfl
    · exact kept (tree.housed entry old)
    · exact kept below
  · intro other number label found
    rw [adds.child] at found
    split at found
    · rw [← Option.some.inj found]
      exact row
    · have different : number ≠ ino := fun same => unused other label (by rw [found, same])
      rw [adds.inodes number different]
      exact tree.leads found
  · intro one other number label label' left right directory
    rw [adds.child] at left right
    split at left
    · rename_i here
      split at right
      · rename_i there
        exact ⟨here.1.trans there.1.symm, here.2.trans there.2.symm⟩
      · rw [← Option.some.inj left] at right
        exact absurd right (unused _ _)
    · split at right
      · rw [← Option.some.inj right] at left
        exact absurd left (unused _ _)
      · have different : number ≠ ino := fun same => unused one label (by rw [left, same])
        refine tree.single left right ?_
        obtain ⟨row, stored, kind⟩ := directory
        exact ⟨row, by rw [← adds.inodes number different]; exact stored, kind⟩
  · intro entry member
    rw [adds.entries, List.mem_append, List.mem_singleton] at member
    rcases member with old | rfl
    · exact tree.names entry old
    · exact valid

/-- What an inode holds is no part of the tree, only whether it is a directory. -/
theorem DirectoryTree.touches_same (tree : before.DirectoryTree) (touches : Touches ino before after)
    (known : ino ≤ before.inodeSequence) (present : (∃ row, before.inode? ino = some row) → ∃ row, after.inode? ino = some row)
    (kind : after.Directory ino ↔ before.Directory ino) : after.DirectoryTree := by
  have same := child_congr touches.dentry
  have directory : ∀ other, after.Directory other ↔ before.Directory other := by
    intro other
    by_cases own : other = ino
    · rw [own]
      exact kind
    · unfold Directory
      rw [touches.inodes other own]
  refine ⟨(directory _).mpr tree.root, ?_, ?_, ?_, ?_, touches.numbered tree.numbered known, ?_⟩
  · rw [same]
    exact tree.top
  · intro entry member
    rw [touches.dentry] at member
    exact (directory _).mpr (tree.housed entry member)
  · intro other number label found
    rw [same] at found
    by_cases own : number = ino
    · rw [own]
      exact present (by rw [← own]; exact tree.leads found)
    · rw [touches.inodes number own]
      exact tree.leads found
  · intro one other number label label' left right within
    rw [same] at left right
    exact tree.single left right ((directory _).mp within)
  · rw [touches.dentry]
    exact tree.names

theorem DirectoryTree.touches (tree : before.DirectoryTree) (touches : Touches ino before after) {row row' : InodeRow}
    (stored : before.inode? ino = some row) (stored' : after.inode? ino = some row')
    (kind : isDirectory row'.mode = isDirectory row.mode) : after.DirectoryTree := by
  refine tree.touches_same touches (tree.numbered.inodes ino (by simp [stored])) (fun _ => ⟨row', stored'⟩) ?_
  unfold Directory
  simp [stored, stored', kind]

/-- The new path, and the old ones as they were. -/
theorem DirectoryTree.walks (tree : before.DirectoryTree) (adds : Adds ino parent name before after) (below : before.Directory parent)
    (reached : AgentFS.walk before ROOT_INO place = some parent) (path : List Text) :
    AgentFS.walk after ROOT_INO path = if path = place ++ [name] then some ino else AgentFS.walk before ROOT_INO path :=
  adds.walks_of_only tree.numbered reached (fun _ also => tree.walk_unique below also reached) (tree.walk_le reached) path

end Volume

end AiryFS
