import AiryFS.Files.DirectoryTree

/-! What `writeFile` does to the tree of directories.

The directories that are missing on the way come first, and then the file. Only paths on the
way to the file are new.
-/

set_option autoImplicit false

namespace AiryFS

open Foundation

namespace Volume

/-- Directories were made on the way to a place, and nothing else has changed. -/
structure Sprouts (before after : Volume) (place : List Text) (ino : Int) : Prop where
  tree : after.DirectoryTree
  reached : AgentFS.walk after ROOT_INO place = some ino
  directory : after.Directory ino
  sequence : before.inodeSequence ≤ after.inodeSequence
  walks : ∀ path, ¬path <+: place → AgentFS.walk after ROOT_INO path = AgentFS.walk before ROOT_INO path
  nodes : ∀ other ≤ before.inodeSequence, Untouched other before after

/-- A new file at a path, under directories that may be new. -/
structure Plants (before after : Volume) (parts : List Text) (name : Text) (ino : Int) : Prop where
  tree : after.DirectoryTree
  reached : AgentFS.walk after ROOT_INO (parts ++ [name]) = some ino
  fresh : before.inodeSequence < ino
  sole : ∀ parent label, after.child parent label = some ino → label = name ∧ AgentFS.walk after ROOT_INO parts = some parent
  walks : ∀ path, ¬path <+: parts ++ [name] → AgentFS.walk after ROOT_INO path = AgentFS.walk before ROOT_INO path
  nodes : ∀ other ≤ before.inodeSequence, Untouched other before after

variable {before after volume volume' : Volume} {current ino parent : Int} {name path : Text} {place parts : List Text} {chunkSize : Nat}

theorem Adds.untouched (adds : Adds ino parent name before after) (other : Int) (within : other ≤ before.inodeSequence) :
    Untouched other before after := by
  have fresh := adds.fresh
  exact ⟨adds.inodes other (by omega), adds.chunks other (by omega), adds.symlinks other (by omega)⟩

theorem Touches.untouched (touches : Touches ino before after) {other : Int} (different : other ≠ ino) : Untouched other before after :=
  ⟨touches.inodes other different, touches.chunks other different, touches.symlinks other different⟩

/-- Induction on the names that are left. -/
theorem descend_sprouts (tree : volume.DirectoryTree) (here : AgentFS.walk volume ROOT_INO place = some current)
    (below : volume.Directory current) (separable : Separable '/' (place ++ parts))
    (descended : AgentFS.descend path volume current parts = .ok volume') : ∃ ino, Sprouts volume volume' (place ++ parts) ino := by
  induction parts generalizing volume place current with
  | nil =>
    rw [List.append_nil, ← pure_eq_ok.mp descended]
    exact ⟨current, tree, here, below, le_refl _, fun _ _ => rfl, fun other _ => .refl other volume⟩
  | cons label rest ih =>
    have whole : place ++ label :: rest = place ++ [label] ++ rest := by simp
    rw [whole] at separable ⊢
    unfold AgentFS.descend at descended
    cases found : volume.dentry? current label with
    | none =>
      rw [found] at descended
      obtain ⟨⟨dirIno, made⟩, inserted, descended⟩ := bind_eq_ok.mp descended
      obtain ⟨entered, created, descended⟩ := bind_eq_ok.mp descended
      obtain ⟨adds, row, _, _⟩ := AgentFS.created_adds inserted created
      have tree' := tree.adds adds below ⟨_, row⟩ (separable label (by simp))
      have walks := tree.walks adds below here
      obtain ⟨ino, sprouts⟩ := ih tree' (by rw [walks, if_pos rfl]) ⟨_, row, isDirectory_default⟩ separable descended
      refine ⟨ino, sprouts.tree, sprouts.reached, sprouts.directory, ?_, ?_, ?_⟩
      · have fresh := adds.fresh
        have sequence := adds.sequence
        have later := sprouts.sequence
        omega
      · intro other apart
        rw [sprouts.walks other apart, walks, if_neg]
        rintro rfl
        exact apart (List.prefix_append _ _)
      · intro other within
        have fresh := adds.fresh
        have sequence := adds.sequence
        exact (adds.untouched other within).trans (sprouts.nodes other (by omega))
    | some entry =>
      rw [found] at descended
      obtain ⟨_, passed, descended⟩ := bind_eq_ok.mp descended
      rw [refuse_eq_ok] at passed
      have led : volume.child current label = some entry.ino := by rw [child, found, Option.map_some]
      obtain ⟨row, stored⟩ := tree.leads led
      refine ih tree ?_ ⟨row, stored, ?_⟩ separable descended
      · rw [walk_concat, here, Option.bind_some, led]
      · simpa [AgentFS.knownFile, AgentFS.getInodeMode, stored] using passed

/-- A path that led nowhere leads to a new empty file. -/
theorem writeFile_plants (tree : volume.DirectoryTree) (missing : AgentFS.resolvePath volume path = none)
    (written : AgentFS.writeFile volume chunkSize path [] = .ok volume') : ∃ parts name ino,
      fields '/' path = parts ++ [name] ∧ Plants volume volume' parts name ino ∧ volume'.Stored chunkSize ino (.file []) := by
  obtain ⟨ensured, descended, written⟩ := bind_eq_ok.mp written
  rcases List.eq_nil_or_concat (fields '/' path) with root | ⟨parts, name, spelled⟩
  · rw [AgentFS.resolvePath_eq, root] at missing
    cases missing
  rw [List.concat_eq_append] at spelled
  have separable : Separable '/' (parts ++ [name]) := by
    rw [← spelled]
    exact fields_separable path
  unfold AgentFS.ensureParentDirs at descended
  rw [AgentFS.splitPath_eq, spelled, List.dropLast_concat] at descended
  obtain ⟨parent, sprouts⟩ := @descend_sprouts _ _ _ _ [] _ tree rfl tree.root
    (fun piece member => separable piece (List.mem_append_left _ member)) descended
  rw [List.nil_append] at sprouts
  have longer : ¬parts ++ [name] <+: parts := by
    intro shorter
    have lengths := shorter.length_le
    simp at lengths
  rw [AgentFS.resolvePath_eq, spelled] at missing
  dsimp only at written
  split at written
  · rename_i number resolved
    rw [AgentFS.resolvePath_eq, spelled, sprouts.walks _ longer, missing] at resolved
    cases resolved
  · obtain ⟨⟨parentIno, label⟩, above, written⟩ := bind_eq_ok.mp written
    obtain ⟨⟨ino, made⟩, inserted, written⟩ := bind_eq_ok.mp written
    obtain ⟨entered, created, updated⟩ := bind_eq_ok.mp written
    rw [required_eq_ok] at above
    obtain ⟨pieces, shape, walked⟩ := AgentFS.resolveParent_eq_some.mp above
    rw [spelled] at shape
    obtain ⟨rfl, named⟩ := List.append_inj' shape rfl
    obtain rfl := List.singleton_inj.mp named
    rw [sprouts.reached, Option.some.injEq] at walked
    subst walked
    obtain ⟨adds, row, _, _⟩ := AgentFS.created_adds inserted created
    obtain ⟨touches, stored⟩ := AgentFS.emptied updated
    have file := stored ⟨_, row, isRegular_default⟩
    have whole := adds.touches touches
    obtain ⟨row', found⟩ := Option.ne_none_iff_exists'.mp file.present
    have walks := sprouts.tree.walks whole sprouts.directory sprouts.reached
    have fresh := whole.fresh
    have ordered := sprouts.sequence
    refine ⟨parts, name, ino, spelled, ⟨?_, by rw [walks, if_pos rfl], by omega, ?_, ?_, ?_⟩, file⟩
    · exact sprouts.tree.adds whole sprouts.directory ⟨row', found⟩ (separable name (by simp))
    · intro other label led
      rw [whole.child] at led
      split at led
      · rename_i here
        refine ⟨here.2, ?_⟩
        rw [walks, if_neg (by simp), here.1]
        exact sprouts.reached
      · obtain ⟨entry, member, _, _, same⟩ := mem_of_child led
        have within := (sprouts.tree.numbered.entries entry member).1
        omega
    · intro other apart
      rw [walks, if_neg (by rintro rfl; exact apart List.prefix_rfl), sprouts.walks]
      exact fun shorter => apart (shorter.trans (List.prefix_append _ _))
    · exact fun other within => (sprouts.nodes other within).trans (whole.untouched other (by omega))

end Volume

/-! Files that come, move and go in a tree of directories, entry by entry. -/

/-- The mode and the owners. -/
def InodeRow.access (row : InodeRow) : Int × Int × Int := (row.mode, row.uid, row.gid)

namespace Volume

variable {before after volume volume' : Volume} {ino parent newParent : Int} {name newName path : Text} {chunkSize : Nat}

theorem SameNode.directory (same : SameNode ino before after) : after.Directory ino ↔ before.Directory ino := by
  refine ⟨?_, ?_⟩
  · rintro ⟨row, stored, kind⟩
    obtain ⟨row', stored', mode, _⟩ := same.symm.stored_row stored
    exact ⟨row', stored', by rw [mode]; exact kind⟩
  · rintro ⟨row, stored, kind⟩
    obtain ⟨row', stored', mode, _⟩ := same.stored_row stored
    exact ⟨row', stored', by rw [mode]; exact kind⟩

/-- A new empty file in a directory that is there. -/
theorem writeFile_adds (above : AgentFS.resolveParent volume path = some (parent, name)) (free : volume.child parent name = none)
    (written : AgentFS.writeFile volume chunkSize path [] = .ok volume') :
    ∃ ino, Adds ino parent name volume volume' ∧ volume'.Stored chunkSize ino (.file []) ∧
      (volume'.inode? ino).map InodeRow.access = some (DEFAULT_FILE_MODE, 0, 0) := by
  obtain ⟨ensured, descended, written⟩ := bind_eq_ok.mp written
  obtain ⟨parts, spelled, walked⟩ := AgentFS.resolveParent_eq_some.mp above
  -- No directory is missing on the way.
  have same : volume = ensured := by
    unfold AgentFS.ensureParentDirs at descended
    rw [AgentFS.splitPath_eq, spelled, List.dropLast_concat, ← List.append_nil parts] at descended
    exact pure_eq_ok.mp (AgentFS.descend_walked walked descended)
  subst same
  dsimp only at written
  rw [AgentFS.resolvePath_of_parent above] at written
  split at written
  · rename_i number resolved
    cases resolved.symm.trans free
  · obtain ⟨⟨parent', label⟩, above', written⟩ := bind_eq_ok.mp written
    obtain ⟨⟨ino, made⟩, inserted, written⟩ := bind_eq_ok.mp written
    obtain ⟨entered, created, updated⟩ := bind_eq_ok.mp written
    rw [required_eq_ok, above, Option.some.injEq, Prod.mk.injEq] at above'
    obtain ⟨rfl, rfl⟩ := above'
    obtain ⟨adds, row, _, _⟩ := AgentFS.created_adds inserted created
    obtain ⟨touches, stored⟩ := AgentFS.emptied updated
    refine ⟨ino, adds.touches touches, stored ⟨_, row, isRegular_default⟩, ?_⟩
    rw [AgentFS.updateFileContent_nil] at updated
    have kept : (entered.deleteChunks ino fun _ => true).inode? ino = entered.inode? ino := rfl
    rw [resizeInode_ok _ _ _ updated, inode?_modifyInode, inode?_updateInode, kept, row, Option.map_some, changeRow, if_pos rfl]
    rfl

/-- What is no directory moves to a free entry. -/
theorem DirectoryTree.moves (tree : before.DirectoryTree) (moves : Moves parent name newParent newName ino before after)
    (found : before.child parent name = some ino) (free : before.child newParent newName = none)
    (below : before.Directory newParent) (valid : newName ≠ [] ∧ '/' ∉ newName) (kind : ¬before.Directory ino) :
    after.DirectoryTree := by
  have nodes (other : Int) : SameNode other before after := moves.nodes other (by rw [free]; nofun)
  have old : ∀ {other number : Int} {label : Text}, after.child other label = some number →
      (other = newParent ∧ label = newName ∧ number = ino) ∨ before.child other label = some number := by
    intro other number label led
    rw [moves.children] at led
    split at led
    · rename_i here
      exact .inl ⟨here.1, here.2, (Option.some.inj led).symm⟩
    · split at led
      · cases led
      · exact .inr led
  refine ⟨(nodes _).directory.mpr tree.root, ?_, ?_, ?_, ?_, moves.numbered tree.rooted tree.numbered, ?_⟩
  · intro other label led
    rcases old led with ⟨-, -, same⟩ | led
    · exact tree.top parent name (by rw [found, same])
    · exact tree.top other label led
  · intro entry member
    rcases old (child_of_mem member) with ⟨same, -, -⟩ | led
    · rw [same]
      exact (nodes _).directory.mpr below
    · exact (nodes _).directory.mpr (tree.holder led)
  · intro other number label led
    have present : ∃ row, before.inode? number = some row := by
      rcases old led with ⟨-, -, rfl⟩ | led
      · exact tree.leads found
      · exact tree.leads led
    obtain ⟨row, stored⟩ := present
    obtain ⟨row', stored', -⟩ := (nodes number).stored_row stored
    exact ⟨row', stored'⟩
  · intro one other number label label' left right within
    have within := (nodes number).directory.mp within
    have apart : number ≠ ino := by
      rintro rfl
      exact kind within
    exact tree.single ((old left).resolve_left fun same => apart same.2.2) ((old right).resolve_left fun same => apart same.2.2) within
  · intro entry member
    rcases old (child_of_mem member) with ⟨-, same, -⟩ | led
    · rw [same]
      exact valid
    · obtain ⟨entry', member', -, same, -⟩ := mem_of_child led
      rw [← same]
      exact tree.names entry' member'

/-- The only entry of what is no directory is removed. -/
theorem DirectoryTree.removes (tree : volume.DirectoryTree) (only : ∀ other label, volume.child other label = some ino →
    other = parent ∧ label = name) (kind : ¬volume.Directory ino) :
    (AgentFS.removeDentryAndMaybeInode volume parent name ino).DirectoryTree := by
  have removes : Removes (· = ino) parent name volume (AgentFS.removeDentryAndMaybeInode volume parent name ino) :=
    removes_entry volume rfl
  have directory : ∀ other, volume.Directory other →
      (AgentFS.removeDentryAndMaybeInode volume parent name ino).Directory other := by
    intro other within
    refine (removes.nodes other ?_).directory.mpr within
    rintro rfl
    exact kind within
  -- No entry leads to the inode any more.
  have apart : ∀ {other number : Int} {label : Text},
      (AgentFS.removeDentryAndMaybeInode volume parent name ino).child other label = some number → number ≠ ino := by
    rintro other number label led rfl
    have same := only other label (removes.fewer other label _ led)
    rw [child_removed, if_pos same] at led
    cases led
  refine ⟨directory _ tree.root, ?_, ?_, ?_, ?_, removes.numbered tree.numbered, ?_⟩
  · exact fun other label led => tree.top other label (removes.fewer other label _ led)
  · exact fun entry member => directory _ (tree.holder (removes.fewer _ _ _ (child_of_mem member)))
  · intro other number label led
    obtain ⟨row, stored⟩ := tree.leads (removes.fewer other label _ led)
    obtain ⟨row', stored', -⟩ := (removes.nodes number (apart led)).stored_row stored
    exact ⟨row', stored'⟩
  · intro one other number label label' left right within
    exact tree.single (removes.fewer _ _ _ left) (removes.fewer _ _ _ right) ((removes.nodes number (apart left)).directory.mp within)
  · intro entry member
    obtain ⟨entry', member', -, same, -⟩ := mem_of_child (removes.fewer _ _ _ (child_of_mem member))
    rw [← same]
    exact tree.names entry' member'

end Volume

end AiryFS
