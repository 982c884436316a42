import AiryFS.Direct.Creating

/-! Renames and removals, as what they do to the entries of each directory.

A rename moves one entry. A removal takes one entry and whatever is inside a part of the
volume that no other entry leads out of; everything outside stays as it is.
-/

set_option autoImplicit false

namespace AiryFS

open Foundation

/-- The row without its times. -/
def InodeRow.timeless (row : InodeRow) : InodeRow := { row with mtime := 0, ctime := 0, mtimeNsec := 0, ctimeNsec := 0 }

namespace Volume

/-- The inode that an entry of a directory leads to. -/
def child (volume : Volume) (parent : Int) (name : Text) : Option Int := (volume.dentry? parent name).map (·.ino)

/-- What the tables hold of an inode is the same, but for the times a rename sets. -/
structure SameNode (ino : Int) (before after : Volume) : Prop where
  row : (after.inode? ino).map InodeRow.timeless = (before.inode? ino).map InodeRow.timeless
  chunks : after.chunk? ino = before.chunk? ino
  symlink : after.symlink.find? ino = before.symlink.find? ino

/-- The entry has moved, and only that. -/
structure Moves (parent : Int) (name : Text) (newParent : Int) (newName : Text) (ino : Int) (before after : Volume) : Prop where
  children : ∀ other label, after.child other label =
    if other = newParent ∧ label = newName then some ino
    else if other = parent ∧ label = name then none else before.child other label
  nodes : ∀ other, before.child newParent newName ≠ some other → SameNode other before after
  sequence : after.inodeSequence = before.inodeSequence
  numbered : ROOT_INO ≤ before.inodeSequence → before.Numbered → after.Numbered

/-- Nothing outside has changed but for one entry that is gone. -/
structure Removes (inside : Int → Prop) (parent : Int) (name : Text) (before after : Volume) : Prop where
  children : ∀ other label, ¬inside other → after.child other label =
    if other = parent ∧ label = name then none else before.child other label
  fewer : ∀ other label ino, after.child other label = some ino → before.child other label = some ino
  nodes : ∀ ino, ¬inside ino → SameNode ino before after
  sequence : after.inodeSequence = before.inodeSequence
  numbered : before.Numbered → after.Numbered

variable {before middle after volume volume' : Volume} {ino parentIno : Int} {name : Text} {chunkSize : Nat} {node : TreeNode}

/-! ## Nodes -/

theorem SameNode.refl (ino : Int) (volume : Volume) : SameNode ino volume volume := ⟨rfl, rfl, rfl⟩

theorem SameNode.trans (first : SameNode ino before middle) (second : SameNode ino middle after) : SameNode ino before after :=
  ⟨second.row.trans first.row, second.chunks.trans first.chunks, second.symlink.trans first.symlink⟩

theorem SameNode.symm (same : SameNode ino before after) : SameNode ino after before :=
  ⟨same.row.symm, same.chunks.symm, same.symlink.symm⟩

/-- What holds of a row apart from its times. -/
theorem SameNode.stored_row (same : SameNode ino before after) {row : InodeRow} (stored : before.inode? ino = some row) :
    ∃ row', after.inode? ino = some row' ∧ row'.mode = row.mode ∧ row'.size = row.size := by
  have rows := same.row
  rw [stored, Option.map_some, Option.map_eq_some_iff] at rows
  obtain ⟨row', found, equal⟩ := rows
  unfold InodeRow.timeless at equal
  rw [InodeRow.mk.injEq] at equal
  exact ⟨row', found, equal.2.1, equal.2.2.2.2.2.1⟩

theorem SameNode.present (same : SameNode ino before after) (stored : before.inode? ino ≠ none) : after.inode? ino ≠ none := by
  obtain ⟨row, found⟩ := Option.ne_none_iff_exists'.mp stored
  obtain ⟨row', found', _⟩ := same.stored_row found
  rw [found']
  simp

theorem Stored.present (stored : volume.Stored chunkSize ino node) : volume.inode? ino ≠ none := by
  have found : ∃ row, volume.inode? ino = some row := by
    cases node with
    | directory =>
      obtain ⟨row, found, _⟩ := stored
      exact ⟨row, found⟩
    | file content =>
      obtain ⟨_, row, found, _⟩ := stored
      exact ⟨row, found⟩
    | symlink target =>
      obtain ⟨⟨row, found, _⟩, _⟩ := stored
      exact ⟨row, found⟩
  exact Option.ne_none_iff_exists'.mpr found

theorem SameNode.stored (same : SameNode ino before after) (stored : before.Stored chunkSize ino node) :
    after.Stored chunkSize ino node := by
  cases node with
  | directory =>
    obtain ⟨row, found, kind⟩ := stored
    obtain ⟨row', found', mode, sized⟩ := same.stored_row found
    exact ⟨row', found', by rw [mode]; exact kind⟩
  | file content =>
    obtain ⟨⟨⟨row, found, kind, size⟩, laidOut⟩, regularRow, regularFound, regular⟩ := stored
    obtain ⟨row', found', mode, sized⟩ := same.stored_row found
    rw [found, Option.some.injEq] at regularFound
    refine ⟨⟨⟨row', found', by rw [mode]; exact kind, sized.trans size⟩, ?_⟩, row', found', ?_⟩
    · rw [LaidOut, same.chunks]
      exact laidOut
    · rw [mode, regularFound]
      exact regular
  | symlink target =>
    obtain ⟨⟨row, found, kind⟩, linked⟩ := stored
    obtain ⟨row', found', mode, sized⟩ := same.stored_row found
    exact ⟨⟨row', found', by rw [mode]; exact kind⟩, by rw [same.symlink]; exact linked⟩

theorem sameNode_updateInode (volume : Volume) (changed ino : Int) (change : InodeRow → InodeRow)
    (timeless : ∀ row, (change row).timeless = row.timeless) : SameNode ino volume (volume.updateInode changed change) := by
  refine ⟨?_, rfl, rfl⟩
  rw [inode?_updateInode, Option.map_map]
  congr 1
  funext row
  rw [Function.comp_apply, changeRow]
  split
  · have kept := timeless row
    unfold InodeRow.timeless at kept ⊢
    simp only [InodeRow.mk.injEq] at kept ⊢
    simp [kept]
  · rfl

theorem sameNode_modifyInode (volume : Volume) (changed ino : Int) (change : InodeRow → InodeRow)
    (timeless : ∀ row, (change row).timeless = row.timeless) : SameNode ino volume (volume.modifyInode changed change) := by
  obtain ⟨feed, same⟩ := volume.modifyInode_eq changed change
  rw [same]
  have kept := sameNode_updateInode volume changed ino change timeless
  exact ⟨kept.row, kept.chunks, kept.symlink⟩

/-! ## Walks -/

theorem walk_cons (volume : Volume) (start : Int) (name : Text) (rest : List Text) :
    AgentFS.walk volume start (name :: rest) = (volume.child start name).bind fun ino => AgentFS.walk volume ino rest := by
  rw [AgentFS.walk, child]
  cases volume.dentry? start name <;> rfl

theorem child_congr (same : after.dentry = before.dentry) : after.child = before.child := by
  funext parent name
  rw [child, dentry?, same, child, dentry?]

theorem mem_of_child (found : volume.child parentIno name = some ino) :
    ∃ entry ∈ volume.dentry.rows, entry.parentIno = parentIno ∧ entry.name = name ∧ entry.ino = ino := by
  rw [child, Option.map_eq_some_iff] at found
  obtain ⟨entry, found, same⟩ := found
  have key := volume.dentry.find?_key found
  exact ⟨entry, volume.dentry.find?_mem found, congrArg Prod.fst key, congrArg Prod.snd key, same⟩

theorem child_of_mem {entry : DentryRow} (member : entry ∈ volume.dentry.rows) :
    volume.child entry.parentIno entry.name = some entry.ino := by
  have found := volume.dentry.find?_of_mem member
  rw [child, dentry?]
  change (volume.dentry.find? entry.key).map _ = _
  rw [found]
  rfl

/-- No inode has anything that had nothing before. -/
structure NoNewNodes (before after : Volume) : Prop where
  inodes : ∀ ino, before.inode? ino = none → after.inode? ino = none
  chunks : ∀ ino, before.chunk? ino = (fun _ => none) → after.chunk? ino = fun _ => none
  symlinks : ∀ ino, before.symlink.find? ino = none → after.symlink.find? ino = none

theorem NoNewNodes.trans (first : NoNewNodes before middle) (second : NoNewNodes middle after) : NoNewNodes before after :=
  ⟨fun ino absent => second.inodes ino (first.inodes ino absent), fun ino absent => second.chunks ino (first.chunks ino absent),
    fun ino absent => second.symlinks ino (first.symlinks ino absent)⟩

theorem NoNewNodes.of_same (same : ∀ ino, SameNode ino before after) : NoNewNodes before after := by
  refine ⟨?_, fun ino absent => (same ino).chunks.trans absent, fun ino absent => (same ino).symlink.trans absent⟩
  intro ino absent
  have rows := (same ino).row
  rw [absent, Option.map_none, Option.map_eq_none_iff] at rows
  exact rows

theorem Numbered.of_fewer (numbered : before.Numbered) (fewer : NoNewNodes before after)
    (sequence : after.inodeSequence = before.inodeSequence)
    (entries : ∀ entry ∈ after.dentry.rows, entry.ino ≤ before.inodeSequence ∧ entry.parentIno ≤ before.inodeSequence) :
    after.Numbered := by
  refine ⟨by rw [sequence]; exact entries, ?_, ?_, ?_⟩
  · intro ino used
    rw [sequence]
    exact numbered.inodes ino fun absent => used (fewer.inodes ino absent)
  · intro ino used
    rw [sequence]
    exact numbered.chunks ino fun absent => used (fewer.chunks ino absent)
  · intro ino used
    rw [sequence]
    exact numbered.symlinks ino fun absent => used (fewer.symlinks ino absent)

theorem noNewNodes_deleteInode (volume : Volume) (ino : Int) : NoNewNodes volume (volume.deleteInode ino) := by
  refine ⟨?_, ?_, ?_⟩
  · intro other absent
    rw [inode?_deleteInode, absent]
    split <;> rfl
  · intro other absent
    funext index
    have missing : volume.data.find? (other, index) = none := by
      have none := congrFun absent index
      rw [chunk?, Option.map_eq_none_iff] at none
      exact none
    unfold chunk? deleteInode deleteInodes
    dsimp only
    rw [Table.find?_deleteWhere, missing]
    rfl
  · intro other absent
    unfold deleteInode deleteInodes
    dsimp only
    rw [Table.find?_deleteWhere, absent]
    rfl

theorem noNewNodes_updateInode (volume : Volume) (ino : Int) (change : InodeRow → InodeRow) :
    NoNewNodes volume (volume.updateInode ino change) := by
  refine ⟨?_, fun _ absent => absent, fun _ absent => absent⟩
  intro other absent
  rw [inode?_updateInode, absent]
  rfl

theorem sameNode_deleteInode (volume : Volume) {ino other : Int} (different : other ≠ ino) :
    SameNode other volume (volume.deleteInode ino) := by
  have spared : (volume.inode.rows.any fun row => row.ino = other && row.ino = ino) = false := by
    rw [List.any_eq_false]
    intro row _
    simp only [Bool.and_eq_true, decide_eq_true_eq, not_and]
    intro same
    rw [same]
    exact different
  refine ⟨?_, ?_, ?_⟩
  · rw [inode?_deleteInode, if_neg different]
  · funext index
    unfold chunk? deleteInode deleteInodes
    dsimp only
    rw [Table.find?_deleteWhere]
    cases found : volume.data.find? (other, index) with
    | none => rfl
    | some row =>
      have key := congrArg Prod.fst (volume.data.find?_key found)
      simp only [DataRow.key] at key
      simp [Option.filter, key, spared]
  · unfold deleteInode deleteInodes
    dsimp only
    rw [Table.find?_deleteWhere]
    cases found : volume.symlink.find? other with
    | none => rfl
    | some row =>
      have key := volume.symlink.find?_key found
      simp [Option.filter, key, spared]

/-! ## One entry less -/

/-- What `removeDentryAndMaybeInode` leaves of the volume. -/
theorem removed_entry (volume : Volume) (parent : Int) (label : Text) (ino : Int) :
    (AgentFS.removeDentryAndMaybeInode volume parent label ino).dentry = volume.dentry.erase (parent, label) ∧
      (AgentFS.removeDentryAndMaybeInode volume parent label ino).inodeSequence = volume.inodeSequence ∧
      NoNewNodes volume (AgentFS.removeDentryAndMaybeInode volume parent label ino) ∧
      ∀ other, other ≠ ino → SameNode other volume (AgentFS.removeDentryAndMaybeInode volume parent label ino) := by
  obtain ⟨feed, erased⟩ := volume.deleteDentry_eq parent label
  have counted := noNewNodes_updateInode { volume with dentry := volume.dentry.erase (parent, label), feed } ino
    fun row => { row with nlink := row.nlink - 1 }
  have same : NoNewNodes volume { volume with dentry := volume.dentry.erase (parent, label), feed } :=
    ⟨fun _ absent => absent, fun _ absent => absent, fun _ absent => absent⟩
  unfold AgentFS.removeDentryAndMaybeInode
  rw [erased]
  dsimp only
  split
  · refine ⟨rfl, rfl, (same.trans counted).trans (noNewNodes_deleteInode _ ino), ?_⟩
    intro other different
    refine SameNode.trans ?_ (sameNode_deleteInode _ different)
    refine ⟨?_, rfl, rfl⟩
    rw [inode?_updateInode_ne _ _ _ different]
    rfl
  · refine ⟨rfl, rfl, same.trans counted, ?_⟩
    intro other different
    refine ⟨?_, rfl, rfl⟩
    rw [inode?_updateInode_ne _ _ _ different]
    rfl

theorem child_removed (volume : Volume) (parent : Int) (label : Text) (ino other : Int) (name : Text) :
    (AgentFS.removeDentryAndMaybeInode volume parent label ino).child other name =
      if other = parent ∧ name = label then none else volume.child other name := by
  have erased := (removed_entry volume parent label ino).1
  unfold child dentry?
  rw [erased, Table.find?_erase]
  by_cases here : other = parent ∧ name = label
  · rw [if_pos here, if_pos (by rw [here.1, here.2])]
    rfl
  · rw [if_neg here, if_neg]
    intro same
    rw [Prod.mk.injEq] at same
    exact here same

/-- A removed entry, whatever its inode was inside of. -/
theorem removes_entry (volume : Volume) {inside : Int → Prop} {parent : Int} {label : Text} (within : inside ino) :
    Removes inside parent label volume (AgentFS.removeDentryAndMaybeInode volume parent label ino) := by
  obtain ⟨erased, sequence, fewer, nodes⟩ := removed_entry volume parent label ino
  have kept : ∀ other, ¬inside other → SameNode other volume (AgentFS.removeDentryAndMaybeInode volume parent label ino) := by
    intro other outside
    apply nodes
    rintro rfl
    exact outside within
  refine ⟨fun other name _ => child_removed volume parent label ino other name, ?_, kept, sequence, ?_⟩
  · intro other name number found
    rw [child_removed] at found
    split at found
    · cases found
    · exact found
  · intro numbered
    refine numbered.of_fewer fewer sequence ?_
    intro entry member
    rw [erased] at member
    exact numbered.entries entry (volume.dentry.mem_erase.mp member).1

/-! ## Removal -/

/-- No entry leads out. -/
def Closed (volume : Volume) (inside : Int → Prop) : Prop :=
  ∀ parent label ino, inside parent → volume.child parent label = some ino → inside ino

/-- Nothing outside has changed. -/
structure Prunes (inside : Int → Prop) (before after : Volume) : Prop where
  children : ∀ other label, ¬inside other → after.child other label = before.child other label
  fewer : ∀ other label ino, after.child other label = some ino → before.child other label = some ino
  nodes : ∀ ino, ¬inside ino → SameNode ino before after
  sequence : after.inodeSequence = before.inodeSequence
  numbered : before.Numbered → after.Numbered

variable {inside : Int → Prop}

theorem Prunes.refl (inside : Int → Prop) (volume : Volume) : Prunes inside volume volume :=
  ⟨fun _ _ _ => rfl, fun _ _ _ found => found, fun ino _ => .refl ino volume, rfl, id⟩

theorem Prunes.trans (first : Prunes inside before middle) (second : Prunes inside middle after) : Prunes inside before after where
  children other label outside := (second.children other label outside).trans (first.children other label outside)
  fewer other label ino found := first.fewer other label ino (second.fewer other label ino found)
  nodes ino outside := (first.nodes ino outside).trans (second.nodes ino outside)
  sequence := second.sequence.trans first.sequence
  numbered numbered := second.numbered (first.numbered numbered)

/-- An entry inside is nothing that changes outside. -/
theorem Removes.prunes {parent : Int} {label : Text} (removes : Removes inside parent label before after) (within : inside parent) :
    Prunes inside before after := by
  refine ⟨?_, removes.fewer, removes.nodes, removes.sequence, removes.numbered⟩
  intro other name outside
  rw [removes.children other name outside, if_neg]
  rintro ⟨rfl, _⟩
  exact outside within

theorem Prunes.removes {parent : Int} {label : Text} (prunes : Prunes inside before middle)
    (removes : Removes inside parent label middle after) : Removes inside parent label before after where
  children other name outside := by rw [removes.children other name outside, prunes.children other name outside]
  fewer other name ino found := prunes.fewer other name ino (removes.fewer other name ino found)
  nodes ino outside := (prunes.nodes ino outside).trans (removes.nodes ino outside)
  sequence := removes.sequence.trans prunes.sequence
  numbered numbered := removes.numbered (prunes.numbered numbered)

theorem Prunes.closed (prunes : Prunes inside before after) (closed : before.Closed inside) : after.Closed inside :=
  fun parent label ino within found => closed parent label ino within (prunes.fewer parent label ino found)

end Volume

namespace AgentFS

open Volume

variable {volume volume' : Volume} {inside : Int → Prop} {path name : Text} {ino parentIno : Int}

theorem mem_entriesOf {entry : DentryRow} {dirIno : Int} (listed : entry ∈ entriesOf volume dirIno) :
    volume.child dirIno entry.name = some entry.ino := by
  unfold entriesOf at listed
  rw [List.mem_insertionSort, List.mem_filter, decide_eq_true_eq] at listed
  rw [← listed.2]
  exact child_of_mem listed.1

/-- A listing has the name of every entry, and each once. -/
theorem mem_readdir {names : List Text} (listed : readdir volume path = .ok names) (resolved : resolvePath volume path = some ino) :
    (∀ name, name ∈ names ↔ volume.child ino name ≠ none) ∧ names.Nodup := by
  obtain ⟨dirIno, checked, listed⟩ := bind_eq_ok.mp listed
  obtain ⟨⟨_, found⟩, here, checked⟩ := bind_eq_ok.mp checked
  obtain ⟨_, _, checked⟩ := bind_eq_ok.mp checked
  have same := (resolvePathOrThrow_ok here).2
  rw [resolved, Option.some.injEq] at same
  rw [← pure_eq_ok.mp listed, ← pure_eq_ok.mp checked, ← same]
  have sorted := List.perm_insertionSort DentryRow.Ordered (volume.dentry.rows.filter fun entry => entry.parentIno = ino)
  constructor
  · intro name
    rw [Option.ne_none_iff_exists', List.mem_map]
    constructor
    · rintro ⟨entry, member, rfl⟩
      exact ⟨entry.ino, mem_entriesOf member⟩
    · rintro ⟨number, found⟩
      obtain ⟨entry, member, rfl, rfl, _⟩ := mem_of_child found
      exact ⟨entry, sorted.mem_iff.mpr (List.mem_filter.mpr ⟨member, decide_eq_true rfl⟩), rfl⟩
  · refine (sorted.map _).nodup_iff.mpr ?_
    have keyed : ((volume.dentry.rows.filter fun entry => entry.parentIno = ino).map DentryRow.name).map (Prod.mk ino) =
        (volume.dentry.rows.filter fun entry => entry.parentIno = ino).map DentryRow.key := by
      rw [List.map_map]
      refine List.map_congr_left ?_
      intro entry member
      have inside := of_decide_eq_true (List.mem_filter.mp member).2
      rw [Function.comp_apply, ← inside]
      rfl
    apply List.Nodup.of_map (Prod.mk ino)
    rw [keyed]
    exact volume.dentry.unique.sublist (List.filter_sublist.map _)

/-- Emptying a directory stays inside what holds everything below it. -/
theorem rmDirContentsRecursive_prunes {depth : Nat} {dirIno : Int} (closed : volume.Closed inside) (within : inside dirIno) :
    Prunes inside volume (rmDirContentsRecursive depth volume dirIno) := by
  induction depth generalizing volume dirIno with
  | zero => exact .refl inside volume
  | succ depth ih =>
    unfold rmDirContentsRecursive
    have below : ∀ child ∈ entriesOf volume dirIno, inside child.ino := fun child listed =>
      closed dirIno child.name child.ino within (mem_entriesOf listed)
    generalize entriesOf volume dirIno = listed at below
    induction listed generalizing volume with
    | nil => exact .refl inside volume
    | cons child listed again =>
      rw [List.foldl_cons]
      have inner := below child List.mem_cons_self
      have rest : ∀ other ∈ listed, inside other.ino := fun other later => below other (List.mem_cons_of_mem _ later)
      refine (fun first : Prunes inside volume _ => Prunes.trans first (again (Prunes.closed first closed) rest)) ?_
      split
      · exact .refl inside volume
      · refine Prunes.trans ?_ ((removes_entry _ inner).prunes within)
        split
        · exact ih closed inner
        · exact .refl inside volume

/-- A removal that may recurse takes the entry, and nothing outside of what is below it. -/
theorem rm_removes (parent : resolveParent volume path = some (parentIno, name)) (found : volume.child parentIno name = some ino)
    (stored : volume.inode? ino ≠ none) (closed : volume.Closed inside) (within : inside ino) :
    ∃ volume', rm volume path true true = .ok volume' ∧ Removes inside parentIno name volume volume' := by
  have resolved : resolvePath volume path = some ino := by
    rw [resolvePath_of_parent parent]
    exact found
  have below : ¬normalizePath path = ['/'] := by
    intro root
    obtain ⟨parts, spelled, _⟩ := resolveParent_eq_some.mp parent
    rw [← fields_normalizePath, root, fields_cons_sep, fields_nil] at spelled
    simp at spelled
  obtain ⟨row, known⟩ := Option.ne_none_iff_exists'.mp stored
  unfold rm
  dsimp only
  rw [refuse_of_not below, resolvePath_normalizePath, resolved, resolveParent_normalizePath, parent]
  simp only [bind, Except.bind, getInodeMode, known, Option.map_some, required]
  split
  · rw [refuse_of_not (by simp)]
    exact ⟨_, rfl, (rmDirContentsRecursive_prunes closed within).removes (removes_entry _ within)⟩
  · exact ⟨_, rfl, removes_entry _ within⟩

/-! ## Renaming -/

variable {newParentIno oldParentIno : Int} {newName oldName oldPath newPath : Text}

/-- At most the entry and its inode are gone. -/
structure Clears (parentIno : Int) (name : Text) (before after : Volume) : Prop where
  children : ∀ other label, ¬(other = parentIno ∧ label = name) → after.child other label = before.child other label
  nodes : ∀ other, before.child parentIno name ≠ some other → SameNode other before after
  sequence : after.inodeSequence = before.inodeSequence
  numbered : before.Numbered → after.Numbered

theorem Clears.refl (parentIno : Int) (name : Text) (volume : Volume) : Clears parentIno name volume volume :=
  ⟨fun _ _ _ => rfl, fun other _ => .refl other volume, rfl, id⟩

theorem clearDestination_clears {oldIsDir : Bool} (parent : resolveParent volume newPath = some (newParentIno, newName))
    (cleared : clearDestination volume newPath newParentIno newName oldIsDir = .ok volume') :
    Clears newParentIno newName volume volume' := by
  unfold clearDestination at cleared
  split at cleared
  · rw [← pure_eq_ok.mp cleared]
    exact .refl _ _ volume
  · rename_i newIno resolved
    split at cleared
    · rw [← pure_eq_ok.mp cleared]
      exact .refl _ _ volume
    · obtain ⟨_, _, cleared⟩ := bind_eq_ok.mp cleared
      obtain ⟨_, _, cleared⟩ := bind_eq_ok.mp cleared
      obtain ⟨_, _, cleared⟩ := bind_eq_ok.mp cleared
      rw [resolvePath_of_parent parent] at resolved
      have here : volume.child newParentIno newName = some newIno := resolved
      rw [← pure_eq_ok.mp cleared]
      have removes := @removes_entry newIno volume (fun other => other = newIno) newParentIno newName rfl
      refine ⟨?_, ?_, removes.sequence, removes.numbered⟩
      · intro other label elsewhere
        rw [child_removed, if_neg elsewhere]
      · intro other different
        apply removes.nodes
        rintro rfl
        exact different here

theorem moveDentry_moves {before : Volume} (found : volume.child oldParentIno oldName = some ino)
    (moved : volume.moveDentry newParentIno newName oldParentIno oldName = .ok volume')
    (children : ∀ other label, ¬(other = newParentIno ∧ label = newName) → volume.child other label = before.child other label)
    (other : Int) (label : Text) : volume'.child other label =
      if other = newParentIno ∧ label = newName then some ino
      else if other = oldParentIno ∧ label = oldName then none else before.child other label := by
  obtain ⟨dentry, feed, updated, rfl⟩ := moveDentry_ok volume moved
  rw [child, Option.map_eq_some_iff] at found
  obtain ⟨row, found, rfl⟩ := found
  have key : DentryRow.key { row with parentIno := newParentIno, name := newName } = (newParentIno, newName) := rfl
  have rows := volume.dentry.find?_moved found key updated (other, label)
  rw [child, dentry?, rows]
  by_cases here : other = newParentIno ∧ label = newName
  · rw [if_pos here, if_pos (by rw [here.1, here.2])]
    rfl
  · rw [if_neg here, if_neg (by rw [Prod.mk.injEq]; exact here), ← children other label here, child, dentry?]
    by_cases left : other = oldParentIno ∧ label = oldName
    · rw [if_pos left, if_pos (by rw [left.1, left.2])]
      rfl
    · rw [if_neg left, if_neg (by rw [Prod.mk.injEq]; exact left)]

theorem sameNode_feed (volume : Volume) (feed : Feed) (dentry : DentryTable) (ino : Int) :
    SameNode ino volume { volume with dentry, feed } := ⟨rfl, rfl, rfl⟩

/-- At most the times of some inodes differ. -/
structure Retimes (before after : Volume) : Prop where
  dentry : after.dentry = before.dentry
  sequence : after.inodeSequence = before.inodeSequence
  nodes : ∀ ino, SameNode ino before after

theorem Retimes.trans {before middle after : Volume} (first : Retimes before middle) (second : Retimes middle after) :
    Retimes before after :=
  ⟨second.dentry.trans first.dentry, second.sequence.trans first.sequence, fun ino => (first.nodes ino).trans (second.nodes ino)⟩

theorem retimes_updateInode (volume : Volume) (ino : Int) (change : InodeRow → InodeRow)
    (timeless : ∀ row, (change row).timeless = row.timeless) : Retimes volume (volume.updateInode ino change) :=
  ⟨rfl, rfl, fun other => sameNode_updateInode volume ino other change timeless⟩

theorem retimes_modifyInode (volume : Volume) (ino : Int) (change : InodeRow → InodeRow)
    (timeless : ∀ row, (change row).timeless = row.timeless) : Retimes volume (volume.modifyInode ino change) :=
  ⟨modifyInode_dentry _ _ _, modifyInode_sequence _ _ _, fun other => sameNode_modifyInode volume ino other change timeless⟩

/-- A move within cleared tables, with the times set after it. -/
theorem moved {middle moved : Volume} (clears : Clears newParentIno newName volume middle)
    (found : volume.child oldParentIno oldName = some ino) (apart : ¬(oldParentIno = newParentIno ∧ oldName = newName))
    (parent : resolveParent volume newPath = some (newParentIno, newName))
    (ran : middle.moveDentry newParentIno newName oldParentIno oldName = .ok moved) (retimes : Retimes moved volume') :
    Moves oldParentIno oldName newParentIno newName ino volume volume' := by
  have still : middle.child oldParentIno oldName = some ino := by
    rw [clears.children _ _ apart]
    exact found
  have children := child_congr retimes.dentry
  obtain ⟨table, feed, updated, spelled⟩ := moveDentry_ok middle ran
  have stayed : ∀ other, SameNode other middle moved := by
    intro other
    rw [spelled]
    exact sameNode_feed middle feed table other
  have kept : moved.inodeSequence = middle.inodeSequence := by rw [spelled]
  refine ⟨?_, ?_, retimes.sequence.trans (kept.trans clears.sequence), ?_⟩
  · intro other label
    rw [children]
    exact moveDentry_moves still ran clears.children other label
  · exact fun other different => (clears.nodes other different).trans ((stayed other).trans (retimes.nodes other))
  · intro rooted numbered
    have within := clears.numbered numbered
    refine within.of_fewer ((NoNewNodes.of_same stayed).trans (.of_same retimes.nodes)) (retimes.sequence.trans kept) ?_
    obtain ⟨parts, _, walked⟩ := resolveParent_eq_some.mp parent
    have target := numbered.walk_le rooted walked
    rw [← clears.sequence] at target
    intro entry member
    rw [retimes.dentry, spelled] at member
    rw [middle.dentry.update?_eq_some_iff.mp updated] at member
    obtain ⟨row, listed, rfl⟩ := List.mem_map.mp member
    have bounds := within.entries row listed
    split
    · exact ⟨bounds.1, target⟩
    · exact bounds

theorem rename_moves (renamed : rename volume oldPath newPath = .ok volume')
    (source : resolveParent volume oldPath = some (oldParentIno, oldName))
    (target : resolveParent volume newPath = some (newParentIno, newName))
    (apart : ¬(oldParentIno = newParentIno ∧ oldName = newName)) :
    ∃ ino, volume.child oldParentIno oldName = some ino ∧ volume.inode? ino ≠ none ∧
      Moves oldParentIno oldName newParentIno newName ino volume volume' := by
  unfold rename at renamed
  dsimp only at renamed
  split at renamed
  · rename_i same
    rw [← resolveParent_normalizePath, same, resolveParent_normalizePath, target, Option.some.injEq, Prod.mk.injEq] at source
    exact absurd ⟨source.1.symm, source.2.symm⟩ apart
  · obtain ⟨_, _, renamed⟩ := bind_eq_ok.mp renamed
    obtain ⟨old, oldParent, renamed⟩ := bind_eq_ok.mp renamed
    obtain ⟨new, newParent, renamed⟩ := bind_eq_ok.mp renamed
    rw [required_eq_ok, resolveParent_normalizePath, source, Option.some.injEq] at oldParent
    rw [required_eq_ok, resolveParent_normalizePath, target, Option.some.injEq] at newParent
    rw [← oldParent, ← newParent] at renamed
    obtain ⟨⟨_, ino⟩, resolved, renamed⟩ := bind_eq_ok.mp renamed
    obtain ⟨mode, known, renamed⟩ := bind_eq_ok.mp renamed
    obtain ⟨_, _, renamed⟩ := bind_eq_ok.mp renamed
    obtain ⟨middle, cleared, renamed⟩ := bind_eq_ok.mp renamed
    obtain ⟨moved, ran, renamed⟩ := bind_eq_ok.mp renamed
    have here := (resolvePathOrThrow_ok resolved).2
    rw [resolvePath_normalizePath, resolvePath_of_parent source] at here
    rw [required_eq_ok, getInodeMode, Option.map_eq_some_iff] at known
    obtain ⟨row, stored, _⟩ := known
    have retimes : Retimes moved volume' := by
      have first := (retimes_updateInode moved ino (fun row => { row with ctime := moved.now }) fun _ => rfl).trans
        (retimes_modifyInode _ oldParentIno (fun row => { row with mtime := moved.now, ctime := moved.now }) fun _ => rfl)
      split at renamed
      · rw [← pure_eq_ok.mp renamed]
        exact first.trans (retimes_modifyInode _ newParentIno _ fun _ => rfl)
      · rw [← pure_eq_ok.mp renamed]
        exact first
    refine ⟨ino, here, by rw [stored]; simp, ?_⟩
    exact AgentFS.moved (clearDestination_clears (by rw [resolveParent_normalizePath]; exact target) cleared) here apart target ran
      retimes

/-- A rename to a free name, not into what is renamed, succeeds. -/
theorem rename_returns (source : resolveParent volume oldPath = some (oldParentIno, oldName))
    (target : resolveParent volume newPath = some (newParentIno, newName))
    (found : volume.child oldParentIno oldName = some ino) (stored : volume.inode? ino ≠ none)
    (free : volume.child newParentIno newName = none)
    (outside : (normalizePath oldPath ++ ['/']).isPrefixOf (normalizePath newPath) = false) :
    ∃ volume', rename volume oldPath newPath = .ok volume' := by
  have rootless : ∀ {path : Text} {key : Int × Text}, resolveParent volume path = some key → normalizePath path ≠ ['/'] := by
    intro path key parent root
    obtain ⟨parts, spelled, _⟩ := resolveParent_eq_some.mp parent
    rw [← fields_normalizePath, root, fields_cons_sep, fields_nil] at spelled
    simp at spelled
  obtain ⟨row, known⟩ := Option.ne_none_iff_exists'.mp stored
  have here : resolvePath volume (normalizePath oldPath) = some ino := by
    rw [resolvePath_normalizePath, resolvePath_of_parent source]
    exact found
  have absent : resolvePath volume (normalizePath newPath) = none := by
    rw [resolvePath_normalizePath, resolvePath_of_parent target]
    exact free
  have entry := found
  rw [child, Option.map_eq_some_iff] at entry
  obtain ⟨old, listed, _⟩ := entry
  have free : volume.dentry.find? (newParentIno, newName) = none := Option.map_eq_none_iff.mp free
  have moved : ∀ entry ∈ volume.dentry.rows, entry.key = (oldParentIno, oldName) →
      DentryRow.key { entry with parentIno := newParentIno, name := newName } = (newParentIno, newName) := fun _ _ _ => rfl
  obtain ⟨dentry, updated⟩ := volume.dentry.update?_of_absent moved free
  have ran : ∃ middle, volume.moveDentry newParentIno newName oldParentIno oldName = .ok middle := by
    unfold moveDentry
    rw [listed]
    dsimp only
    rw [updated]
    exact ⟨_, rfl⟩
  obtain ⟨middle, ran⟩ := ran
  unfold rename
  dsimp only
  split
  · exact ⟨_, rfl⟩
  · rw [refuse_of_not (by rintro (root | root); exacts [rootless source root, rootless target root]),
      resolveParent_normalizePath, source, resolveParent_normalizePath, target, resolvePathOrThrow_of_resolved here]
    simp only [required, bind, Except.bind, getInodeMode, known, Option.map_some]
    rw [refuse_of_not (by rw [outside]; simp)]
    unfold clearDestination
    rw [absent]
    simp only [pure, Except.pure]
    rw [ran]
    dsimp only
    split
    · exact ⟨_, rfl⟩
    · exact ⟨_, rfl⟩

end AgentFS

end AiryFS
