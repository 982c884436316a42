import AiryFS.Namespace.Tree

/-! Each step of a remote compound operation keeps the tree, and moves a directory's count
exactly as it moves the directories inside it.

A rename takes two such steps, clearing the destination and moving the source.
-/

set_option autoImplicit false

namespace AiryFS

open Foundation Relation

namespace Volume

variable {volume volume' volume'' : Volume}

/-- What a step keeps: the tree, the entry of every directory but those it loses, and for a
directory that stays one, its count beyond the directories inside it. -/
structure Keeps (lost : Int → Prop) (volume volume' : Volume) : Prop where
  tree : volume'.Tree
  attached : ∀ ino, volume'.Detached ino → volume.Detached ino ∨ lost ino
  surplus : ∀ ino, volume.ledger.directory ino = true → volume'.ledger.directory ino = true → ¬lost ino →
    volume'.ledger.nlink ino - volume'.childDirectories ino = volume.ledger.nlink ino - volume.childDirectories ino

theorem Keeps.refl (tree : volume.Tree) (lost : Int → Prop) : Keeps lost volume volume :=
  ⟨tree, fun _ detached => .inl detached, fun _ _ _ _ => rfl⟩

/-- A second step that loses nothing and turns nothing into a directory. -/
theorem Keeps.trans {lost : Int → Prop} (first : Keeps lost volume volume')
    (second : Keeps (fun _ => False) volume' volume'')
    (older : ∀ ino, volume''.ledger.directory ino = true → volume'.ledger.directory ino = true) :
    Keeps lost volume volume'' := by
  refine ⟨second.tree, ?_, ?_⟩
  · intro ino detached
    rcases second.attached ino detached with before | never
    · exact first.attached ino before
    · exact absurd never not_false
  · intro ino before after kept
    rw [second.surplus ino (older ino after) after not_false, first.surplus ino before (older ino after) kept]

/-! ## One more entry -/

section Append

variable {entry : DentryRow} (entries : volume'.dentry.rows = volume.dentry.rows ++ [entry])
include entries

theorem links_append (ino : Int) : volume'.links ino = volume.links ino + if entry.ino = ino then 1 else 0 := by
  rw [links, links, Table.count, Table.count, entries, List.countP_append, List.countP_singleton]
  simp

theorem climbs_append (child parent : Int) (climb : volume'.Climbs child parent) :
    volume.Climbs child parent ∨ (child = entry.ino ∧ parent = entry.parentIno) := by
  obtain ⟨other, member, left, right⟩ := climbs_iff.mp climb
  rw [entries] at member
  rcases List.mem_append.mp member with old | new
  · exact .inl (climbs_iff.mpr ⟨other, old, left, right⟩)
  · rw [List.mem_singleton.mp new] at left right
    exact .inr ⟨left.symm, right.symm⟩

/-- The old entries lead to what they led to. -/
theorem childDirectories_append (same : ∀ other ∈ volume.dentry.rows,
      volume'.ledger.directory other.ino = volume.ledger.directory other.ino) (ino : Int) :
    volume'.childDirectories ino = volume.childDirectories ino +
      if entry.parentIno = ino ∧ volume'.ledger.directory entry.ino = true then 1 else 0 := by
  rw [childDirectories, childDirectories, Table.count, Table.count, entries, List.countP_append,
    List.countP_singleton]
  congr 1
  · apply List.countP_congr
    intro other member
    rw [same other member]
  · simp

end Append

end Volume

namespace Remote

variable {volume volume' : Volume}

theorem parent_directory {ino : Int} (parent : directoryMode (inodeMode volume ino) = true) :
    volume.ledger.directory ino = true := by
  obtain ⟨row, stored, directory⟩ := directoryMode_some parent
  rw [Volume.directory_iff stored]
  exact directory

/-! ## Creating -/

/-- A made node that says it is a directory is not counted in its parent. -/
def CreateNode.MakesDirectoryNode (call : CreateNode) : Prop := call.kind = .mknod ∧ isDirectory call.mode = true

instance : DecidablePred CreateNode.MakesDirectoryNode := fun call =>
  inferInstanceAs (Decidable (call.kind = .mknod ∧ isDirectory call.mode = true))

/-- A new directory counts two links, anything else one. -/
theorem CreateNode.row_node {call : CreateNode} (plain : ¬call.MakesDirectoryNode) :
    call.row.node = if call.kind = .mkdir then ⟨true, 2⟩ else ⟨false, 1⟩ := by
  unfold CreateNode.row
  split
  · rename_i made
    simp [made, newRow, InodeRow.node]
  · rename_i made
    have file : isDirectory call.mode = false := by
      by_contra directory
      exact plain ⟨made, by simpa using directory⟩
    simp [made, newRow, InodeRow.node, file]
  · rename_i made
    simp [made, newRow, InodeRow.node]

theorem CreateNode.Creates.keeps {call : CreateNode} {ino : Int} (creates : call.Creates volume ino volume')
    (plain : ¬call.MakesDirectoryNode) (tree : volume.Tree) :
    Volume.Keeps (fun _ => False) volume volume' := by
  have unused := tree.tidy.unused creates.number
  have notDirectory : volume.ledger.directory ino = false := Ledger.directory_of_account unused
  have unlinked : volume.links ino = 0 := congrArg Account.links unused
  have parentDirectory := parent_directory creates.parent
  have parentApart : call.parentIno ≠ ino := by
    intro same
    rw [same, notDirectory] at parentDirectory
    cases parentDirectory
  -- The ledger before the parent is counted.
  have allocated : (volume.ledger.allocate ino ⟨some call.row.node, volume.links ino + 1⟩).Tidy := by
    refine tree.tidy.allocate creates.number ?_ ?_
    · intro node _ _
      rw [unlinked]
    · intro node same file
      rw [← Option.some.inj same, call.row_node plain] at file ⊢
      rw [unlinked]
      split at file
      · cases file
      · rename_i other
        rw [if_neg other]
        rfl
  have parentStill : (volume.ledger.allocate ino ⟨some call.row.node, volume.links ino + 1⟩).directory call.parentIno =
      true := by
    rw [Ledger.directory_congr (Ledger.allocate_other _ parentApart _)]
    exact parentDirectory
  have directory : ∀ other, volume'.ledger.directory other =
      if other = ino then decide (call.kind = .mkdir) else volume.ledger.directory other := by
    intro other
    have counted : volume'.ledger.directory other =
        (volume.ledger.allocate ino ⟨some call.row.node, volume.links ino + 1⟩).directory other := by
      rw [creates.ledger, CreateNode.countParent]
      split
      · rw [Ledger.directory_recount]
      · rfl
    rw [counted]
    split
    · rename_i same
      rw [same, Ledger.directory_of_account (Ledger.allocate_same _ ino _), Option.any_some, call.row_node plain]
      split
      · rename_i kind
        simp [kind]
      · rename_i kind
        simp [kind]
    · rename_i different
      exact Ledger.directory_congr (Ledger.allocate_other _ different _)
  have same : ∀ other ∈ volume.dentry.rows,
      volume'.ledger.directory other.ino = volume.ledger.directory other.ino := by
    intro other member
    rw [directory, if_neg]
    intro named
    have linked := volume.links_pos_iff.mpr ⟨other, member, named⟩
    omega
  refine ⟨⟨?_, ?_, ?_⟩, ?_, ?_⟩
  · rw [creates.ledger, CreateNode.countParent]
    split
    · exact allocated.recount parentStill _
    · exact allocated
  · intro entry member
    have older : ∀ parent, volume.ledger.directory parent = true → volume'.ledger.directory parent = true := by
      intro parent kind
      rw [directory, if_neg]
      · exact kind
      · intro same
        rw [same, notDirectory] at kind
        cases kind
    rw [creates.entries] at member
    rcases List.mem_append.mp member with old | new
    · exact older _ (tree.parents entry old)
    · rw [List.mem_singleton.mp new]
      exact older _ parentDirectory
  · refine tree.acyclic.insert ?_ (Volume.climbs_append creates.entries)
    exact tree.not_reaches_file notDirectory parentApart
  · intro other detached
    obtain ⟨kind, apart, loose⟩ := detached
    rw [Volume.links_append creates.entries] at loose
    have different : other ≠ ino := by
      intro named
      rw [if_pos named.symm] at loose
      omega
    rw [directory, if_neg different] at kind
    exact .inl ⟨kind, apart, by omega⟩
  · intro other before after _
    have different : other ≠ ino := by
      intro named
      rw [named, notDirectory] at before
      cases before
    rw [Volume.childDirectories_append creates.entries same, directory ino, if_pos rfl, creates.ledger,
      CreateNode.countParent]
    have kept := Ledger.allocate_other volume.ledger different ⟨some call.row.node, volume.links ino + 1⟩
    by_cases kind : call.kind = .mkdir
    · rw [if_pos kind, Ledger.nlink_recount]
      · rw [Ledger.nlink_congr kept]
        by_cases parent : other = call.parentIno
        · simp [parent, kind]
        · simp [parent, Ne.symm parent]
      · rw [kept]
        exact Ledger.stored_of_directory before
    · rw [if_neg kind, Ledger.nlink_congr kept]
      simp [kind]

/-! ## Linking -/

theorem Link.Links.keeps {call : Link} {source : InodeRow} (links : call.Links volume source volume')
    (tree : volume.Tree) : Volume.Keeps (fun _ => False) volume volume' := by
  have known : (volume.ledger.account call.sourceIno).node = some ⟨false, source.nlink⟩ := by
    rw [Volume.ledger_account_node, links.stored, Option.map_some, InodeRow.node, links.file]
  have file : volume.ledger.directory call.sourceIno = false := by
    rw [Volume.directory_iff links.stored]
    exact links.file
  have parentDirectory := parent_directory links.parent
  have parentApart : call.parentIno ≠ call.sourceIno := by
    intro same
    rw [same, file] at parentDirectory
    cases parentDirectory
  have rootApart : call.sourceIno ≠ ROOT_INO := by
    intro same
    have root := tree.tidy.root
    rw [← same, file] at root
    cases root
  have directory : ∀ other, volume'.ledger.directory other = volume.ledger.directory other := by
    intro other
    rw [links.ledger]
    by_cases same : other = call.sourceIno
    · rw [same, file, Ledger.directory_of_account (Ledger.set_same _ _ _)]
      rfl
    · exact Ledger.directory_congr (Ledger.set_other _ same _)
  refine ⟨⟨?_, ?_, ?_⟩, ?_, ?_⟩
  · rw [links.ledger]
    refine tree.tidy.set rootApart ?_ ?_ (tree.tidy.numbered _ (.inl (by rw [known]; simp)))
    · intro node same kind
      rw [← Option.some.inj same] at kind
      cases kind
    · intro node same _
      rw [← Option.some.inj same]
      have counted := tree.tidy.counted call.sourceIno _ known rfl
      rw [Volume.ledger_account_links] at counted
      simp only at counted ⊢
      omega
  · intro entry member
    rw [directory]
    rw [links.entries] at member
    rcases List.mem_append.mp member with old | new
    · exact tree.parents entry old
    · rw [List.mem_singleton.mp new]
      exact parentDirectory
  · refine tree.acyclic.insert ?_ (Volume.climbs_append links.entries)
    exact tree.not_reaches_file file parentApart
  · intro other detached
    obtain ⟨kind, apart, loose⟩ := detached
    rw [Volume.links_append links.entries] at loose
    rw [directory] at kind
    exact .inl ⟨kind, apart, by omega⟩
  · intro other before _ _
    have different : other ≠ call.sourceIno := by
      intro same
      rw [same, file] at before
      cases before
    rw [Volume.childDirectories_append links.entries (fun entry _ => directory entry.ino), directory, file,
      links.ledger, Ledger.nlink_congr (Ledger.set_other _ different _)]
    simp

/-! ## Clearing the destination of a rename -/

/-- The directory that a rename finds at its destination under a live lease. -/
def Rename.Loses (call : Rename) (volume : Volume) (ino : Int) : Prop :=
  ∃ destination ∈ joined volume call.newParentIno call.newName, destination.ino = ino ∧
    isDirectory destination.mode = true ∧ volume.leased ino call.nowSecs = true

theorem links_erase {parentIno : Int} {name : Text} {entry : DentryRow}
    (placed : volume.dentry? parentIno name = some entry)
    (entries : volume'.dentry = volume.dentry.erase (parentIno, name)) (ino : Int) :
    volume.links ino = volume'.links ino + if entry.ino = ino then 1 else 0 := by
  rw [Volume.links, Volume.links, entries]
  simpa using volume.dentry.count_erase placed fun other => other.ino = ino

theorem Rename.remains_directory (call : Rename) (volume : Volume) (destination : InodeRow) :
    (call.remains volume destination).any (·.directory) =
      (isDirectory destination.mode && volume.leased destination.ino call.nowSecs) := by
  unfold Rename.remains
  cases isDirectory destination.mode with
  | true =>
    simp only [if_true, true_and]
    cases volume.leased destination.ino call.nowSecs <;> rfl
  | false =>
    simp only [Bool.false_eq_true, if_false]
    split <;> rfl

theorem Rename.remains_some {call : Rename} {destination : InodeRow} {node : Node}
    (remains : call.remains volume destination = some node) :
    node = ⟨isDirectory destination.mode, if isDirectory destination.mode then 0 else destination.nlink - 1⟩ := by
  unfold Rename.remains at remains
  dsimp only at remains
  generalize (if isDirectory destination.mode then 0 else destination.nlink - 1) = nlink at remains ⊢
  split at remains
  · cases remains
  · exact (Option.some.inj remains).symm

/-- Clearing changes what is a directory at the destination only. -/
theorem Rename.clear_directory {call : Rename} {destination : InodeRow}
    (found : joined volume call.newParentIno call.newName = some destination)
    (childless : isDirectory destination.mode = true → volume.hasChildren destination.ino = false) (other : Int) :
    (call.replace volume destination).ledger.directory other =
      if other = destination.ino then isDirectory destination.mode && volume.leased destination.ino call.nowSecs
      else volume.ledger.directory other := by
  have recounted : (call.replace volume destination).ledger.directory other = (volume.ledger.set destination.ino
      ⟨call.remains volume destination, volume.links destination.ino - 1⟩).directory other := by
    rw [Rename.replace_ledger found childless, Rename.uncountParent]
    split
    · rw [Ledger.directory_recount]
    · rfl
  rw [recounted]
  split
  · rename_i same
    rw [same, Ledger.directory_of_account (Ledger.set_same _ _ _)]
    exact call.remains_directory volume destination
  · rename_i different
    exact Ledger.directory_congr (Ledger.set_other _ different _)

theorem Rename.clear_climbs {call : Rename} {destination : InodeRow} (child parent : Int)
    (climb : (call.replace volume destination).Climbs child parent) : volume.Climbs child parent := by
  obtain ⟨other, member, left, right⟩ := Volume.climbs_iff.mp climb
  rw [call.replace_dentry] at member
  exact Volume.climbs_iff.mpr ⟨other, ((volume.dentry.mem_erase).mp member).1, left, right⟩

theorem Rename.clear_keeps {call : Rename} {destination : InodeRow} (tree : volume.Tree)
    (newParent : volume.ledger.directory call.newParentIno = true)
    (found : joined volume call.newParentIno call.newName = some destination)
    (childless : isDirectory destination.mode = true → volume.hasChildren destination.ino = false) :
    Volume.Keeps (call.Loses volume) volume (call.replace volume destination) := by
  obtain ⟨entry, placed, numbered, stored⟩ := joined_some found
  have entries := call.replace_dentry volume destination
  have ledger := Rename.replace_ledger found childless
  have directory := Rename.clear_directory found childless
  have climbs := @Rename.clear_climbs volume call destination
  generalize call.replace volume destination = cleared at entries ledger directory climbs ⊢
  have links := fun ino => links_erase placed entries ino
  have kind : volume.ledger.directory destination.ino = isDirectory destination.mode := Volume.directory_iff stored
  have linked : 0 < volume.links destination.ino := by
    have := links destination.ino
    rw [if_pos numbered] at this
    omega
  have rootApart : destination.ino ≠ ROOT_INO := by
    intro same
    have top : volume.links ROOT_INO = 0 := tree.tidy.top
    rw [same] at linked
    omega
  have tidy : (volume.ledger.set destination.ino
      ⟨call.remains volume destination, volume.links destination.ino - 1⟩).Tidy := by
    refine tree.tidy.set rootApart ?_ ?_ (tree.tidy.numbered _ (.inr linked))
    · intro node same directory
      have row := Rename.remains_some same
      rw [row] at directory
      have one := tree.tidy.single destination.ino (by rw [kind]; exact directory)
      rw [Volume.ledger_account_links] at one
      simp only
      omega
    · intro node same file
      have known : (volume.ledger.account destination.ino).node = some destination.node := by
        rw [Volume.ledger_account_node, stored, Option.map_some]
      have row := Rename.remains_some same
      rw [row] at file ⊢
      simp only at file
      have counted := tree.tidy.counted destination.ino _ known (by rw [InodeRow.node, file])
      rw [Volume.ledger_account_links] at counted
      simp only [InodeRow.node] at counted
      simp only [file, Bool.false_eq_true, if_false]
      omega
  have parentKind : isDirectory destination.mode = true → (volume.ledger.set destination.ino
      ⟨call.remains volume destination, volume.links destination.ino - 1⟩).directory call.newParentIno = true := by
    intro directory
    rw [Ledger.directory_congr (Ledger.set_other _ (parent_ne_childless found (childless directory)) _)]
    exact newParent
  have older : ∀ other ∈ cleared.dentry.rows, other ∈ volume.dentry.rows := by
    intro other member
    rw [entries] at member
    exact ((volume.dentry.mem_erase).mp member).1
  have same : ∀ other ∈ cleared.dentry.rows,
      cleared.ledger.directory other.ino = volume.ledger.directory other.ino := by
    intro other member
    rw [directory]
    split
    · rename_i named
      -- A second entry of the destination means that it is no directory.
      have file : isDirectory destination.mode = false := by
        by_contra typed
        rw [Bool.not_eq_false] at typed
        have one := tree.tidy.single destination.ino (by rw [kind]; exact typed)
        rw [Volume.ledger_account_links, links, if_pos numbered] at one
        have more := cleared.links_pos_iff.mpr ⟨other, member, named⟩
        omega
      rw [named, kind, file]
      rfl
    · rfl
  refine ⟨⟨?_, ?_, ?_⟩, ?_, ?_⟩
  · rw [ledger, Rename.uncountParent]
    split
    · rename_i typed
      exact tidy.recount (parentKind typed) _
    · exact tidy
  · intro other member
    have parent := tree.parents other (older other member)
    rw [directory, if_neg]
    · exact parent
    · intro named
      rw [named, kind] at parent
      have empty := childless parent
      rw [Volume.hasChildren, List.any_eq_false] at empty
      exact empty other (older other member) (by simpa using named)
  · exact tree.acyclic.mono climbs
  · intro other detached
    obtain ⟨typed, apart, loose⟩ := detached
    rw [directory] at typed
    split at typed
    · rename_i named
      rw [Bool.and_eq_true] at typed
      exact .inr ⟨destination, found, named.symm, typed.1, by rw [named]; exact typed.2⟩
    · rename_i different
      have count := links other
      rw [if_neg (by rw [numbered]; exact Ne.symm different)] at count
      exact .inl ⟨typed, apart, by omega⟩
  · intro other before after kept
    have different : other ≠ destination.ino := by
      intro named
      rw [directory, if_pos named, Bool.and_eq_true] at after
      exact kept ⟨destination, found, named.symm, after.1, by rw [named]; exact after.2⟩
    have key := volume.dentry.find?_key placed
    rw [DentryRow.key, Prod.mk.injEq] at key
    have children : volume.childDirectories other = cleared.childDirectories other +
        if call.newParentIno = other ∧ isDirectory destination.mode = true then 1 else 0 := by
      rw [Volume.childDirectories, volume.dentry.count_erase placed, Volume.childDirectories, ← entries]
      congr 1
      · apply List.countP_congr
        intro child member
        rw [same child member]
      · simp [key.1, numbered, kind]
    rw [children, ledger, Rename.uncountParent]
    cases typed : isDirectory destination.mode with
    | true =>
      rw [if_pos rfl, Ledger.nlink_recount, Ledger.nlink_congr (Ledger.set_other _ different _)]
      · by_cases parent : other = call.newParentIno
        · simp [parent]
          omega
        · simp [parent, Ne.symm parent]
      · rw [Ledger.set_other _ different]
        exact Ledger.stored_of_directory before
    | false =>
      simp only [Bool.false_eq_true, if_false, and_false]
      rw [Ledger.nlink_congr (Ledger.set_other _ different _)]
      simp

/-! ## Moving the source of a rename -/

/-- Where a moved entry goes in a tree that does not already reach back to it. -/
theorem Rename.move_keeps {call : Rename} {source : InodeRow} {entry : DentryRow} (tree : volume.Tree)
    (placed : volume.dentry? call.oldParentIno call.oldName = some entry) (numbered : entry.ino = source.ino)
    (kind : volume.ledger.directory source.ino = isDirectory source.mode)
    (oldParent : volume.ledger.directory call.oldParentIno = true)
    (newParent : volume.ledger.directory call.newParentIno = true)
    (outside : ¬ReflTransGen volume.Climbs call.newParentIno source.ino)
    (entries : volume.dentry.update? (fun entry => entry.key = (call.oldParentIno, call.oldName))
      (fun entry => { entry with parentIno := call.newParentIno, name := call.newName }) = some volume'.dentry)
    (ledger : volume'.ledger = call.countParents source volume.ledger) :
    Volume.Keeps (fun _ => False) volume volume' ∧
      ∀ ino, volume'.ledger.directory ino = volume.ledger.directory ino := by
  have directory : ∀ ino, volume'.ledger.directory ino = volume.ledger.directory ino := by
    intro ino
    rw [ledger, Rename.countParents]
    split
    · rw [Ledger.directory_recount, Ledger.directory_recount]
    · rfl
  -- Every entry of the result is an old one, or the moved one.
  have rows : ∀ other ∈ volume'.dentry.rows, other ∈ volume.dentry.rows ∨
      (other.ino = source.ino ∧ other.parentIno = call.newParentIno) := by
    intro other member
    rw [volume.dentry.update?_eq_some_iff.mp entries] at member
    obtain ⟨old, old_mem, rfl⟩ := List.mem_map.mp member
    split
    · rename_i chosen
      have same : old = entry := by
        refine volume.dentry.eq_of_key old_mem (volume.dentry.find?_mem placed) ?_
        rw [volume.dentry.find?_key placed]
        simpa using chosen
      right
      rw [same]
      exact ⟨numbered, rfl⟩
    · exact .inl old_mem
  refine ⟨⟨⟨?_, ?_, ?_⟩, ?_, ?_⟩, directory⟩
  · rw [ledger, Rename.countParents]
    split
    · refine (tree.tidy.recount oldParent _).recount ?_ _
      rw [Ledger.directory_recount]
      exact newParent
    · exact tree.tidy
  · intro other member
    rw [directory]
    rcases rows other member with old | ⟨_, moved⟩
    · exact tree.parents other old
    · rw [moved]
      exact newParent
  · refine tree.acyclic.insert outside ?_
    intro child parent climb
    obtain ⟨other, member, left, right⟩ := Volume.climbs_iff.mp climb
    rcases rows other member with old | ⟨moved, placed⟩
    · exact .inl (Volume.climbs_iff.mpr ⟨other, old, left, right⟩)
    · exact .inr ⟨left.symm.trans moved, right.symm.trans placed⟩
  · intro ino detached
    obtain ⟨typed, apart, loose⟩ := detached
    rw [directory] at typed
    rw [Volume.links, volume.dentry.count_update entries fun _ => rfl] at loose
    exact .inl ⟨typed, apart, loose⟩
  · intro ino before _ _
    have key := volume.dentry.find?_key placed
    rw [DentryRow.key, Prod.mk.injEq] at key
    have children : volume'.childDirectories ino =
        (volume.dentry.erase (call.oldParentIno, call.oldName)).count
          (fun other => other.parentIno = ino && volume.ledger.directory other.ino) +
        if call.newParentIno = ino ∧ isDirectory source.mode = true then 1 else 0 := by
      rw [Volume.childDirectories, volume.dentry.count_moved placed entries]
      simp [directory, numbered, kind]
    have earlier : volume.childDirectories ino =
        (volume.dentry.erase (call.oldParentIno, call.oldName)).count
          (fun other => other.parentIno = ino && volume.ledger.directory other.ino) +
        if call.oldParentIno = ino ∧ isDirectory source.mode = true then 1 else 0 := by
      rw [Volume.childDirectories, volume.dentry.count_erase placed]
      simp [key.1, numbered, kind]
    rw [children, earlier, ledger, Rename.countParents]
    have stored := Ledger.stored_of_directory before
    cases typed : isDirectory source.mode with
    | false => simp
    | true =>
      by_cases crossing : call.oldParentIno = call.newParentIno
      · simp [crossing]
      · rw [if_pos ⟨rfl, crossing⟩, Ledger.nlink_recount, Ledger.nlink_recount]
        · by_cases new : ino = call.newParentIno
          · have old : ino ≠ call.oldParentIno := fun same => crossing (same.symm.trans new)
            simp [new, crossing, Ne.symm crossing]
          · by_cases old : ino = call.oldParentIno
            · simp [old, crossing, Ne.symm crossing]
              omega
            · simp [new, old, Ne.symm new, Ne.symm old]
        · exact stored
        · exact Ledger.stored_of_directory (by rw [Ledger.directory_recount]; exact before)

theorem Rename.Moves.keeps {call : Rename} {source : InodeRow} (moves : call.Moves volume source volume')
    (tree : volume.Tree) : Volume.Keeps (call.Loses volume) volume volume' := by
  obtain ⟨entry, placed, numbered, stored⟩ := joined_some moves.sourced
  have kind : volume.ledger.directory source.ino = isDirectory source.mode := Volume.directory_iff stored
  have oldParent := parent_directory moves.proceeds.oldParent
  have newParent := parent_directory moves.proceeds.newParent
  have outside : ¬ReflTransGen volume.Climbs call.newParentIno source.ino := by
    cases typed : isDirectory source.mode with
    | true =>
      intro path
      exact moves.proceeds.outside ⟨typed, (mem_closure_iff _).mpr path⟩
    | false =>
      rw [typed] at kind
      refine tree.not_reaches_file kind ?_
      intro same
      rw [same, kind] at newParent
      cases newParent
  have entries := moves.entries
  have ledger := moves.ledger
  unfold Rename.cleared at entries ledger
  cases found : joined volume call.newParentIno call.newName with
  | none =>
    rw [found] at entries ledger
    obtain ⟨kept, directory⟩ := Rename.move_keeps tree placed numbered kind oldParent newParent outside entries ledger
    refine (Volume.Keeps.refl tree _).trans kept ?_
    intro ino after
    rw [← directory]
    exact after
  | some destination =>
    rw [found] at entries ledger
    obtain ⟨different, allowed⟩ := moves.proceeds.destination destination found
    obtain ⟨kinds, childless⟩ := replacementStatus_none allowed
    have first := Rename.clear_keeps tree newParent found childless
    have directory := Rename.clear_directory found childless
    -- A parent is no childless directory, and no file.
    have parentApart : ∀ {parentIno : Int} {name : Text} {row : InodeRow}, joined volume parentIno name = some row →
        volume.ledger.directory parentIno = true → parentIno ≠ destination.ino := by
      intro parentIno name row child typed
      cases destinationKind : isDirectory destination.mode with
      | true => exact parent_ne_childless child (childless destinationKind)
      | false =>
        intro same
        obtain ⟨_, _, _, destinationStored⟩ := joined_some found
        rw [same, Volume.directory_iff destinationStored, destinationKind] at typed
        cases typed
    have second := @Rename.move_keeps (call.replace volume destination) volume' call source entry first.tree
      (by
        rw [Volume.dentry?, call.replace_dentry, Table.find?_erase, if_neg]
        · exact placed
        · rw [Prod.mk.injEq]
          exact moves.proceeds.elsewhere)
      numbered (by rw [directory, if_neg (Ne.symm different), kind])
      (by rw [directory, if_neg (parentApart moves.sourced oldParent)]; exact oldParent)
      (by rw [directory, if_neg (parentApart found newParent)]; exact newParent)
      (fun path => outside (ReflTransGen.mono Rename.clear_climbs _ _ path)) entries ledger
    refine first.trans second.1 ?_
    intro ino after
    rw [← second.2]
    exact after

/-- Once the call went through, nothing leads to the directory it loses. -/
theorem Rename.Moves.loses_links {call : Rename} {source : InodeRow} {ino : Int}
    (moves : call.Moves volume source volume') (tree : volume.Tree) (lost : call.Loses volume ino) :
    volume'.links ino = 0 := by
  obtain ⟨destination, found, same, directory, _⟩ := lost
  rw [Option.mem_def] at found
  obtain ⟨entry, placed, numbered, stored⟩ := joined_some found
  have single := tree.tidy.single ino (by rw [← same, Volume.directory_iff stored]; exact directory)
  rw [Volume.ledger_account_links] at single
  have cleared := links_erase placed (call.replace_dentry volume destination) ino
  rw [if_pos (numbered.trans same)] at cleared
  have entries := moves.entries
  rw [Rename.cleared, found] at entries
  have moved : volume'.links ino = (call.replace volume destination).links ino := by
    exact (call.replace volume destination).dentry.count_update entries fun _ => rfl
  omega

end Remote

end AiryFS
