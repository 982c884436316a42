import AiryFS.Snapshots.ViewTree

/-! The paths of a view are those that lead from the root through directories.

The walk enters a directory once. In a tree each directory is at one path, so nothing below
it is left out; the walk of a directory covers what lies below it and leaves the rest alone.
-/

set_option autoImplicit false

namespace AiryFS

open Foundation

/-- Every directory but the root has one entry at most, the root has none, and names can be told apart in a path. -/
structure Volume.Treelike (volume : Volume) : Prop where
  root : volume.directoryAt ROOT_INO = true
  top : ∀ entry ∈ volume.dentry.rows, entry.ino ≠ ROOT_INO
  single : ∀ first ∈ volume.dentry.rows, ∀ second ∈ volume.dentry.rows, volume.directoryAt first.ino = true →
    first.ino = second.ino → first = second
  names : ∀ entry ∈ volume.dentry.rows, entry.name ≠ [] ∧ '/' ∉ entry.name

namespace Volume

def kindAt (volume : Volume) (ino : Int) : EntryKind := (volume.inode? ino).elim .other fun row => kindOf row.mode

def entryAt (volume : Volume) (path : List Text) (ino : Int) : PathEntry := ⟨absolute '/' path, ino, volume.kindAt ino⟩

variable {volume : Volume} {path other : List Text} {name : Text} {ino number : Int}

theorem locate_single {parent : Int} (directory : volume.directoryAt parent = true) (located : volume.locate parent [name] = some ino) :
    ∃ entry ∈ volume.dentry.rows, entry.parentIno = parent ∧ entry.name = name ∧ entry.ino = ino := by
  rw [locate, if_pos directory] at located
  obtain ⟨entry, found, below⟩ := Option.bind_eq_some_iff.mp located
  have key := volume.dentry.find?_key found
  rw [DentryRow.key, Prod.mk.injEq] at key
  obtain ⟨_, _, same⟩ := Option.map_eq_some_iff.mp below
  exact ⟨entry, volume.dentry.find?_mem found, key.1, key.2, same⟩

theorem locate_parent (located : volume.locate ROOT_INO (path ++ [name]) = some ino) : ∃ parent,
    volume.locate ROOT_INO path = some parent ∧ volume.directoryAt parent = true ∧
      ∃ entry ∈ volume.dentry.rows, entry.parentIno = parent ∧ entry.name = name ∧ entry.ino = ino := by
  rw [locate_append] at located
  obtain ⟨parent, above, below⟩ := Option.bind_eq_some_iff.mp located
  have directory : volume.directoryAt parent = true := by
    unfold locate at below
    split at below
    · assumption
    · cases below
  exact ⟨parent, above, directory, locate_single directory below⟩

namespace Treelike

variable (treelike : volume.Treelike)
include treelike

theorem separable (located : volume.locate ROOT_INO path = some ino) : Separable '/' path := by
  induction path using List.reverseRecOn generalizing ino with
  | nil =>
    intro name member
    cases member
  | append_singleton path last ih =>
    obtain ⟨parent, above, _, entry, listed, _, rfl, _⟩ := locate_parent located
    intro name member
    rcases List.mem_append.mp member with before | own
    · exact ih above name before
    · rw [List.mem_singleton.mp own]
      exact treelike.names entry listed

theorem locate_root : volume.locate ROOT_INO [] = some ROOT_INO := by
  obtain ⟨row, stored, _⟩ := directoryAt_iff.mp treelike.root
  rw [locate, stored]
  rfl

/-- A directory is at one path. -/
theorem path_unique (first : volume.locate ROOT_INO path = some ino) (second : volume.locate ROOT_INO other = some ino)
    (directory : volume.directoryAt ino = true) : path = other := by
  have apart : ∀ {path : List Text} {name : Text}, volume.locate ROOT_INO (path ++ [name]) ≠ some ROOT_INO := by
    intro path name located
    obtain ⟨_, _, _, entry, listed, _, _, root⟩ := locate_parent located
    exact treelike.top entry listed root
  have top : ∀ {ino : Int}, volume.locate ROOT_INO [] = some ino → ino = ROOT_INO := by
    intro ino located
    rw [treelike.locate_root] at located
    exact (Option.some.inj located).symm
  induction path using List.reverseRecOn generalizing other ino with
  | nil =>
    rw [top first] at second
    rcases List.eq_nil_or_concat other with none | ⟨front, last, concat⟩
    · exact none.symm
    · rw [concat, List.concat_eq_append] at second
      exact absurd second apart
  | append_singleton path name ih =>
    rcases List.eq_nil_or_concat other with none | ⟨front, last, concat⟩
    · rw [none] at second
      rw [top second] at first
      exact absurd first apart
    · rw [concat, List.concat_eq_append] at second ⊢
      obtain ⟨parent, above, kind, entry, listed, parentIs, named, leads⟩ := locate_parent first
      obtain ⟨parent', above', _, entry', listed', parentIs', named', leads'⟩ := locate_parent second
      have same := treelike.single entry listed entry' listed' (by rw [leads]; exact directory) (leads.trans leads'.symm)
      rw [← same] at parentIs' named'
      rw [← parentIs', parentIs] at above'
      rw [ih above above' kind, ← named, named']

/-- A path to a directory is shorter than there are inodes. -/
theorem length_lt_inodes (located : volume.locate ROOT_INO path = some ino) (directory : volume.directoryAt ino = true) :
    path.length < volume.inode.rows.length := by
  have reached : ∀ count, ∃ middle, volume.locate ROOT_INO (path.take count) = some middle ∧ volume.directoryAt middle = true := by
    intro count
    rw [← List.take_append_drop count path, locate_append] at located
    obtain ⟨middle, above, below⟩ := Option.bind_eq_some_iff.mp located
    refine ⟨middle, above, ?_⟩
    cases rest : path.drop count with
    | nil =>
      rw [rest] at below
      obtain ⟨_, _, same⟩ := Option.map_eq_some_iff.mp below
      rw [same]
      exact directory
    | cons name rest' =>
      rw [rest] at below
      unfold locate at below
      split at below
      · assumption
      · cases below
  choose trail located' directories using reached
  -- The directories on the way differ.
  have distinct : ((List.range (path.length + 1)).map trail).Nodup := by
    refine List.Nodup.map_on ?_ List.nodup_range
    intro first left second right same
    have paths := treelike.path_unique (located' first) (by rw [same]; exact located' second) (directories first)
    have lengths := congrArg List.length paths
    rw [List.mem_range] at left right
    rw [List.length_take, List.length_take] at lengths
    omega
  have stored : (List.range (path.length + 1)).map trail ⊆ volume.inode.rows.map (·.ino) := by
    intro number member
    obtain ⟨count, _, rfl⟩ := List.mem_map.mp member
    obtain ⟨row, found⟩ := locate_stored (located' count)
    exact List.mem_map.mpr ⟨row, volume.inode.find?_mem found, volume.inode.find?_key found⟩
  have bound := (distinct.subperm stored).length_le
  rw [List.length_map, List.length_map, List.length_range] at bound
  exact bound

end Treelike

/-! ## What a walk adds -/

/-- The walk has listed what is inside, and entered the directories there. -/
structure Covers (volume : Volume) (inside : List Text → Prop) (before after : List PathEntry × List Int) : Prop where
  entries : ∀ entry, entry ∈ after.1 ↔ entry ∈ before.1 ∨
    ∃ path ino, inside path ∧ volume.locate ROOT_INO path = some ino ∧ entry = volume.entryAt path ino
  entered : ∀ ino, ino ∈ after.2 ↔ ino ∈ before.2 ∨
    ∃ path, inside path ∧ volume.locate ROOT_INO path = some ino ∧ volume.directoryAt ino = true

/-- The walk has not been inside. -/
def Clear (volume : Volume) (inside : List Text → Prop) (state : List PathEntry × List Int) : Prop :=
  ∀ path ino, inside path → volume.locate ROOT_INO path = some ino →
    (∀ entry ∈ state.1, entry.path ≠ absolute '/' path) ∧ (volume.directoryAt ino = true → ino ∉ state.2)

variable {inside inside' : List Text → Prop} {before middle after : List PathEntry × List Int}

theorem Covers.nothing (empty : ∀ path ino, inside path → volume.locate ROOT_INO path ≠ some ino) :
    volume.Covers inside before before where
  entries entry := by
    refine ⟨.inl, ?_⟩
    rintro (known | ⟨path, ino, within, located, _⟩)
    · exact known
    · exact absurd located (empty path ino within)
  entered ino := by
    refine ⟨.inl, ?_⟩
    rintro (known | ⟨path, within, located, _⟩)
    · exact known
    · exact absurd located (empty path ino within)

theorem Covers.trans (first : volume.Covers inside before middle) (second : volume.Covers inside' middle after) :
    volume.Covers (fun path => inside path ∨ inside' path) before after where
  entries entry := by
    rw [second.entries, first.entries]
    constructor
    · rintro ((known | ⟨path, ino, within, rest⟩) | ⟨path, ino, within, rest⟩)
      · exact .inl known
      · exact .inr ⟨path, ino, .inl within, rest⟩
      · exact .inr ⟨path, ino, .inr within, rest⟩
    · rintro (known | ⟨path, ino, within | within, rest⟩)
      · exact .inl (.inl known)
      · exact .inl (.inr ⟨path, ino, within, rest⟩)
      · exact .inr ⟨path, ino, within, rest⟩
  entered ino := by
    rw [second.entered, first.entered]
    constructor
    · rintro ((known | ⟨path, within, rest⟩) | ⟨path, within, rest⟩)
      · exact .inl known
      · exact .inr ⟨path, .inl within, rest⟩
      · exact .inr ⟨path, .inr within, rest⟩
    · rintro (known | ⟨path, within | within, rest⟩)
      · exact .inl (.inl known)
      · exact .inl (.inr ⟨path, within, rest⟩)
      · exact .inr ⟨path, within, rest⟩

theorem Covers.congr (covers : volume.Covers inside before after) (same : ∀ path, inside' path ↔ inside path) :
    volume.Covers inside' before after := by
  have equal : inside' = inside := funext fun path => propext (same path)
  rw [equal]
  exact covers

/-- Where nothing is, nothing has to be walked. -/
theorem Covers.widen (covers : volume.Covers inside before after) (wider : ∀ path, inside path → inside' path)
    (empty : ∀ path ino, inside' path → volume.locate ROOT_INO path = some ino → inside path) :
    volume.Covers inside' before after where
  entries entry := by
    rw [covers.entries]
    refine or_congr_right ?_
    constructor
    · rintro ⟨path, ino, within, rest⟩
      exact ⟨path, ino, wider path within, rest⟩
    · rintro ⟨path, ino, within, located, rest⟩
      exact ⟨path, ino, empty path ino within located, located, rest⟩
  entered ino := by
    rw [covers.entered]
    refine or_congr_right ?_
    constructor
    · rintro ⟨path, within, rest⟩
      exact ⟨path, wider path within, rest⟩
    · rintro ⟨path, within, located, rest⟩
      exact ⟨path, empty path ino within located, located, rest⟩

/-- Walking somewhere else leaves it clear. -/
theorem Clear.elsewhere (treelike : volume.Treelike) (clear : volume.Clear inside' before) (covers : volume.Covers inside before after)
    (apart : ∀ path, inside path → ¬inside' path) : volume.Clear inside' after := by
  intro path ino within located
  obtain ⟨unlisted, unentered⟩ := clear path ino within located
  constructor
  · intro entry member
    rcases (covers.entries entry).mp member with old | ⟨other, number, elsewhere, located', rfl⟩
    · exact unlisted entry old
    · intro same
      rw [absolute_injective (treelike.separable located') (treelike.separable located) same] at elsewhere
      exact apart path elsewhere within
  · intro directory member
    rcases (covers.entered ino).mp member with old | ⟨other, elsewhere, located', _⟩
    · exact unentered directory old
    · rw [treelike.path_unique located' located directory] at elsewhere
      exact apart path elsewhere within

end Volume

/-! ## The walk -/

namespace FsStateView

variable {volume : Volume} {path : List Text} {ino : Int}

theorem joinAbsolute_absolute (separable : Separable '/' path) (name : Text) :
    Archive.joinAbsolute (absolute '/' path) name = absolute '/' (path ++ [name]) := by
  unfold Archive.joinAbsolute
  cases path with
  | nil => simp [absolute]
  | cons first rest =>
    have below : absolute '/' (first :: rest) ≠ ['/'] := by
      intro root
      rcases absolute_eq_root_iff.mp root with none | blank
      · cases none
      · rw [List.cons.injEq] at blank
        exact (separable first List.mem_cons_self).1 blank.1
    rw [if_neg below, absolute_append (by simp) (by simp)]
    simp [absolute]

theorem visit_covers (treelike : volume.Treelike) {entry : DentryRow} {state : List PathEntry × List Int}
    {below : List PathEntry × List Int → Int → Text → List PathEntry × List Int}
    (located : volume.locate ROOT_INO path = some ino) (directory : volume.directoryAt ino = true)
    (listed : entry ∈ (live volume).sortedChildren ino)
    (clear : volume.Clear (fun other => ∃ rest, other = path ++ entry.name :: rest) state)
    (recursion : ∀ state, volume.locate ROOT_INO (path ++ [entry.name]) = some entry.ino → volume.directoryAt entry.ino = true →
      volume.Clear (fun other => ∃ label rest, other = path ++ entry.name :: label :: rest) state →
        volume.Covers (fun other => ∃ label rest, other = path ++ entry.name :: label :: rest) state
          (below state entry.ino (absolute '/' (path ++ [entry.name])))) :
    volume.Covers (fun other => ∃ rest, other = path ++ entry.name :: rest) state
      ((live volume).visit below (absolute '/' path) state entry) := by
  have child : ∀ rest, volume.locate ROOT_INO (path ++ entry.name :: rest) = volume.locate entry.ino rest := by
    intro rest
    rw [Volume.locate_child located directory, (mem_sortedChildren.mp listed).2, Option.bind_some]
  unfold visit
  rw [inodeMeta_live, joinAbsolute_absolute (treelike.separable located)]
  cases stored : volume.inode? entry.ino with
  | none =>
    apply Volume.Covers.nothing
    rintro other number ⟨rest, rfl⟩ found
    rw [child] at found
    cases rest with
    | nil =>
      rw [Volume.locate, stored] at found
      cases found
    | cons label rest =>
      rw [Volume.locate, Volume.directoryAt, stored] at found
      cases found
  | some row =>
    have here : volume.locate ROOT_INO (path ++ [entry.name]) = some entry.ino := by
      rw [child, Volume.locate, stored]
      rfl
    have kind : volume.kindAt entry.ino = kindOf row.mode := by
      rw [Volume.kindAt, stored]
      rfl
    obtain ⟨unlisted, unentered⟩ := clear _ _ ⟨[], rfl⟩ here
    have absent : (state.1.any fun known => known.path = absolute '/' (path ++ [entry.name])) = false := by
      rw [List.any_eq_false]
      intro known member
      simpa using unlisted known member
    dsimp only
    rw [if_neg (by rw [absent]; simp)]
    split
    · rename_i enters
      obtain ⟨isDirectory, _⟩ := enters
      have directory' : volume.directoryAt entry.ino = true := by
        rw [Volume.directoryAt_iff]
        refine ⟨row, stored, ?_⟩
        unfold kindOf at isDirectory
        split_ifs at isDirectory
        assumption
      -- First the directory itself, then what is below it.
      have own : volume.Covers (fun other => other = path ++ [entry.name]) state
          (state.1 ++ [⟨absolute '/' (path ++ [entry.name]), entry.ino, kindOf row.mode⟩], state.2 ++ [entry.ino]) := by
        constructor
        · intro known
          rw [List.mem_append, List.mem_singleton]
          refine or_congr_right ?_
          constructor
          · rintro rfl
            exact ⟨_, _, rfl, here, by rw [Volume.entryAt, kind]⟩
          · rintro ⟨_, number, rfl, found, rfl⟩
            rw [here, Option.some.injEq] at found
            rw [Volume.entryAt, ← found, kind]
        · intro number
          rw [List.mem_append, List.mem_singleton]
          refine or_congr_right ?_
          constructor
          · rintro rfl
            exact ⟨_, rfl, here, directory'⟩
          · rintro ⟨_, rfl, found, _⟩
            rw [here, Option.some.injEq] at found
            exact found.symm
      have deeper : volume.Clear (fun other => ∃ label rest, other = path ++ entry.name :: label :: rest) state := by
        rintro other number ⟨label, rest, rfl⟩ found
        exact clear _ _ ⟨label :: rest, rfl⟩ found
      have still := deeper.elsewhere treelike own (by
        rintro _ rfl ⟨label, rest, same⟩
        have lengths := congrArg List.length same
        simp at lengths)
      refine (own.trans (recursion _ here directory' still)).congr ?_
      intro other
      constructor
      · rintro ⟨rest, rfl⟩
        cases rest with
        | nil => exact .inl rfl
        | cons label rest => exact .inr ⟨label, rest, rfl⟩
      · rintro (rfl | ⟨label, rest, rfl⟩)
        · exact ⟨[], rfl⟩
        · exact ⟨label :: rest, rfl⟩
    · rename_i stays
      have leaf : volume.directoryAt entry.ino = false := by
        by_contra other
        have directory' : volume.directoryAt entry.ino = true := by simpa using other
        obtain ⟨row', stored', mode⟩ := Volume.directoryAt_iff.mp directory'
        rw [stored, Option.some.injEq] at stored'
        refine stays ⟨?_, unentered directory'⟩
        rw [stored']
        unfold kindOf
        rw [if_pos mode]
      have only : ∀ rest number, volume.locate ROOT_INO (path ++ entry.name :: rest) = some number →
          rest = [] ∧ number = entry.ino := by
        intro rest number found
        cases rest with
        | nil =>
          rw [here, Option.some.injEq] at found
          exact ⟨rfl, found.symm⟩
        | cons label rest =>
          rw [child, Volume.locate, leaf] at found
          cases found
      constructor
      · intro known
        rw [List.mem_append, List.mem_singleton]
        refine or_congr_right ?_
        constructor
        · rintro rfl
          exact ⟨_, _, ⟨[], rfl⟩, here, by rw [Volume.entryAt, kind]⟩
        · rintro ⟨_, number, ⟨rest, rfl⟩, found, rfl⟩
          obtain ⟨rfl, rfl⟩ := only rest number found
          rw [Volume.entryAt, kind]
      · intro number
        refine ⟨.inl, ?_⟩
        rintro (known | ⟨_, ⟨rest, rfl⟩, found, directory'⟩)
        · exact known
        · rw [(only rest number found).2, leaf] at directory'
          cases directory'

theorem walkPaths_covers (treelike : volume.Treelike) {depth : Nat} {state : List PathEntry × List Int}
    (located : volume.locate ROOT_INO path = some ino) (directory : volume.directoryAt ino = true)
    (deep : depth + path.length = volume.inode.rows.length + 1)
    (clear : volume.Clear (fun other => ∃ label rest, other = path ++ label :: rest) state) :
    volume.Covers (fun other => ∃ label rest, other = path ++ label :: rest) state
      ((live volume).walkPaths depth state ino (absolute '/' path)) := by
  induction depth generalizing path ino state with
  | zero =>
    have bound := treelike.length_lt_inodes located directory
    omega
  | succ depth ih =>
    unfold walkPaths
    have each : ∀ (listed : List DentryRow), (∀ entry ∈ listed, entry ∈ (live volume).sortedChildren ino) →
        (listed.map (·.name)).Nodup → ∀ state,
        volume.Clear (fun other => ∃ entry ∈ listed, ∃ rest, other = path ++ entry.name :: rest) state →
        volume.Covers (fun other => ∃ entry ∈ listed, ∃ rest, other = path ++ entry.name :: rest) state
          (listed.foldl ((live volume).visit ((live volume).walkPaths depth) (absolute '/' path)) state) := by
      intro listed
      induction listed with
      | nil =>
        intro _ _ state _
        apply Volume.Covers.nothing
        rintro other number ⟨entry, member, _⟩
        cases member
      | cons entry listed again =>
        intro children distinct state clear
        rw [List.map_cons, List.nodup_cons] at distinct
        have first : volume.Covers (fun other => ∃ rest, other = path ++ entry.name :: rest) state
            ((live volume).visit ((live volume).walkPaths depth) (absolute '/' path) state entry) := by
          refine visit_covers treelike located directory (children entry List.mem_cons_self) ?_ ?_
          · rintro other number ⟨rest, rfl⟩ found
            exact clear _ _ ⟨entry, List.mem_cons_self, rest, rfl⟩ found
          · intro state here kind clear
            have deeper := ih here kind (by rw [List.length_append, List.length_singleton]; omega)
              (by simpa only [List.append_assoc, List.singleton_append] using clear)
            simpa only [List.append_assoc, List.singleton_append] using deeper
        have later : volume.Clear (fun other => ∃ child ∈ listed, ∃ rest, other = path ++ child.name :: rest) state := by
          rintro other number ⟨child, member, rest, rfl⟩ found
          exact clear _ _ ⟨child, List.mem_cons_of_mem _ member, rest, rfl⟩ found
        have still := later.elsewhere treelike first (by
          rintro other ⟨rest, rfl⟩ ⟨child, member, rest', same⟩
          have heads := List.append_cancel_left same
          rw [List.cons.injEq] at heads
          exact distinct.1 (by rw [heads.1]; exact List.mem_map_of_mem member))
        refine (first.trans (again (fun child member => children child (List.mem_cons_of_mem _ member)) distinct.2 _ still)).congr ?_
        intro other
        simp
    refine (each _ (fun _ member => member) (nodup_sortedChildren volume ino) state ?_).widen ?_ ?_
    · rintro other number ⟨entry, _, rest, rfl⟩ found
      exact clear _ _ ⟨entry.name, rest, rfl⟩ found
    · rintro other ⟨entry, _, rest, rfl⟩
      exact ⟨entry.name, rest, rfl⟩
    · rintro other number ⟨label, rest, rfl⟩ found
      rw [Volume.locate_child located directory] at found
      obtain ⟨entry, listed, _⟩ := Option.bind_eq_some_iff.mp found
      have key := volume.dentry.find?_key listed
      rw [DentryRow.key, Prod.mk.injEq] at key
      refine ⟨entry, mem_sortedChildren.mpr ⟨key.1, ?_⟩, rest, ?_⟩
      · rw [key.2]
        exact listed
      · rw [key.2]

/-- The listed paths are those that lead somewhere. -/
theorem mem_paths (treelike : volume.Treelike) {entry : PathEntry} : entry ∈ (live volume).paths ↔
    ∃ path ino, volume.locate ROOT_INO path = some ino ∧ entry = volume.entryAt path ino := by
  obtain ⟨row, stored, mode⟩ := Volume.directoryAt_iff.mp treelike.root
  have root := treelike.locate_root
  have kind : volume.kindAt ROOT_INO = .directory := by
    rw [Volume.kindAt, stored]
    exact if_pos mode
  have own : volume.entryAt [] ROOT_INO = ⟨['/'], ROOT_INO, .directory⟩ := by
    rw [Volume.entryAt, kind]
    rfl
  have clear : volume.Clear (fun other => ∃ label rest, other = [] ++ label :: rest)
      ([⟨['/'], ROOT_INO, .directory⟩], [ROOT_INO]) := by
    rintro other number ⟨label, rest, rfl⟩ located
    constructor
    · intro known member same
      rw [List.mem_singleton.mp member] at same
      have paths : [] = [] ++ label :: rest :=
        @absolute_injective _ _ '/' [] _ (fun _ member => (by cases member)) (treelike.separable located) same
      cases paths
    · intro directory member
      rw [List.mem_singleton.mp member] at located directory
      have paths := treelike.path_unique located root directory
      cases paths
  have covers := walkPaths_covers treelike root treelike.root (Nat.add_zero (volume.inode.rows.length + 1)) clear
  unfold paths
  rw [inodeMeta_live, stored]
  refine (covers.entries entry).trans ?_
  rw [List.mem_singleton]
  constructor
  · rintro (rfl | ⟨path, ino, _, located, rfl⟩)
    · exact ⟨[], ROOT_INO, root, own.symm⟩
    · exact ⟨path, ino, located, rfl⟩
  · rintro ⟨path, ino, located, rfl⟩
    cases path with
    | nil =>
      left
      rw [root, Option.some.injEq] at located
      rw [← located, own]
    | cons label rest => exact .inr ⟨label :: rest, ino, ⟨label, rest, rfl⟩, located, rfl⟩

/-- Looking a path up finds what it leads to. -/
theorem find?_paths (treelike : volume.Treelike) (separable : Separable '/' path) :
    ((live volume).paths.find? fun entry => entry.path = absolute '/' path) =
      (volume.locate ROOT_INO path).map (volume.entryAt path) := by
  cases located : volume.locate ROOT_INO path with
  | none =>
    rw [Option.map_none, List.find?_eq_none]
    intro entry member same
    obtain ⟨other, number, found, rfl⟩ := (mem_paths treelike).mp member
    have paths := absolute_injective (treelike.separable found) separable (of_decide_eq_true same)
    rw [paths, located] at found
    cases found
  | some ino =>
    have member := (mem_paths treelike).mpr ⟨path, ino, located, rfl⟩
    cases found : (live volume).paths.find? fun entry => entry.path = absolute '/' path with
    | none =>
      rw [List.find?_eq_none] at found
      exact absurd (by simp [Volume.entryAt]) (found _ member)
    | some entry =>
      obtain ⟨other, number, leads, rfl⟩ := (mem_paths treelike).mp (List.mem_of_find?_eq_some found)
      have same := List.find?_some found
      have paths := absolute_injective (treelike.separable leads) separable (of_decide_eq_true same)
      rw [paths, located, Option.some.injEq] at leads
      rw [Option.map_some, leads, paths]

end FsStateView

end AiryFS
