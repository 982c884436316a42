import AiryFS.Files.DirectoryTree
import AiryFS.Sites.Serving
import AiryFS.Transfer.Encoding

/-! Finding entries by a part of their name.

Candidates come from the trigram index when the pattern has three characters, and from the string functions
of SQLite when it is shorter. From each of them a recursive query climbs to the directory that is searched.
What the index matches is left to the platform.
-/

set_option autoImplicit false

namespace AiryFS

open Foundation Relation

namespace VolumeSearch

inductive ResultType where
  | file | directory | symlink
  deriving DecidableEq, Repr

structure SearchResult where
  path : Text
  type : ResultType
  line : Option Nat := none
  column : Option Nat := none
  text : Option Text := none
  deriving DecidableEq, Repr

structure SearchResponse where
  results : List SearchResult
  truncated : Bool
  scannedEntries : Nat
  scannedBytes : Nat
  deriving DecidableEq, Repr

def resultType (mode : Int) : ResultType :=
  if isDirectory mode then .directory else if isSymlink mode then .symlink else .file

def ftsPhrase (pattern : Text) : Text :=
  '"' :: (pattern.flatMap fun character => if character = '"' then ['"', '"'] else [character]) ++ ['"']

/-! ## The string functions of SQLite -/

/-- `lower(X)` folds the letters from A to Z. -/
def lower (text : Text) : Text := text.map Char.toLower

/-- `instr(X, Y) > 0`. -/
def instr (text pattern : Text) : Bool := decide (pattern <:+: text)

/-- `text LIKE pattern`, which folds the letters from A to Z. -/
def like : Text → Text → Bool
  | [], text => text.isEmpty
  | expected :: pattern, text =>
    if expected = '%' then text.tails.any (like pattern)
    else match text with
      | [] => false
      | character :: rest => (expected = '_' || expected.toLower = character.toLower) && like pattern rest

/-! ## The query -/

/-- A row of `paths`. -/
structure PathRow where
  ino : Int
  parentIno : Int
  path : Text
  depth : Nat
  deriving DecidableEq, Repr

section Query
variable (fts : Text → Text → Bool) (volume : Volume)

/-- The condition on the name of a candidate. -/
def candidate (pattern : Text) (ignoreCase : Bool) (name : Text) : Bool :=
  if pattern.length ≥ 3 then fts (ftsPhrase pattern) name && (ignoreCase || instr name pattern)
  else if ignoreCase then instr (lower name) (lower pattern)
  else instr name pattern

def candidates (pattern : Text) (ignoreCase : Bool) : List PathRow :=
  (volume.dentry.rows.filter fun entry => candidate fts pattern ignoreCase entry.name).map fun entry =>
    ⟨entry.ino, entry.parentIno, '/' :: entry.name, 1⟩

/-- One step up from a row, unless it has reached the root of the search. -/
def climb (rootIno : Int) (row : PathRow) : List PathRow :=
  if row.parentIno = rootIno then []
  else (volume.dentry.rows.filter fun parent => parent.ino = row.parentIno).map fun parent =>
    ⟨row.ino, parent.parentIno, '/' :: parent.name ++ row.path, row.depth + 1⟩

/-- The condition on the path of a row that has reached the root. -/
def shown (root path : Text) : Bool :=
  root ≠ ['/'] || (path ≠ TRASH_ROOT && !like (TRASH_ROOT ++ ['/', '%']) path)

/-- `ORDER BY paths.depth, paths.path`. -/
def PathRow.Ordered (first second : PathRow × InodeRow) : Prop :=
  first.1.depth < second.1.depth ∨
    first.1.depth = second.1.depth ∧ first.1.path.map Char.toNat ≤ second.1.path.map Char.toNat

instance : DecidableRel PathRow.Ordered := fun _ _ => inferInstanceAs (Decidable (_ ∨ _))

/-- The rows of the query before its `LIMIT`. It climbs no more often than there are entries, unless they form a cycle. -/
def findRows (root : Text) (rootIno : Int) (pattern : Text) (ignoreCase : Bool) : Option (List (PathRow × InodeRow)) :=
  (UnionAll.query (climb volume rootIno) (volume.dentry.rows.length + 1) (candidates fts volume pattern ignoreCase)).map fun paths =>
    ((paths.filter fun row => row.parentIno = rootIno && shown root row.path).filterMap fun row =>
      (volume.inode? row.ino).map fun inode => (row, inode)).insertionSort PathRow.Ordered

/-- `none` for a query that does not come to an end. -/
def findNames (root pattern : Text) (ignoreCase : Bool) (resultLimit : Nat) : Except Failure (Option SearchResponse) := do
  let stats ← AgentFS.stat volume root
  return (findRows fts volume root stats.ino pattern ignoreCase).map fun found =>
    let rows := found.take (resultLimit + 1)
    { results := (rows.take resultLimit).map fun row =>
        { path := if root = ['/'] then row.1.path else root ++ row.1.path, type := resultType row.2.mode }
      truncated := decide (resultLimit < rows.length)
      scannedEntries := rows.length
      scannedBytes := 0 }

end Query

/-! ## What the query climbs from -/

variable {fts : Text → Text → Bool} {volume : Volume} {rootIno ino : Int} {pattern : Text} {ignoreCase : Bool} {row : PathRow}
  {names : List Text}

/-- The row is what a candidate has become, when the query has gone up along these names. -/
structure Climbed (fts : Text → Text → Bool) (volume : Volume) (rootIno : Int) (pattern : Text) (ignoreCase : Bool)
    (names : List Text) (row : PathRow) : Prop where
  walked : AgentFS.walk volume row.parentIno names = some row.ino
  path : row.path = absolute '/' names
  depth : row.depth = names.length
  matched : ∃ name, names.getLast? = some name ∧ candidate fts pattern ignoreCase name = true
  /-- The root of the search is not in between. -/
  apart : ∀ front back, front ++ back = names → front ≠ [] → back ≠ [] → AgentFS.walk volume row.parentIno front ≠ some rootIno

theorem absolute_single (name : Text) : absolute '/' [name] = '/' :: name := by
  simp [absolute]

theorem absolute_cons (name : Text) (filled : names ≠ []) : absolute '/' (name :: names) = '/' :: name ++ absolute '/' names := by
  rw [← List.singleton_append, absolute_append (List.cons_ne_nil _ _) filled, absolute_single]

theorem walk_cons (start : Int) (name : Text) (names : List Text) : AgentFS.walk volume start (name :: names) =
    (AgentFS.walk volume start [name]).bind fun middle => AgentFS.walk volume middle names :=
  AgentFS.walk_append volume start [name] names

theorem walk_entry {entry : DentryRow} (member : entry ∈ volume.dentry.rows) :
    AgentFS.walk volume entry.parentIno [entry.name] = some entry.ino := by
  rw [AgentFS.walk_single]
  exact Volume.child_of_mem member

theorem entry_of_walk {parent : Int} {name : Text} (walked : AgentFS.walk volume parent [name] = some ino) :
    ∃ entry ∈ volume.dentry.rows, entry.parentIno = parent ∧ entry.name = name ∧ entry.ino = ino := by
  rw [AgentFS.walk_single] at walked
  exact Volume.mem_of_child walked

theorem mem_candidates : row ∈ candidates fts volume pattern ignoreCase ↔
    ∃ names, names.length = 1 ∧ Climbed fts volume rootIno pattern ignoreCase names row := by
  rw [candidates, List.mem_map]
  constructor
  · rintro ⟨entry, member, rfl⟩
    rw [List.mem_filter] at member
    refine ⟨[entry.name], rfl, walk_entry member.1, (absolute_single _).symm, rfl, ⟨entry.name, rfl, member.2⟩, ?_⟩
    intro front back split filled filled'
    have lengths := congrArg List.length split
    have first := List.length_pos_iff.mpr filled
    have second := List.length_pos_iff.mpr filled'
    rw [List.length_append, List.length_singleton] at lengths
    omega
  · rintro ⟨names, single, climbed⟩
    obtain ⟨name, rfl⟩ := List.length_eq_one_iff.mp single
    obtain ⟨entry, member, parent, rfl, leads⟩ := entry_of_walk climbed.walked
    obtain ⟨_, last, matched⟩ := climbed.matched
    obtain rfl := Option.some.inj last
    refine ⟨entry, List.mem_filter.mpr ⟨member, matched⟩, ?_⟩
    rw [parent, leads, ← absolute_single, ← climbed.path, show 1 = row.depth from climbed.depth.symm]

theorem Climbed.climb {above : PathRow} (climbed : Climbed fts volume rootIno pattern ignoreCase names row)
    (up : above ∈ climb volume rootIno row) :
    ∃ name, Climbed fts volume rootIno pattern ignoreCase (name :: names) above := by
  unfold VolumeSearch.climb at up
  split at up
  · cases up
  · rename_i inside
    obtain ⟨parent, member, rfl⟩ := List.mem_map.mp up
    rw [List.mem_filter, decide_eq_true_eq] at member
    have step := walk_entry member.1
    rw [member.2] at step
    obtain ⟨name, last, matched⟩ := climbed.matched
    have filled : names ≠ [] := by
      rintro rfl
      cases last
    refine ⟨parent.name, ?_, ?_, ?_, ⟨name, ?_, matched⟩, ?_⟩
    · rw [walk_cons, step, Option.bind_some]
      exact climbed.walked
    · rw [absolute_cons _ filled, ← climbed.path]
    · rw [List.length_cons, ← climbed.depth]
    · rw [List.getLast?_cons, last]
      rfl
    · intro front back split started continued
      obtain ⟨first, rest, rfl⟩ := List.exists_cons_of_ne_nil started
      rw [List.cons_append, List.cons.injEq] at split
      rw [split.1, walk_cons, step, Option.bind_some]
      by_cases short : rest = []
      · rw [short, AgentFS.walk, Ne, Option.some.injEq]
        exact inside
      · exact climbed.apart rest back split.2 short continued

theorem Climbed.descend {name : Text} {above : PathRow} (filled : names ≠ [])
    (climbed : Climbed fts volume rootIno pattern ignoreCase (name :: names) above) :
    ∃ row, above ∈ VolumeSearch.climb volume rootIno row ∧ Climbed fts volume rootIno pattern ignoreCase names row := by
  have walked := climbed.walked
  rw [walk_cons, Option.bind_eq_some_iff] at walked
  obtain ⟨middle, step, rest⟩ := walked
  have between : middle ≠ rootIno := fun same =>
    climbed.apart [name] names rfl (List.cons_ne_nil _ _) filled (by rw [step, same])
  obtain ⟨entry, member, parent, named, leads⟩ := entry_of_walk step
  refine ⟨⟨above.ino, middle, absolute '/' names, names.length⟩, ?_, rest, rfl, rfl, ?_, ?_⟩
  · unfold VolumeSearch.climb
    rw [if_neg between]
    refine List.mem_map.mpr ⟨entry, List.mem_filter.mpr ⟨member, decide_eq_true leads⟩, ?_⟩
    have path := climbed.path
    have depth := climbed.depth
    rw [absolute_cons _ filled] at path
    rw [List.length_cons] at depth
    dsimp only
    rw [parent, named, ← path, ← depth]
  · obtain ⟨last, ends, matched⟩ := climbed.matched
    refine ⟨last, ?_, matched⟩
    rwa [List.getLast?_cons_of_ne_nil filled] at ends
  · intro front back split started continued reached
    refine climbed.apart (name :: front) back (by rw [List.cons_append, split]) (List.cons_ne_nil _ _) continued ?_
    rw [walk_cons, step, Option.bind_some]
    exact reached

/-- A round has the rows that have gone up so many steps. -/
theorem mem_round {n : Nat} : row ∈ UnionAll.round (climb volume rootIno) (candidates fts volume pattern ignoreCase) n ↔
    ∃ names, names.length = n + 1 ∧ Climbed fts volume rootIno pattern ignoreCase names row := by
  induction n generalizing row with
  | zero => exact mem_candidates
  | succ n ih =>
    rw [UnionAll.round_succ, List.mem_flatMap]
    constructor
    · rintro ⟨below, member, up⟩
      obtain ⟨names, length, climbed⟩ := ih.mp member
      obtain ⟨name, higher⟩ := climbed.climb up
      exact ⟨name :: names, by rw [List.length_cons, length], higher⟩
    · rintro ⟨names, length, climbed⟩
      obtain ⟨name, rest, rfl⟩ := List.exists_cons_of_length_eq_add_one length
      have shorter : rest.length = n + 1 := by
        rw [List.length_cons] at length
        omega
      obtain ⟨below, up, lower⟩ := climbed.descend (List.length_pos_iff.mp (by omega))
      exact ⟨below, ih.mpr ⟨rest, shorter, lower⟩, up⟩

/-! ## What the query finds -/

theorem climbs_up {parent : Int} (filled : names ≠ []) (walked : AgentFS.walk volume parent names = some ino) :
    TransGen volume.Climbs ino parent := by
  induction names using List.reverseRecOn generalizing ino with
  | nil => exact absurd rfl filled
  | append_singleton front name ih =>
    rw [AgentFS.walk_append, Option.bind_eq_some_iff] at walked
    obtain ⟨middle, above, step⟩ := walked
    obtain ⟨entry, member, holder, _, leads⟩ := entry_of_walk step
    have edge : volume.Climbs ino middle := Volume.climbs_iff.mpr ⟨entry, member, leads, holder⟩
    by_cases top : front = []
    · rw [top, AgentFS.walk, Option.some.injEq] at above
      rw [above]
      exact .single edge
    · exact .head edge (ih top above)

section Tree

variable (tree : volume.DirectoryTree)
include tree

/-- One step up leads to a row from one row only. -/
theorem climb_injective {above other : PathRow} {names' : List Text}
    (climbed : Climbed fts volume rootIno pattern ignoreCase names row) (climbed' : Climbed fts volume rootIno pattern ignoreCase names' other)
    (up : above ∈ climb volume rootIno row) (up' : above ∈ climb volume rootIno other) : row = other := by
  have filled : names ≠ [] ∧ names' ≠ [] := by
    obtain ⟨_, last, _⟩ := climbed.matched
    obtain ⟨_, last', _⟩ := climbed'.matched
    constructor
    · rintro rfl
      cases last
    · rintro rfl
      cases last'
  have path := climbed.path
  have depth := climbed.depth
  have path' := climbed'.path
  have depth' := climbed'.depth
  unfold climb at up up'
  split at up
  · cases up
  · split at up'
    · cases up'
    · obtain ⟨parent, member, rfl⟩ := List.mem_map.mp up
      obtain ⟨parent', member', same⟩ := List.mem_map.mp up'
      rw [List.mem_filter, decide_eq_true_eq] at member member'
      rw [PathRow.mk.injEq] at same
      obtain ⟨ino, holder, spelled, _⟩ := same
      have step := walk_entry member.1
      have step' := walk_entry member'.1
      rw [member.2] at step
      rw [member'.2] at step'
      have reached : AgentFS.walk volume parent.parentIno (parent.name :: names) = some row.ino := by
        rw [walk_cons, step, Option.bind_some]
        exact climbed.walked
      have reached' : AgentFS.walk volume parent'.parentIno (parent'.name :: names') = some other.ino := by
        rw [walk_cons, step', Option.bind_some]
        exact climbed'.walked
      rw [path, path', ← absolute_cons _ filled.1, ← absolute_cons _ filled.2] at spelled
      have names := absolute_injective (tree.separable reached') (tree.separable reached) spelled
      rw [List.cons.injEq] at names
      rw [holder, names.1, step, Option.some.injEq] at step'
      cases row
      cases other
      dsimp only at ino path path' depth depth' step'
      rw [PathRow.mk.injEq, path, path', depth, depth', names.2]
      exact ⟨ino.symm, step', rfl, rfl⟩

theorem nodup_round (n : Nat) : (UnionAll.round (climb volume rootIno) (candidates fts volume pattern ignoreCase) n).Nodup := by
  have rows : volume.dentry.rows.Nodup := volume.dentry.unique.of_map
  induction n with
  | zero =>
    refine List.Nodup.map_on (fun first _ second _ same => ?_) (rows.filter _)
    rw [PathRow.mk.injEq, List.cons.injEq] at same
    cases first
    cases second
    simp_all
  | succ n ih =>
    rw [UnionAll.round_succ, List.nodup_flatMap]
    refine ⟨fun row member => ?_, ?_⟩
    · unfold climb
      split
      · exact List.nodup_nil
      · refine List.Nodup.map_on (fun first listed second listed' same => ?_) (rows.filter _)
        rw [List.mem_filter, decide_eq_true_eq] at listed listed'
        rw [PathRow.mk.injEq, List.append_cancel_right_eq, List.cons.injEq] at same
        cases first
        cases second
        simp_all
    · refine ih.imp_of_mem fun {row other} member member' different above up up' => different ?_
      obtain ⟨_, _, climbed⟩ := mem_round.mp member
      obtain ⟨_, _, climbed'⟩ := mem_round.mp member'
      exact climb_injective tree climbed climbed' up up'

end Tree

/-! ## The entries that are found -/

/-- An entry below the root of the search: the names that lead there, and its inode. -/
abbrev Entry := List Text × InodeRow

/-- Shorter paths come first, and those of one length in the order of their characters. -/
def Before (first second : Entry) : Prop :=
  first.1.length < second.1.length ∨
    first.1.length = second.1.length ∧ (absolute '/' first.1).map Char.toNat < (absolute '/' second.1).map Char.toNat

def Below (volume : Volume) (rootIno : Int) (entry : Entry) : Prop :=
  entry.1 ≠ [] ∧ ∃ ino, AgentFS.walk volume rootIno entry.1 = some ino ∧ volume.inode? ino = some entry.2

/-- What the query finds. -/
structure Matched (fts : Text → Text → Bool) (volume : Volume) (root : Text) (rootIno : Int) (pattern : Text) (ignoreCase : Bool)
    (entry : Entry) : Prop where
  below : Below volume rootIno entry
  named : ∃ name, entry.1.getLast? = some name ∧ candidate fts pattern ignoreCase name = true
  visible : shown root (absolute '/' entry.1) = true

def entryOf (found : PathRow × InodeRow) : Entry := (fields '/' found.1.path, found.2)

/-- How an entry is reported. -/
def Entry.result (root : Text) (entry : Entry) : SearchResult :=
  { path := if root = ['/'] then absolute '/' entry.1 else root ++ absolute '/' entry.1, type := resultType entry.2.mode }

variable {root : Text} {found : List (PathRow × InodeRow)} {entry other : Entry}

instance : Std.Total PathRow.Ordered where
  total first second := by
    unfold PathRow.Ordered
    rcases Nat.lt_trichotomy first.1.depth second.1.depth with less | same | more
    · exact .inl (.inl less)
    · rcases le_total (first.1.path.map Char.toNat) (second.1.path.map Char.toNat) with before | after
      · exact .inl (.inr ⟨same, before⟩)
      · exact .inr (.inr ⟨same.symm, after⟩)
    · exact .inr (.inl more)

instance : IsTrans _ PathRow.Ordered where
  trans first second third := by
    rintro (less | ⟨same, before⟩) (less' | ⟨same', before'⟩)
    · exact .inl (less.trans less')
    · exact .inl (same' ▸ less)
    · exact .inl (same ▸ less')
    · exact .inr ⟨same.trans same', before.trans before'⟩

theorem codes_injective {first second : Text} (same : first.map Char.toNat = second.map Char.toNat) : first = second :=
  List.map_injective_iff.mpr (fun _ _ equal => Char.toNat_inj.mp equal) same

section Rows

variable (tree : volume.DirectoryTree)
include tree

theorem Below.separable (below : Below volume rootIno entry) : Separable '/' entry.1 := by
  obtain ⟨_, _, walked, _⟩ := below
  exact tree.separable walked

omit tree in
theorem Below.unique (below : Below volume rootIno entry) (below' : Below volume rootIno other) (same : entry.1 = other.1) :
    entry = other := by
  obtain ⟨_, ino, walked, stored⟩ := below
  obtain ⟨_, ino', walked', stored'⟩ := below'
  rw [same, walked', Option.some.injEq] at walked
  rw [← walked, stored', Option.some.injEq] at stored
  exact Prod.ext same stored.symm

/-- The query comes to an end, and has each entry that it finds once. -/
theorem findRows_some (acyclic : Acyclic volume.Climbs) :
    ∃ found, findRows fts volume root rootIno pattern ignoreCase = some found ∧ found.Pairwise PathRow.Ordered ∧ found.Nodup ∧
      ∀ item, item ∈ found ↔ ∃ names, Matched fts volume root rootIno pattern ignoreCase (names, item.2) ∧
        item.1 = ⟨item.2.ino, rootIno, absolute '/' names, names.length⟩ := by
  have done : UnionAll.round (climb volume rootIno) (candidates fts volume pattern ignoreCase) (volume.dentry.rows.length + 1) = [] := by
    refine List.eq_nil_iff_forall_not_mem.mpr fun row member => ?_
    obtain ⟨names, length, climbed⟩ := mem_round.mp member
    have bound := Archive.length_le_entries acyclic climbed.walked
    omega
  obtain ⟨paths, queried⟩ := UnionAll.query_of_over done
  have once : paths.Nodup := by
    refine (@UnionAll.nodup_query _ _ _ _ _ PathRow.depth 1 ?_ ?_ (nodup_round tree) queried).1
    · intro row above up
      unfold climb at up
      split at up
      · cases up
      · obtain ⟨_, _, rfl⟩ := List.mem_map.mp up
        rfl
    · intro row member
      obtain ⟨_, _, rfl⟩ := List.mem_map.mp member
      rfl
  refine ⟨_, by rw [findRows, queried]; rfl, List.pairwise_insertionSort _ _, ?_, fun item => ?_⟩
  · refine (List.perm_insertionSort _ _).nodup_iff.mpr (List.Nodup.filterMap ?_ (once.filter _))
    intro first second item left right
    obtain ⟨_, _, rfl⟩ := Option.map_eq_some_iff.mp left
    obtain ⟨_, _, same⟩ := Option.map_eq_some_iff.mp right
    exact (congrArg Prod.fst same).symm
  · rw [List.mem_insertionSort, List.mem_filterMap]
    constructor
    · rintro ⟨row, listed, joined⟩
      obtain ⟨inode, stored, rfl⟩ := Option.map_eq_some_iff.mp joined
      rw [List.mem_filter, Bool.and_eq_true, decide_eq_true_eq] at listed
      obtain ⟨member, arrived, visible⟩ := listed
      obtain ⟨n, round⟩ := (UnionAll.mem_query queried).mp member
      obtain ⟨names, length, climbed⟩ := mem_round.mp round
      have own : inode.ino = row.ino := volume.inode.find?_key stored
      have walked := climbed.walked
      rw [arrived] at walked
      rw [climbed.path] at visible
      have filled : names ≠ [] := List.length_pos_iff.mp (by omega)
      refine ⟨names, ⟨⟨filled, row.ino, walked, stored⟩, climbed.matched, visible⟩, ?_⟩
      dsimp only
      rw [own, ← arrived, ← climbed.path, ← climbed.depth]
    · rintro ⟨names, matched, same⟩
      obtain ⟨⟨filled, ino, walked, stored⟩, named, visible⟩ := matched
      have own : item.2.ino = ino := volume.inode.find?_key stored
      have climbed : Climbed fts volume rootIno pattern ignoreCase names ⟨ino, rootIno, absolute '/' names, names.length⟩ := by
        refine ⟨walked, rfl, rfl, named, fun front back split started _ reached => ?_⟩
        exact acyclic rootIno (climbs_up started reached)
      rw [own] at same
      refine ⟨item.1, List.mem_filter.mpr ⟨?_, ?_⟩, ?_⟩
      · refine (UnionAll.mem_query queried).mpr ⟨names.length - 1, mem_round.mpr ⟨names, ?_, by rw [same]; exact climbed⟩⟩
        have positive : 0 < names.length := List.length_pos_iff.mpr filled
        omega
      · rw [same]
        simpa using visible
      · rw [same]
        dsimp only
        rw [stored, Option.map_some, ← same]

/-- The query finds some list of entries in order, and each limit cuts that list. -/
theorem findNames_list (acyclic : Acyclic volume.Climbs) {row : InodeRow} (stat : AgentFS.stat volume root = .ok row) :
    ∃ all : List Entry, all.Pairwise Before ∧ (∀ entry, entry ∈ all ↔ Matched fts volume root row.ino pattern ignoreCase entry) ∧
      ∀ limit, ∃ response, findNames fts volume root pattern ignoreCase limit = .ok (some response) ∧
        response.results = (all.take limit).map (Entry.result root) ∧ response.truncated = decide (limit < all.length) := by
  obtain ⟨found, rows, sorted, once, complete⟩ := @findRows_some fts volume row.ino pattern ignoreCase root tree acyclic
  have named : ∀ item ∈ found, ∃ names, Matched fts volume root row.ino pattern ignoreCase (names, item.2) ∧
      item.1 = ⟨item.2.ino, row.ino, absolute '/' names, names.length⟩ ∧ entryOf item = (names, item.2) := by
    intro item member
    obtain ⟨names, matched, same⟩ := (complete item).mp member
    refine ⟨names, matched, same, ?_⟩
    rw [entryOf, same]
    exact Prod.ext (fields_absolute (matched.below.separable tree)) rfl
  refine ⟨found.map entryOf, ?_, fun entry => ?_, fun limit => ?_⟩
  · rw [List.pairwise_map]
    refine (sorted.and once).imp_of_mem fun {first second} left right ordered => ?_
    obtain ⟨names, matched, row, entry⟩ := named first left
    obtain ⟨names', matched', row', entry'⟩ := named second right
    obtain ⟨before, different⟩ := ordered
    rw [entry, entry']
    unfold PathRow.Ordered at before
    rw [row, row'] at before
    rcases before with shorter | ⟨same, before⟩
    · exact .inl shorter
    · refine .inr ⟨same, lt_of_le_of_ne before fun equal => different ?_⟩
      have spelled : names = names' :=
        absolute_injective (matched.below.separable tree) (matched'.below.separable tree) (codes_injective equal)
      have rows : first.2 = second.2 := (Prod.mk.inj (matched.below.unique matched'.below spelled)).2
      exact Prod.ext (by rw [row, row', spelled, rows]) rows
  · rw [List.mem_map]
    constructor
    · rintro ⟨item, member, rfl⟩
      obtain ⟨names, matched, _, entry⟩ := named item member
      rw [entry]
      exact matched
    · intro matched
      refine ⟨(⟨entry.2.ino, row.ino, absolute '/' entry.1, entry.1.length⟩, entry.2), (complete _).mpr ⟨entry.1, matched, rfl⟩, ?_⟩
      exact Prod.ext (fields_absolute (matched.below.separable tree)) rfl
  · refine ⟨_, by rw [findNames, stat, ok_bind, rows]; rfl, ?_, ?_⟩
    · dsimp only
      rw [List.take_take, Nat.min_eq_left (Nat.le_succ limit), ← List.map_take, List.map_map]
      refine List.map_congr_left fun item member => ?_
      obtain ⟨names, matched, same, entry⟩ := named item (List.mem_of_mem_take member)
      rw [Function.comp_apply, entry, Entry.result, same]
    · dsimp only
      rw [List.length_take, List.length_map]
      congr 1
      exact propext ⟨fun more => by omega, fun more => by omega⟩

end Rows

/-! ## What a search by name should find -/

/-- The name contains the pattern, with the case of all letters folded or with none. -/
def Contains (fold : Char → Char) (ignoreCase : Bool) (pattern name : Text) : Prop :=
  if ignoreCase then pattern.map fold <:+: name.map fold else pattern <:+: name

/-- An entry below the root of the search that is not in the trash and whose name contains the pattern. -/
structure Wanted (fold : Char → Char) (volume : Volume) (path : Text) (rootIno : Int) (pattern : Text) (ignoreCase : Bool)
    (entry : Entry) : Prop where
  below : Below volume rootIno entry
  named : ∃ name, entry.1.getLast? = some name ∧ Contains fold ignoreCase pattern name
  visible : ¬[TRASH_NAME] <+: Auth.segments path ++ entry.1

/-- Every limit gets the first of the wanted entries, by depth and then by path, and is told whether there are more. -/
def Agrees (fold : Char → Char) (fts : Text → Text → Bool) (volume : Volume) (path : Text) (rootIno : Int) (pattern : Text)
    (ignoreCase : Bool) : Prop :=
  ∃ all : List Entry, all.Pairwise Before ∧ (∀ entry, entry ∈ all ↔ Wanted fold volume path rootIno pattern ignoreCase entry) ∧
    ∀ limit, 0 < limit → ∃ response, findNames fts volume (Auth.normalizePath path) pattern ignoreCase limit = .ok (some response) ∧
      response.results = (all.take limit).map (Entry.result (Auth.normalizePath path)) ∧
      response.truncated = decide (limit < all.length)

variable {fold : Char → Char} {path : Text} {row : InodeRow}

theorem result_injective (tree : volume.DirectoryTree) (below : Below volume rootIno entry) (below' : Below volume rootIno other)
    (same : entry.result root = other.result root) : entry = other := by
  rw [Entry.result, Entry.result, SearchResult.mk.injEq] at same
  have paths : absolute '/' entry.1 = absolute '/' other.1 := by
    have path := same.1
    split at path
    · exact path
    · exact List.append_cancel_left path
  exact below.unique below' (absolute_injective (below.separable tree) (below'.separable tree) paths)

/-- The search is right just when the query finds the entries that are wanted. -/
theorem agrees_iff_matched (tree : volume.DirectoryTree) (acyclic : Acyclic volume.Climbs)
    (stat : AgentFS.stat volume (Auth.normalizePath path) = .ok row) :
    Agrees fold fts volume path row.ino pattern ignoreCase ↔ ∀ entry,
      Matched fts volume (Auth.normalizePath path) row.ino pattern ignoreCase entry ↔
        Wanted fold volume path row.ino pattern ignoreCase entry := by
  obtain ⟨found, sorted, listed, answers⟩ := @findNames_list fts volume pattern ignoreCase _ tree acyclic row stat
  constructor
  · rintro ⟨all, _, complete, answers'⟩ entry
    obtain ⟨response, answered, results, _⟩ := answers (found.length + all.length + 1)
    obtain ⟨response', answered', results', _⟩ := answers' (found.length + all.length + 1) (Nat.succ_pos _)
    rw [answered, Except.ok.injEq, Option.some.injEq] at answered'
    rw [← answered', results, List.take_of_length_le (by omega), List.take_of_length_le (by omega)] at results'
    constructor
    · intro matched
      have member := List.mem_map_of_mem (f := Entry.result (Auth.normalizePath path)) ((listed entry).mpr matched)
      rw [results', List.mem_map] at member
      obtain ⟨other, member, same⟩ := member
      have wanted := (complete other).mp member
      rwa [← result_injective tree wanted.below matched.below same]
    · intro wanted
      have member := List.mem_map_of_mem (f := Entry.result (Auth.normalizePath path)) ((complete entry).mpr wanted)
      rw [← results', List.mem_map] at member
      obtain ⟨other, member, same⟩ := member
      have matched := (listed other).mp member
      rwa [← result_injective tree matched.below wanted.below same]
  · intro same
    exact ⟨found, sorted, fun entry => (listed entry).trans (same entry), fun limit _ => answers limit⟩

/-! ## Where the query and the search part -/

theorem lower_trash : lower TRASH_NAME = TRASH_NAME := by decide

theorem toLower_slash {character : Char} : character.toLower = '/' ↔ character = '/' := by
  constructor
  · intro same
    unfold Char.toLower at same
    split at same
    · rename_i upper
      have code : (character.val + ('a'.val - 'A'.val)).toNat = 47 := congrArg (fun folded => folded.val.toNat) same
      have least : 65 ≤ character.val.toNat := upper.1
      have most : character.val.toNat ≤ 90 := upper.2
      have shift : ('a'.val - 'A'.val).toNat = 32 := by decide
      rw [UInt32.toNat_add, shift] at code
      omega
    · exact same
  · rintro rfl
    rfl

theorem like_below {front text : Text} (plain : '%' ∉ front ∧ '_' ∉ front) :
    like (front ++ ['%']) text = true ↔ lower front <+: lower text := by
  induction front generalizing text with
  | nil =>
    rw [List.nil_append, like.eq_def]
    dsimp only
    rw [if_pos rfl, List.any_eq_true]
    exact iff_of_true ⟨[], (List.mem_tails _ _).mpr List.nil_suffix, rfl⟩ List.nil_prefix
  | cons expected front ih =>
    obtain ⟨percent, underscore⟩ := plain
    rw [List.mem_cons, not_or] at percent underscore
    have later := fun text => @ih text ⟨percent.2, underscore.2⟩
    rw [List.cons_append, like.eq_def]
    dsimp only
    rw [if_neg (Ne.symm percent.1)]
    cases text with
    | nil => simp [lower]
    | cons character rest =>
      have other : decide (expected = '_') = false := decide_eq_false (Ne.symm underscore.1)
      dsimp only
      rw [other, Bool.false_or, Bool.and_eq_true, decide_eq_true_eq, later rest, lower, lower, lower, lower, List.map_cons, List.map_cons,
        List.cons_prefix_cons]

theorem lower_absolute (names : List Text) : lower (absolute '/' names) = absolute '/' (names.map lower) := by
  induction names with
  | nil => rfl
  | cons name rest ih =>
    by_cases single : rest = []
    · rw [single, List.map_singleton, absolute_single, absolute_single]
      rfl
    · have filled : rest.map lower ≠ [] := fun empty => single (List.map_eq_nil_iff.mp empty)
      rw [List.map_cons, absolute_cons _ single, absolute_cons _ filled, ← ih]
      simp [lower]

theorem separable_lower (separable : Separable '/' names) : Separable '/' (names.map lower) := by
  intro piece member
  obtain ⟨name, listed, rfl⟩ := List.mem_map.mp member
  obtain ⟨filled, clean⟩ := separable name listed
  refine ⟨fun empty => filled (List.map_eq_nil_iff.mp empty), fun inside => ?_⟩
  obtain ⟨character, within, same⟩ := List.mem_map.mp inside
  exact clean (toLower_slash.mp same ▸ within)

/-- What the query hides at the root of the volume: the trash, and what is below a name that is spelled like it. -/
theorem shown_root (separable : Separable '/' names) (filled : names ≠ []) : shown ['/'] (absolute '/' names) = true ↔
    names ≠ [TRASH_NAME] ∧ ∀ top rest, names = top :: rest → rest ≠ [] → lower top ≠ TRASH_NAME := by
  have trash : Separable '/' [TRASH_NAME] := by
    intro piece member
    rw [List.mem_singleton.mp member]
    decide
  have exact_ : absolute '/' names = TRASH_ROOT ↔ names = [TRASH_NAME] := by
    rw [TRASH_ROOT, ← absolute_single]
    exact ⟨absolute_injective separable trash, fun same => by rw [same]⟩
  have under : like (TRASH_ROOT ++ ['/', '%']) (absolute '/' names) = true ↔
      ∃ top rest, names = top :: rest ∧ rest ≠ [] ∧ lower top = TRASH_NAME := by
    have spelled : TRASH_ROOT ++ ['/', '%'] = (absolute '/' [TRASH_NAME] ++ ['/']) ++ ['%'] := by decide
    have folded : lower (absolute '/' [TRASH_NAME] ++ ['/']) = absolute '/' [TRASH_NAME] ++ ['/'] := by decide
    rw [spelled, like_below (by decide), folded, lower_absolute, absolute_prefix_iff trash (separable_lower separable) (List.cons_ne_nil _ _)]
    obtain ⟨top, rest, rfl⟩ := List.exists_cons_of_ne_nil filled
    rw [List.map_cons, List.cons_prefix_cons, Ne, List.cons.injEq]
    constructor
    · rintro ⟨⟨same, _⟩, more⟩
      refine ⟨top, rest, rfl, fun none_ => more ⟨same, by rw [none_]; rfl⟩, same.symm⟩
    · rintro ⟨top', rest', split, more, same⟩
      rw [List.cons.injEq] at split
      rw [split.1, split.2]
      refine ⟨⟨same.symm, List.nil_prefix⟩, fun only => more (List.map_eq_nil_iff.mp only.2.symm)⟩
  unfold shown
  rw [Bool.or_eq_true, Bool.and_eq_true, decide_eq_true_eq, decide_eq_true_eq, Bool.not_eq_true', ← Bool.not_eq_true, under, Ne, Ne,
    exact_]
  simp only [ne_eq, not_true_eq_false, false_or, not_exists, not_and]

/-- The index matches a quoted phrase where the name contains it with folded case, also that of the letters from A to Z. -/
structure Trigrams (fold : Char → Char) (fts : Text → Text → Bool) : Prop where
  folds : ∀ character, fold character.toLower = fold character
  indexed : ∀ pattern name, 3 ≤ pattern.length → (fts (ftsPhrase pattern) name = true ↔ pattern.map fold <:+: name.map fold)

/-- No entry is among those that the query takes in or leaves out by mistake. -/
structure Findable (fold : Char → Char) (fts : Text → Text → Bool) (volume : Volume) (path : Text) (rootIno : Int) (pattern : Text)
    (ignoreCase : Bool) : Prop where
  /-- A search inside the trash finds nothing. -/
  outside : [TRASH_NAME] <+: Auth.segments path → ∀ entry, Below volume rootIno entry → ∀ name, entry.1.getLast? = some name →
    candidate fts pattern ignoreCase name = false
  /-- Nothing to be found is below a name that differs from that of the trash in case only. -/
  spelled : Auth.segments path = [] → ∀ top rest inode, Below volume rootIno (top :: rest, inode) → rest ≠ [] →
    lower top = TRASH_NAME → top ≠ TRASH_NAME → ∀ name, rest.getLast? = some name → ¬Contains fold ignoreCase pattern name
  /-- What contains a short pattern with folded case contains it with only the letters from A to Z folded. -/
  folded : ignoreCase = true → pattern.length < 3 → ∀ entry, Below volume rootIno entry →
    ¬[TRASH_NAME] <+: Auth.segments path ++ entry.1 → ∀ name, entry.1.getLast? = some name → Contains fold true pattern name →
    instr (lower name) (lower pattern) = true

section Trigrams

variable (trigrams : Trigrams fold fts) {name : Text}
include trigrams

theorem map_lower (text : Text) : (lower text).map fold = text.map fold := by
  rw [lower, List.map_map]
  exact List.map_congr_left fun character _ => trigrams.folds character

theorem candidate_iff (settled : ¬(ignoreCase = true ∧ pattern.length < 3)) :
    candidate fts pattern ignoreCase name = true ↔ Contains fold ignoreCase pattern name := by
  unfold candidate Contains
  by_cases long : pattern.length ≥ 3
  · rw [if_pos long, Bool.and_eq_true, trigrams.indexed pattern name long]
    cases ignoreCase with
    | true => simp
    | false =>
      rw [Bool.false_or, instr, decide_eq_true_eq, if_neg Bool.false_ne_true]
      exact ⟨And.right, fun inside => ⟨inside.map fold, inside⟩⟩
  · have cased : ignoreCase = false := Bool.eq_false_iff.mpr fun ignores => settled ⟨ignores, Nat.lt_of_not_le long⟩
    rw [if_neg long, cased, if_neg Bool.false_ne_true, if_neg Bool.false_ne_true, instr, decide_eq_true_eq]

theorem contains_of_candidate (taken : candidate fts pattern ignoreCase name = true) : Contains fold ignoreCase pattern name := by
  by_cases settled : ignoreCase = true ∧ pattern.length < 3
  · obtain ⟨ignores, short⟩ := settled
    rw [candidate, if_neg (Nat.not_le.mpr short), if_pos ignores, instr, decide_eq_true_eq] at taken
    rw [Contains, if_pos ignores, ← map_lower trigrams pattern, ← map_lower trigrams name]
    exact taken.map fold
  · exact (candidate_iff trigrams settled).mp taken

omit trigrams in
theorem root_iff : Auth.normalizePath path = ['/'] ↔ Auth.segments path = [] := by
  rw [Auth.normalizePath, absolute_eq_root_iff]
  refine ⟨fun root => root.resolve_right fun blank => ?_, .inl⟩
  exact (Auth.segments_separable path [] (by rw [blank]; exact List.mem_cons_self)).1 rfl

omit trigrams in
theorem shown_below (inner : Auth.segments path ≠ []) (text : Text) : shown (Auth.normalizePath path) text = true := by
  have other : decide (Auth.normalizePath path ≠ ['/']) = true := decide_eq_true fun root => inner (root_iff.mp root)
  rw [shown, other, Bool.true_or]

theorem wanted_of_matched (tree : volume.DirectoryTree) (findable : Findable fold fts volume path rootIno pattern ignoreCase)
    (matched : Matched fts volume (Auth.normalizePath path) rootIno pattern ignoreCase entry) :
    Wanted fold volume path rootIno pattern ignoreCase entry := by
  obtain ⟨below, ⟨name, last, taken⟩, visible⟩ := matched
  refine ⟨below, ⟨name, last, contains_of_candidate trigrams taken⟩, fun reserved => ?_⟩
  by_cases top : Auth.segments path = []
  · rw [root_iff.mpr top, shown_root (below.separable tree) below.1] at visible
    rw [top, List.nil_append] at reserved
    obtain ⟨rest, split⟩ := reserved
    rw [List.singleton_append] at split
    by_cases single : rest = []
    · exact visible.1 (by rw [← split, single])
    · exact visible.2 TRASH_NAME rest split.symm single lower_trash
  · have inside : [TRASH_NAME] <+: Auth.segments path := by
      obtain ⟨first, rest, split⟩ := List.exists_cons_of_ne_nil top
      rw [split, List.cons_append, List.cons_prefix_cons] at reserved
      rw [split, List.cons_prefix_cons]
      exact ⟨reserved.1, List.nil_prefix⟩
    exact Bool.false_ne_true ((findable.outside inside entry below name last).symm.trans taken)

theorem matched_of_wanted (tree : volume.DirectoryTree) (findable : Findable fold fts volume path rootIno pattern ignoreCase)
    (wanted : Wanted fold volume path rootIno pattern ignoreCase entry) :
    Matched fts volume (Auth.normalizePath path) rootIno pattern ignoreCase entry := by
  obtain ⟨below, ⟨name, last, contains⟩, visible⟩ := wanted
  refine ⟨below, ⟨name, last, ?_⟩, ?_⟩
  · by_cases settled : ignoreCase = true ∧ pattern.length < 3
    · obtain ⟨ignores, short⟩ := settled
      rw [ignores] at contains
      rw [candidate, if_neg (Nat.not_le.mpr short), if_pos ignores]
      exact findable.folded ignores short entry below visible name last contains
    · exact (candidate_iff trigrams settled).mpr contains
  · by_cases top : Auth.segments path = []
    · rw [root_iff.mpr top, shown_root (below.separable tree) below.1]
      rw [top, List.nil_append] at visible
      refine ⟨fun only => visible (by rw [only]), fun first rest split more same => ?_⟩
      by_cases trash : first = TRASH_NAME
      · rw [split, trash, List.cons_prefix_cons] at visible
        exact visible ⟨rfl, List.nil_prefix⟩
      · refine findable.spelled top first rest entry.2 (by rw [← split]; exact below) more same trash name ?_ contains
        rwa [split, List.getLast?_cons_of_ne_nil more] at last
    · exact shown_below top _

end Trigrams

end VolumeSearch

open VolumeSearch in
/-- A search by name finds the entries it should, in order and up to its limit, just when it is not made inside the trash over
names that match, no match is below a name spelled like the trash, and a short pattern that ignores case has no match that only
the folding of other letters shows. -/
theorem find_names_agrees_iff {fold : Char → Char} {fts : Text → Text → Bool} {volume : Volume} {path pattern : Text}
    {ignoreCase : Bool} {row : InodeRow} (trigrams : Trigrams fold fts) (tree : volume.DirectoryTree) (acyclic : Acyclic volume.Climbs)
    (stat : AgentFS.stat volume (Auth.normalizePath path) = .ok row) :
    Agrees fold fts volume path row.ino pattern ignoreCase ↔ Findable fold fts volume path row.ino pattern ignoreCase := by
  rw [agrees_iff_matched tree acyclic stat]
  constructor
  · intro same
    refine ⟨fun inside entry below name last => ?_, fun top first rest inode below more spelled other name last contains => ?_,
      fun ignores short entry below visible name last contains => ?_⟩
    · refine Bool.eq_false_iff.mpr fun taken => ?_
      have inner : Auth.segments path ≠ [] := by
        intro none_
        rw [none_] at inside
        exact absurd (List.prefix_nil.mp inside) (List.cons_ne_nil _ _)
      have wanted := (same entry).mp ⟨below, ⟨name, last, taken⟩, shown_below inner _⟩
      exact wanted.visible (inside.trans (List.prefix_append _ _))
    · have visible : ¬[TRASH_NAME] <+: Auth.segments path ++ (first :: rest) := by
        rw [top, List.nil_append, List.cons_prefix_cons]
        exact fun reserved => other reserved.1.symm
      have matched := (same (first :: rest, inode)).mpr
        ⟨below, ⟨name, by rw [List.getLast?_cons_of_ne_nil more]; exact last, contains⟩, visible⟩
      have shows := matched.visible
      rw [root_iff.mpr top, shown_root (below.separable tree) below.1] at shows
      exact shows.2 first rest rfl more spelled
    · rw [ignores] at same
      obtain ⟨name', last', taken⟩ := ((same entry).mpr ⟨below, ⟨name, last, contains⟩, visible⟩).named
      rw [last, Option.some.injEq] at last'
      rwa [← last', candidate, if_neg (Nat.not_le.mpr short), if_pos rfl] at taken
  · intro findable entry
    exact ⟨wanted_of_matched trigrams tree findable, matched_of_wanted trigrams tree findable⟩

namespace VolumeSearch

/-- A folding that knows one letter besides those from A to Z. -/
def sampleFold (character : Char) : Char := if character.toLower = 'É' then 'é' else character.toLower

def undouble : Text → Text
  | '"' :: '"' :: rest => '"' :: undouble rest
  | character :: rest => character :: undouble rest
  | [] => []

def sampleFts (phrase name : Text) : Bool := decide ((undouble phrase.tail.dropLast).map sampleFold <:+: name.map sampleFold)

theorem toLower_toLower (character : Char) : character.toLower.toLower = character.toLower := by
  by_cases upper : character.val ≥ 'A'.val ∧ character.val ≤ 'Z'.val
  · have moved : character.toLower.val = character.val + ('a'.val - 'A'.val) := by
      unfold Char.toLower
      rw [dif_pos upper]
    have least : 65 ≤ character.val.toNat := upper.1
    have most : character.val.toNat ≤ 90 := upper.2
    have shift : ('a'.val - 'A'.val).toNat = 32 := by decide
    have code := congrArg UInt32.toNat moved
    rw [UInt32.toNat_add, shift] at code
    have stays : ¬(character.toLower.val ≥ 'A'.val ∧ character.toLower.val ≤ 'Z'.val) := by
      rintro ⟨_, bound⟩
      have small : character.toLower.val.toNat ≤ 90 := bound
      omega
    exact dif_neg stays
  · have same : character.toLower = character := by
      unfold Char.toLower
      rw [dif_neg upper]
    rw [same, same]

theorem undouble_flatMap (pattern : Text) :
    undouble (pattern.flatMap fun character => if character = '"' then ['"', '"'] else [character]) = pattern := by
  induction pattern with
  | nil => rfl
  | cons character rest ih =>
    rw [List.flatMap_cons]
    by_cases quote : character = '"'
    · rw [if_pos quote, List.cons_append, List.singleton_append, undouble, ih, quote]
    · rw [if_neg quote, List.singleton_append, undouble, ih]
      exact fun _ same => absurd same quote

theorem sampleTrigrams : Trigrams sampleFold sampleFts where
  folds character := by rw [sampleFold, toLower_toLower, sampleFold]
  indexed pattern name _ := by
    rw [sampleFts, decide_eq_true_eq, ftsPhrase, List.cons_append, List.tail_cons, List.dropLast_concat, undouble_flatMap]

/-- A volume with the file `/É`. -/
def findSample : Volume :=
  { Volume.fresh 0 with
    inode := ⟨[InodeRow.root 0, { InodeRow.create DEFAULT_FILE_MODE 0 0 0 with ino := 2, nlink := 1 }], by decide⟩
    dentry := ⟨[⟨"É".toList, 1, 2⟩], List.nodup_singleton _⟩
    inodeSequence := 2 }

theorem findSample_tree : findSample.DirectoryTree :=
  .of_entries (by decide) (by decide) (by decide) (by decide) (by decide) (by decide) (by decide)

theorem findSample_acyclic : Acyclic findSample.Climbs := Volume.acyclic_of_newer (by decide)

end VolumeSearch

open VolumeSearch in
theorem find_names_agrees_sample : Agrees sampleFold sampleFts findSample "/".toList 1 "é".toList false ↔
    Findable sampleFold sampleFts findSample "/".toList 1 "é".toList false :=
  @find_names_agrees_iff _ _ _ _ _ _ (InodeRow.root 0) sampleTrigrams findSample_tree findSample_acyclic rfl

open VolumeSearch in
/-- A search for `é` that ignores case does not find `/É`. -/
theorem find_names_misses_letter : Trigrams sampleFold sampleFts ∧ findSample.DirectoryTree ∧ Acyclic findSample.Climbs ∧
    ¬Agrees sampleFold sampleFts findSample "/".toList 1 "é".toList true := by
  refine ⟨sampleTrigrams, findSample_tree, findSample_acyclic, fun agrees => ?_⟩
  have stat : AgentFS.stat findSample (Auth.normalizePath "/".toList) = .ok (InodeRow.root 0) := rfl
  have same := (agrees_iff_matched findSample_tree findSample_acyclic stat).mp agrees
    (["É".toList], { InodeRow.create DEFAULT_FILE_MODE 0 0 0 with ino := 2, nlink := 1 })
  have wanted : Wanted sampleFold findSample "/".toList 1 "é".toList true
      (["É".toList], { InodeRow.create DEFAULT_FILE_MODE 0 0 0 with ino := 2, nlink := 1 }) := by
    refine ⟨⟨List.cons_ne_nil _ _, 2, rfl, rfl⟩, ⟨_, rfl, ?_⟩, by decide⟩
    show "é".toList.map sampleFold <:+: "É".toList.map sampleFold
    decide
  obtain ⟨name, last, taken⟩ := (same.mpr wanted).named
  obtain rfl := Option.some.inj last
  revert taken
  decide

end AiryFS
