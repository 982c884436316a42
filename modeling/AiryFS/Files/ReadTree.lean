import AiryFS.Files.DirectoryTree
import AiryFS.Foundation.Preorder
import AiryFS.Sites.Serving
import AiryFS.Transfer.Encoding

/-! Directory trees as a request lists them, bounded in depth and in the number of entries.

How `localeCompare` orders names is left to the platform.
-/

set_option autoImplicit false

namespace AiryFS

open Foundation Preorder

namespace TreeListing

def DEFAULT_DEPTH : Nat := 20
def MAX_DEPTH : Nat := 100
def DEFAULT_LIMIT : Nat := 1000
def MAX_LIMIT : Nat := 100000

inductive EntryType where
  | file | directory | symlink
  deriving DecidableEq, Repr

structure TreeEntry where
  path : Text
  name : Text
  depth : Nat
  type : EntryType
  size : Int
  deriving DecidableEq, Repr

structure TreeResponse where
  root : Text
  entries : List TreeEntry
  truncated : Bool
  deriving DecidableEq, Repr

/-- The members of the request that are read; any of them may be absent. -/
structure TreeInput where
  path : Option JsValue
  depth : Option JsValue
  limit : Option JsValue

def boundedInteger (value : Option JsValue) (fallback maximum : Nat) (name : String) : Except Failure Nat :=
  let invalid := Failure.http 400 "INVALID_ARGUMENT" s!"{name} must be between 0 and {maximum}"
  match value with
  | none => .ok fallback
  | some (.integer value) => if ¬isSafeInteger value ∨ value < 0 ∨ value > maximum then .error invalid else .ok value.toNat
  | some _ => .error invalid

def entryType (mode : Int) : EntryType :=
  if isDirectory mode then .directory else if isSymlink mode then .symlink else .file

section
variable (localeCompare : Text → Text → Int) (volume : Volume)

def ByName (left right : Text × InodeRow) : Prop := localeCompare left.1 right.1 ≤ 0

instance : DecidableRel (ByName localeCompare) := fun _ _ => inferInstanceAs (Decidable (_ ≤ _))

/-- The entries of a directory in the order in which the loop takes them. -/
def sortedEntries (directory : Text) : Except Failure (List (Text × InodeRow)) := do
  let entries ← AgentFS.readdirPlus volume directory
  let entries := if directory = ['/'] then entries.eraseP fun entry => entry.1 = TRASH_NAME else entries
  return entries.insertionSort (ByName localeCompare)

/-- The loop over the entries of a directory. `enter` is the call for a directory among them. -/
@[grind =]
def walkEntries (limit : Nat) (enter : Text → Nat → Listed TreeEntry → Except Failure (Listed TreeEntry)) (directory : Text)
    (parentDepth : Nat) : List (Text × InodeRow) → Listed TreeEntry → Except Failure (Listed TreeEntry)
  | [], result => return result
  | entry :: rest, result =>
    if limit ≤ result.1.length then return (result.1, true)
    else do
      let path := if directory = ['/'] then '/' :: entry.1 else directory ++ '/' :: entry.1
      let type := entryType entry.2.mode
      let depth := parentDepth + 1
      let result := (result.1 ++ [{ path, name := entry.1, depth, type, size := entry.2.size }], result.2)
      let result ← if type = .directory then enter path depth result else pure result
      walkEntries limit enter directory parentDepth rest result

/-- `walk`, so many levels above the greatest depth. -/
@[grind =]
def walk (limit : Nat) : Nat → Text → Nat → Listed TreeEntry → Except Failure (Listed TreeEntry)
  | 0, _, _, result => return result
  | levels + 1, directory, parentDepth, result =>
    if result.2 then return result
    else do
      let entries ← sortedEntries localeCompare volume directory
      walkEntries limit (walk limit levels) directory parentDepth entries result

def TreeInput.path_ (input : TreeInput) : Text :=
  match input.path with
  | some (.text path) => path
  | _ => ['/']

def TreeInput.root (input : TreeInput) : Text := Auth.normalizePath input.path_

def readTree (input : TreeInput) : Except Failure TreeResponse := do
  let root := input.root
  let maxDepth ← boundedInteger input.depth DEFAULT_DEPTH MAX_DEPTH "depth"
  let limit ← boundedInteger input.limit DEFAULT_LIMIT MAX_LIMIT "limit"
  refuse (limit = 0) (.http 400 "INVALID_ARGUMENT" "limit must be at least 1")
  let stats ← AgentFS.stat volume root
  let shown := String.ofList root
  refuse (¬isDirectory stats.mode) (.http 400 "ENOTDIR" s!"{shown} is not a directory")
  let result ← walk localeCompare volume limit maxDepth root 0 ([], false)
  return { root, entries := result.1, truncated := result.2 }

/-! ## The traversal -/

/-- An entry of the tree, with its names from the root of the volume and its depth below the root of the listing. -/
structure Place where
  names : List Text
  depth : Nat
  row : InodeRow
  deriving DecidableEq

def Place.name (place : Place) : Text := place.names.getLast?.getD []

def Place.entry (place : Place) : TreeEntry :=
  ⟨absolute '/' place.names, place.name, place.depth, entryType place.row.mode, place.row.size⟩

variable (hidden : Option Text)

/-- The entries of a directory in the order of their names. An entry of the volume's root may be hidden. -/
def childrenOf (place : Place) : List Place :=
  if isDirectory place.row.mode then
    (((Archive.children volume place.row.ino).filter fun entry => ¬(place.names = [] ∧ hidden = some entry.1)).insertionSort
      (ByName localeCompare)).map fun entry => ⟨place.names ++ [entry.1], place.depth + 1, entry.2⟩
  else []

/-- The preorder below the root of the listing. -/
def traversal (depth : Nat) (place : Place) : List TreeEntry :=
  (below (childrenOf localeCompare volume hidden) depth place).map Place.entry

end

/-! ## The walk lists the traversal -/

/-- The place is in the tree. -/
structure Place.At (volume : Volume) (place : Place) : Prop where
  reached : AgentFS.walk volume ROOT_INO place.names = some place.row.ino
  stored : volume.inode? place.row.ino = some place.row

variable {localeCompare : Text → Text → Int} {volume : Volume} {place : Place} {hidden : Option Text}

/-- The entries of the places that were listed. -/
def report (listed : Listed Place) : Listed TreeEntry := (listed.1.map Place.entry, listed.2)

theorem length_report (listed : Listed Place) : (report listed).1.length = listed.1.length := List.length_map _

/-- Where names are there once, the one that is spliced out is filtered out. -/
theorem eraseP_named {entries : List (Text × InodeRow)} (once : (entries.map Prod.fst).Nodup) (name : Text) :
    entries.eraseP (fun entry => entry.1 = name) = entries.filter fun entry => ¬entry.1 = name := by
  induction entries with
  | nil => rfl
  | cons entry rest ih =>
    rw [List.map_cons, List.nodup_cons] at once
    by_cases named : entry.1 = name
    · have others : ∀ other ∈ rest, decide (¬other.1 = name) = true := by
        intro other member
        refine decide_eq_true fun same => once.1 ?_
        rw [named, ← same]
        exact List.mem_map_of_mem member
      rw [List.eraseP_cons_of_pos (by simp [named]), List.filter_cons_of_neg (by simp [named]), List.filter_eq_self.mpr others]
    · rw [List.eraseP_cons_of_neg (by simp [named]), List.filter_cons_of_pos (by simp [named]), ih once.2]

section Tree

variable (tree : volume.DirectoryTree) (at_ : place.At volume)
include tree at_

theorem path_root : absolute '/' place.names = ['/'] ↔ place.names = [] := by
  have separable := tree.separable at_.reached
  rw [absolute_eq_root_iff]
  refine ⟨fun root => root.resolve_right fun blank => ?_, .inl⟩
  exact (separable [] (by rw [blank]; exact List.mem_cons_self)).1 rfl

theorem path_child (name : Text) : absolute '/' (place.names ++ [name]) =
    if absolute '/' place.names = ['/'] then '/' :: name else absolute '/' place.names ++ '/' :: name := by
  have single : absolute '/' [name] = '/' :: name := by simp [absolute]
  by_cases top : place.names = []
  · rw [if_pos ((path_root tree at_).mpr top), top, List.nil_append, single]
  · rw [if_neg fun root => top ((path_root tree at_).mp root), absolute_append top (List.cons_ne_nil _ _), single]

theorem sortedEntries_eq (directory : isDirectory place.row.mode = true) :
    sortedEntries localeCompare volume (absolute '/' place.names) =
      .ok (((Archive.children volume place.row.ino).filter fun entry =>
        ¬(place.names = [] ∧ some TRASH_NAME = some entry.1)).insertionSort (ByName localeCompare)) := by
  have resolved : AgentFS.resolvePath volume (absolute '/' place.names) = some place.row.ino := by
    rw [AgentFS.resolvePath_eq, fields_absolute (tree.separable at_.reached)]
    exact at_.reached
  have listed : AgentFS.readdirPlus volume (absolute '/' place.names) = .ok (Archive.children volume place.row.ino) :=
    @Archive.readdirPlus_stored volume 0 _ _ resolved ⟨_, at_.stored, directory⟩
  have kept : (if absolute '/' place.names = ['/'] then
      (Archive.children volume place.row.ino).eraseP fun entry => entry.1 = TRASH_NAME else Archive.children volume place.row.ino) =
      (Archive.children volume place.row.ino).filter fun entry => ¬(place.names = [] ∧ some TRASH_NAME = some entry.1) := by
    by_cases top : place.names = []
    · rw [if_pos ((path_root tree at_).mpr top), eraseP_named (Archive.nodup_children volume _)]
      refine List.filter_congr fun entry _ => ?_
      simp [top, eq_comm]
    · rw [if_neg fun root => top ((path_root tree at_).mp root)]
      exact (List.filter_eq_self.mpr fun entry _ => by simp [top]).symm
  unfold sortedEntries
  rw [listed, ok_bind]
  dsimp only
  rw [kept]
  rfl

omit tree in
/-- The place of an entry of the directory. -/
theorem child_at {entry : Text × InodeRow} (listed : entry ∈ Archive.children volume place.row.ino) :
    (Place.mk (place.names ++ [entry.1]) (place.depth + 1) entry.2).At volume := by
  obtain ⟨found, led, stored⟩ := Archive.mem_children.mp listed
  have own : entry.2.ino = found.ino := volume.inode.find?_key stored
  refine ⟨?_, by rw [own]; exact stored⟩
  rw [Volume.walk_concat, at_.reached, Option.bind_some, Volume.child, led, own]
  rfl

/-- What a loop over entries of the directory reports, when what it calls reports the visit of each. -/
theorem walkEntries_eq {limit : Nat} {enter : Text → Nat → Listed TreeEntry → Except Failure (Listed TreeEntry)}
    {visits : Place → Listed Place → Listed Place}
    (enters : ∀ child listed, child.At volume → isDirectory child.row.mode = true →
      enter (absolute '/' child.names) child.depth (report listed) = .ok (report (visits child listed)))
    (passes : ∀ child listed, isDirectory child.row.mode = false → visits child listed = listed)
    {entries : List (Text × InodeRow)} (inside : ∀ entry ∈ entries, entry ∈ Archive.children volume place.row.ino)
    (listed : Listed Place) :
    walkEntries limit enter (absolute '/' place.names) place.depth entries (report listed) =
      .ok (report (each limit visits (entries.map fun entry => ⟨place.names ++ [entry.1], place.depth + 1, entry.2⟩) listed)) := by
  induction entries generalizing listed with
  | nil => rfl
  | cons entry rest ih =>
    have later := fun listed => ih (fun other member => inside other (List.mem_cons_of_mem _ member)) listed
    have within := child_at at_ (inside entry List.mem_cons_self)
    rw [List.map_cons, each, walkEntries, length_report]
    split
    · rfl
    · have pushed : ((report listed).1 ++ [(Place.mk (place.names ++ [entry.1]) (place.depth + 1) entry.2).entry], (report listed).2) =
          report (listed.1 ++ [Place.mk (place.names ++ [entry.1]) (place.depth + 1) entry.2], listed.2) := by
        simp [report]
      have named : (Place.mk (place.names ++ [entry.1]) (place.depth + 1) entry.2).entry =
          ⟨if absolute '/' place.names = ['/'] then '/' :: entry.1 else absolute '/' place.names ++ '/' :: entry.1, entry.1,
            place.depth + 1, entryType entry.2.mode, entry.2.size⟩ := by
        simp [Place.entry, Place.name, path_child tree at_]
      dsimp only
      rw [← named, pushed, ← path_child tree at_]
      by_cases directory : isDirectory entry.2.mode = true
      · have entered := enters _ (listed.1 ++ [Place.mk (place.names ++ [entry.1]) (place.depth + 1) entry.2], listed.2) within directory
        rw [if_pos (by rw [entryType, if_pos directory]), entered, ok_bind]
        exact later _
      · have passed := passes (Place.mk (place.names ++ [entry.1]) (place.depth + 1) entry.2)
          (listed.1 ++ [Place.mk (place.names ++ [entry.1]) (place.depth + 1) entry.2], listed.2) (Bool.not_eq_true _ ▸ directory)
        rw [if_neg (by rw [entryType, if_neg directory]; split <;> decide), passed]
        exact later _

end Tree

/-- There is nothing to visit below what is no directory. -/
theorem visit_other {limit : Nat} (other : isDirectory place.row.mode = false) (levels : Nat) (listed : Listed Place) :
    visit (childrenOf localeCompare volume hidden) limit levels place listed = listed := by
  cases levels with
  | zero => rfl
  | succ levels =>
    have none_ : childrenOf localeCompare volume hidden place = [] := by
      rw [childrenOf, other]
      rfl
    rw [visit, none_]
    exact ite_self listed

/-- The walk reports what the bounded visit lists. Induction on the levels that are left. -/
theorem walk_eq (tree : volume.DirectoryTree) (at_ : place.At volume) (directory : isDirectory place.row.mode = true)
    (limit levels : Nat) (listed : Listed Place) :
    walk localeCompare volume limit levels (absolute '/' place.names) place.depth (report listed) =
      .ok (report (visit (childrenOf localeCompare volume (some TRASH_NAME)) limit levels place listed)) := by
  induction levels generalizing place listed with
  | zero => rfl
  | succ levels ih =>
    rw [walk, visit, childrenOf, if_pos directory]
    by_cases cut : listed.2 = true
    · have cut' : (report listed).2 = true := cut
      rw [if_pos cut, if_pos cut']
      rfl
    · have more : ¬(report listed).2 = true := cut
      rw [if_neg cut, if_neg more, sortedEntries_eq tree at_ directory, ok_bind]
      refine walkEntries_eq tree at_ (fun child listed within kind => ih within kind listed)
        (fun child listed other => visit_other other levels listed) (fun entry member => ?_) listed
      rw [List.mem_insertionSort] at member
      exact List.mem_of_mem_filter member

/-! ## The children of a directory -/

/-- What a comparison of names is for a sort. -/
structure Collates (localeCompare : Text → Text → Int) : Prop where
  total : ∀ left right, localeCompare left right ≤ 0 ∨ localeCompare right left ≤ 0
  trans : ∀ first second third, localeCompare first second ≤ 0 → localeCompare second third ≤ 0 → localeCompare first third ≤ 0

/-- The places are those of the entries of a directory, each once, in the order of their names. -/
structure InNameOrder (localeCompare : Text → Text → Int) (volume : Volume) (hidden : Option Text) (place : Place)
    (children : List Place) : Prop where
  sorted : children.Pairwise fun left right => localeCompare left.name right.name ≤ 0
  once : children.Nodup
  complete : ∀ child, child ∈ children ↔ ∃ name, child.names = place.names ++ [name] ∧ child.depth = place.depth + 1 ∧
    volume.child place.row.ino name = some child.row.ino ∧ volume.inode? child.row.ino = some child.row ∧
    ¬(place.names = [] ∧ hidden = some name)

theorem childrenOf_inNameOrder (collates : Collates localeCompare) (directory : isDirectory place.row.mode = true) :
    InNameOrder localeCompare volume hidden place (childrenOf localeCompare volume hidden place) := by
  have total : Std.Total (ByName localeCompare) := ⟨fun left right => collates.total left.1 right.1⟩
  have trans : IsTrans _ (ByName localeCompare) := ⟨fun first second third => collates.trans first.1 second.1 third.1⟩
  rw [childrenOf, if_pos directory]
  refine ⟨?_, ?_, fun child => ?_⟩
  · rw [List.pairwise_map]
    refine (List.pairwise_insertionSort (ByName localeCompare) _).imp fun before => ?_
    simpa [Place.name, ByName] using before
  · refine List.Nodup.map_on ?_ ((List.perm_insertionSort _ _).nodup_iff.mpr ?_)
    · intro left _ right _ same
      rw [Place.mk.injEq, List.append_cancel_left_eq, List.cons.injEq] at same
      exact Prod.ext same.1.1 same.2.2
    · exact ((Archive.nodup_children volume _).of_map).filter _
  · rw [List.mem_map]
    constructor
    · rintro ⟨entry, listed, rfl⟩
      rw [List.mem_insertionSort, List.mem_filter, decide_eq_true_eq] at listed
      obtain ⟨found, led, stored⟩ := Archive.mem_children.mp listed.1
      have own : entry.2.ino = found.ino := volume.inode.find?_key stored
      refine ⟨entry.1, rfl, rfl, ?_, by rw [own]; exact stored, listed.2⟩
      rw [Volume.child, led, own]
      rfl
    · rintro ⟨name, names, depth, led, stored, shown⟩
      refine ⟨(name, child.row), ?_, by rw [← names, ← depth]⟩
      rw [List.mem_insertionSort, List.mem_filter, decide_eq_true_eq]
      obtain ⟨found, entry, same⟩ := Option.map_eq_some_iff.mp led
      exact ⟨Archive.mem_children.mpr ⟨found, entry, by rw [same]; exact stored⟩, shown⟩

/-! ## The request -/

/-- Where the listing starts. -/
def TreeInput.base (input : TreeInput) (row : InodeRow) : Place := ⟨Auth.segments input.path_, 0, row⟩

/-- The answer has the first entries of the traversal, and says whether there are more. -/
def Lists (localeCompare : Text → Text → Int) (volume : Volume) (hidden : Option Text) (input : TreeInput) (depth limit : Nat)
    (row : InodeRow) : Prop :=
  readTree localeCompare volume input =
    .ok ⟨input.root, (traversal localeCompare volume hidden depth (input.base row)).take limit,
      decide (limit < (traversal localeCompare volume hidden depth (input.base row)).length)⟩

theorem readTree_eq {input : TreeInput} {depth limit : Nat} {row : InodeRow} (tree : volume.DirectoryTree)
    (deep : boundedInteger input.depth DEFAULT_DEPTH MAX_DEPTH "depth" = .ok depth)
    (limited : boundedInteger input.limit DEFAULT_LIMIT MAX_LIMIT "limit" = .ok limit) (positive : limit ≠ 0)
    (found : AgentFS.stat volume input.root = .ok row) (directory : isDirectory row.mode = true) :
    Lists localeCompare volume (some TRASH_NAME) input depth limit row := by
  have at_ : (input.base row).At volume := by
    obtain ⟨⟨shown, ino⟩, resolved, stored⟩ := bind_eq_ok.mp found
    have reached := (AgentFS.resolvePathOrThrow_ok resolved).2
    have known := required_eq_ok.mp stored
    have own : row.ino = ino := volume.inode.find?_key known
    rw [AgentFS.resolvePath_eq, TreeInput.root, Auth.fields_normalizePath] at reached
    refine ⟨?_, ?_⟩
    · show AgentFS.walk volume ROOT_INO (Auth.segments input.path_) = some row.ino
      rw [own]
      exact reached
    · show volume.inode? row.ino = some row
      rw [own]
      exact known
  have walked := @walk_eq localeCompare volume (input.base row) tree at_ directory limit depth ([], false)
  unfold Lists readTree
  rw [deep, ok_bind, limited, ok_bind, refuse_of_not positive, ok_bind, found, ok_bind]
  dsimp only
  rw [refuse_of_not (by rw [directory]; simp), ok_bind]
  rw [visit_start] at walked
  change walk localeCompare volume limit depth input.root 0 ([], false) = _ at walked
  rw [walked, ok_bind, report, traversal, List.map_take, List.length_map]
  rfl

end TreeListing

/-- A listing has the first entries of the preorder, down to its depth and with the children of each directory in the order of
their names, without the trash; and it is marked as cut just where there are more. -/
theorem read_tree_lists {localeCompare : Text → Text → Int} {volume : Volume} {input : TreeListing.TreeInput} {depth limit : Nat}
    {row : InodeRow} (collates : TreeListing.Collates localeCompare) (tree : volume.DirectoryTree)
    (deep : TreeListing.boundedInteger input.depth TreeListing.DEFAULT_DEPTH TreeListing.MAX_DEPTH "depth" = .ok depth)
    (limited : TreeListing.boundedInteger input.limit TreeListing.DEFAULT_LIMIT TreeListing.MAX_LIMIT "limit" = .ok limit)
    (positive : limit ≠ 0) (found : AgentFS.stat volume input.root = .ok row) (directory : isDirectory row.mode = true) :
    TreeListing.Lists localeCompare volume (some TRASH_NAME) input depth limit row ∧
      ∀ place : TreeListing.Place, isDirectory place.row.mode = true → TreeListing.InNameOrder localeCompare volume (some TRASH_NAME)
        place (TreeListing.childrenOf localeCompare volume (some TRASH_NAME) place) :=
  ⟨TreeListing.readTree_eq tree deep limited positive found directory,
    fun _ inner => TreeListing.childrenOf_inNameOrder collates inner⟩

namespace TreeListing

/-- Names in the order of their code points. -/
def compareCodes (left right : Text) : Int := if left.map Char.toNat ≤ right.map Char.toNat then 0 else 1

theorem compareCodes_le {left right : Text} : compareCodes left right ≤ 0 ↔ left.map Char.toNat ≤ right.map Char.toNat := by
  unfold compareCodes
  split <;> simp_all

theorem compareCodes_collates : Collates compareCodes where
  total left right := by
    rw [compareCodes_le, compareCodes_le]
    exact le_total _ _
  trans first second third := by
    rw [compareCodes_le, compareCodes_le, compareCodes_le]
    exact le_trans

/-- The trash, and a directory `/a` with a file. -/
def treeSample : Volume :=
  { Volume.fresh 0 with
    inode := ⟨[InodeRow.root 0, { InodeRow.create DEFAULT_DIR_MODE 0 0 0 with ino := 2, nlink := 1 },
      { InodeRow.create DEFAULT_DIR_MODE 0 0 0 with ino := 3, nlink := 1 },
      { InodeRow.create DEFAULT_FILE_MODE 0 0 0 with ino := 4, nlink := 1 }], by decide⟩
    dentry := ⟨[⟨".airyfs-trash".toList, 1, 2⟩, ⟨"a".toList, 1, 3⟩, ⟨"x".toList, 3, 4⟩], by decide⟩
    inodeSequence := 4 }

theorem treeSample_tree : treeSample.DirectoryTree :=
  .of_entries (by decide) (by decide) (by decide) (by decide) (by decide) (by decide) (by decide)

def sampleInput (limit : Int) : TreeInput := ⟨none, none, some (.integer limit)⟩

end TreeListing

theorem read_tree_lists_sample : TreeListing.Lists TreeListing.compareCodes TreeListing.treeSample (some TRASH_NAME)
    (TreeListing.sampleInput 1) 20 1 (InodeRow.root 0) :=
  (read_tree_lists TreeListing.compareCodes_collates TreeListing.treeSample_tree rfl rfl (by decide) rfl (by decide)).1

/-- The trash in the root of the volume is not listed. -/
theorem read_tree_hides_trash : TreeListing.treeSample.DirectoryTree ∧
    ¬TreeListing.Lists TreeListing.compareCodes TreeListing.treeSample none (TreeListing.sampleInput 5) 20 5 (InodeRow.root 0) := by
  refine ⟨TreeListing.treeSample_tree, fun lists => ?_⟩
  have listed : TreeListing.Lists TreeListing.compareCodes TreeListing.treeSample (some TRASH_NAME) (TreeListing.sampleInput 5) 20 5
      (InodeRow.root 0) := TreeListing.readTree_eq TreeListing.treeSample_tree rfl rfl (by decide) rfl (by decide)
  have same := congrArg (fun response => response.entries.length) (Except.ok.inj (listed.symm.trans lists))
  revert same
  decide

end AiryFS
