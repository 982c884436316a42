import AiryFS.Snapshots.Paths

/-! What a diff lists.

The comparison of two streams of chunks is one of their bytes, however they are cut. So a diff
lists the paths that differ, with the chunk rows as the contents.
-/

set_option autoImplicit false

namespace AiryFS

open Foundation

/-! ## Streams of chunks -/

theorem pull_bytes (buffer : Bytes) (done : Bool) (chunks : List Bytes) :
    (pull buffer done chunks).buffer ++ (pull buffer done chunks).chunks.flatten = buffer ++ chunks.flatten := by
  induction chunks generalizing buffer with
  | nil => rfl
  | cons chunk chunks ih =>
    unfold pull
    split
    · rw [ih, List.flatten_cons, List.append_assoc]
    · rfl

/-- A stream without a byte to compare is at its end. -/
theorem pull_done {buffer : Bytes} {done : Bool} {chunks : List Bytes} (ended : done = true → chunks = [])
    (empty : (pull buffer done chunks).buffer.length = 0) :
    (pull buffer done chunks).done = true ∧ (pull buffer done chunks).chunks = [] := by
  induction chunks generalizing buffer with
  | nil =>
    have none : buffer.length = 0 := empty
    unfold pull
    simp [none]
  | cons chunk chunks ih =>
    have open_ : done = false := by
      by_contra other
      cases ended (by simpa using other)
    unfold pull at empty ⊢
    split
    · rename_i pulled
      rw [if_pos pulled] at empty
      exact ih (fun closed => by rw [open_] at closed; cases closed) empty
    · rename_i full
      rw [if_neg full] at empty
      exact absurd ⟨empty, open_⟩ full

theorem pull_ended {buffer : Bytes} {done : Bool} {chunks : List Bytes} (ended : done = true → chunks = []) :
    (pull buffer done chunks).done = true → (pull buffer done chunks).chunks = [] := by
  induction chunks generalizing buffer with
  | nil => exact fun _ => rfl
  | cons chunk chunks ih =>
    have open_ : done = false := by
      by_contra other
      cases ended (by simpa using other)
    unfold pull
    split
    · exact ih fun closed => by rw [open_] at closed; cases closed
    · intro closed
      rw [open_] at closed
      cases closed

namespace ChunkCursor

def rest (cursor : ChunkCursor) : Bytes := cursor.buffer ++ cursor.chunks.flatten

/-- A stream that has said that it is at its end has nothing more. -/
def Honest (cursor : ChunkCursor) : Prop := cursor.done = true → cursor.chunks = []

end ChunkCursor

/-- Two streams are compared as the bytes that they hold. -/
theorem contentsEqualFrom_eq {rounds : Nat} {left right : ChunkCursor} (honest : left.Honest) (honest' : right.Honest)
    (enough : left.rest.length < rounds) : contentsEqualFrom rounds left right = decide (left.rest = right.rest) := by
  induction rounds generalizing left right with
  | zero => exact absurd enough (Nat.not_lt_zero _)
  | succ rounds ih =>
    unfold contentsEqualFrom
    dsimp only
    have bytes : (pull left.buffer left.done left.chunks).rest = left.rest := pull_bytes _ _ _
    have bytes' : (pull right.buffer right.done right.chunks).rest = right.rest := pull_bytes _ _ _
    have done := fun empty => @pull_done left.buffer left.done left.chunks honest empty
    have done' := fun empty => @pull_done right.buffer right.done right.chunks honest' empty
    have ended : (pull left.buffer left.done left.chunks).Honest := pull_ended honest
    have ended' : (pull right.buffer right.done right.chunks).Honest := pull_ended honest'
    rw [← bytes] at enough
    rw [← bytes, ← bytes']
    clear bytes bytes'
    generalize pull left.buffer left.done left.chunks = first at *
    generalize pull right.buffer right.done right.chunks = second at *
    split
    · rename_i both
      obtain ⟨closed, nothing⟩ := done both.1
      obtain ⟨closed', nothing'⟩ := done' both.2
      have same : first.rest = second.rest := by
        rw [ChunkCursor.rest, ChunkCursor.rest, nothing, nothing', List.length_eq_zero_iff.mp both.1,
          List.length_eq_zero_iff.mp both.2]
      simp [closed, closed', same]
    · rename_i some
      split
      · -- Only one of them has a byte left.
        rename_i one
        symm
        rw [decide_eq_false_iff_not]
        intro same
        have lengths := congrArg List.length same
        unfold ChunkCursor.rest at lengths
        rw [List.length_append, List.length_append] at lengths
        rcases Nat.min_eq_zero_iff.mp one with empty | empty
        · rw [(done empty).2] at lengths
          simp only [List.flatten_nil, List.length_nil] at lengths
          omega
        · rw [(done' empty).2] at lengths
          simp only [List.flatten_nil, List.length_nil] at lengths
          omega
      · rename_i more
        have within : min first.buffer.length second.buffer.length ≤ first.buffer.length := Nat.min_le_left _ _
        have within' : min first.buffer.length second.buffer.length ≤ second.buffer.length := Nat.min_le_right _ _
        generalize min first.buffer.length second.buffer.length = n at *
        have split : first.rest = first.buffer.take n ++ (first.buffer.drop n ++ first.chunks.flatten) := by
          rw [← List.append_assoc, List.take_append_drop]
          rfl
        have split' : second.rest = second.buffer.take n ++ (second.buffer.drop n ++ second.chunks.flatten) := by
          rw [← List.append_assoc, List.take_append_drop]
          rfl
        have length : (first.buffer.take n).length = (second.buffer.take n).length := by
          rw [List.length_take, List.length_take]
          omega
        split
        · rename_i differ
          symm
          rw [decide_eq_false_iff_not]
          intro same
          rw [split, split'] at same
          exact differ (List.append_inj same length).1
        · rename_i agree
          have equal : first.buffer.take n = second.buffer.take n := by simpa using agree
          rw [ih]
          · apply decide_eq_decide.mpr
            rw [split, split', equal, List.append_cancel_left_eq]
            rfl
          · exact ended
          · exact ended'
          · unfold ChunkCursor.rest at enough ⊢
            rw [List.length_append] at enough ⊢
            dsimp only
            rw [List.length_drop]
            omega

namespace FsStateView

variable {base target : Volume} {a b : Int}

theorem fileContentsEqual_live : (live base).fileContentsEqual a (live target) b =
    decide (base.wholeBytes a = target.wholeBytes b) := by
  have rest : ∀ (volume : Volume) (ino : Int), (⟨[], (live volume).chunks ino, false⟩ : ChunkCursor).rest =
      volume.wholeBytes ino := by
    intro volume ino
    rw [ChunkCursor.rest, chunks_live]
    rfl
  have honest : ∀ chunks : List Bytes, (⟨[], chunks, false⟩ : ChunkCursor).Honest := fun _ closed => by cases closed
  unfold fileContentsEqual
  rw [fileBytes_live, fileBytes_live]
  split
  · rename_i lengths
    symm
    rw [decide_eq_false_iff_not]
    intro same
    exact lengths (congrArg List.length same)
  · rw [contentsEqualFrom_eq (honest _) (honest _) (by rw [rest]; omega), rest, rest]

end FsStateView

/-! ## One path -/

namespace Volume

def linkTarget (volume : Volume) (ino : Int) : Text := (volume.symlink.find? ino).elim [] (·.target)

/-- What differs between an inode here and one there, given the content of each. -/
def Changed (base target : Volume) (content content' : Int → Bytes) (a b : Int) : Prop :=
  base.kindAt a ≠ target.kindAt b ∨ (base.inode? a).map META_FIELDS ≠ (target.inode? b).map META_FIELDS ∨
    (target.kindAt b = .symlink ∧ base.linkTarget a ≠ target.linkTarget b) ∨
      (target.kindAt b = .file ∧ content a ≠ content' b)

instance (base target : Volume) (content content' : Int → Bytes) (a b : Int) :
    Decidable (Changed base target content content' a b) := inferInstanceAs (Decidable (_ ∨ _))

/-- The change that a path undergoes. -/
def change (base target : Volume) (content content' : Int → Bytes) (path : List Text) : Option DiffChange :=
  match base.locate ROOT_INO path, target.locate ROOT_INO path with
  | none, none => none
  | some _, none => some .removed
  | none, some _ => some .added
  | some a, some b => if Changed base target content content' a b then some .modified else none

variable {base target : Volume} {path : List Text} {a b : Int}

theorem modifiedEntry_live (located : base.locate ROOT_INO path = some a) (located' : target.locate ROOT_INO path = some b) :
    modifiedEntry (.live base) (.live target) (base.entryAt path a) (target.entryAt path b) =
      if Changed base target base.wholeBytes target.wholeBytes a b then
        some ⟨absolute '/' path, .modified, target.kindAt b⟩ else none := by
  obtain ⟨row, stored⟩ := locate_stored located
  obtain ⟨row', stored'⟩ := locate_stored located'
  have targetOf : ∀ (volume : Volume) (ino : Int), ((FsStateView.live volume).symlinkTarget ino).getD [] = volume.linkTarget ino := by
    intro volume ino
    rw [FsStateView.symlinkTarget_live, linkTarget]
    cases volume.symlink.find? ino <;> rfl
  have spelled : Changed base target base.wholeBytes target.wholeBytes a b ↔ base.kindAt a ≠ target.kindAt b ∨
      META_FIELDS row ≠ META_FIELDS row' ∨ (target.kindAt b = .symlink ∧ base.linkTarget a ≠ target.linkTarget b) ∨
        (target.kindAt b = .file ∧ base.wholeBytes a ≠ target.wholeBytes b) := by
    unfold Changed
    rw [stored, stored', Option.map_some, Option.map_some, ne_eq, ne_eq, Option.some.injEq]
  unfold modifiedEntry entryAt
  dsimp only
  rw [FsStateView.inodeMeta_live, FsStateView.inodeMeta_live, stored, stored', targetOf, targetOf,
    FsStateView.fileContentsEqual_live]
  dsimp only
  by_cases kinds : base.kindAt a = target.kindAt b
  · rw [if_neg (by simpa using kinds)]
    by_cases metadata : META_FIELDS row = META_FIELDS row'
    · rw [if_neg (by simp [metadataEqual, metadata])]
      cases kind : target.kindAt b with
      | symlink =>
        have only : Changed base target base.wholeBytes target.wholeBytes a b ↔ base.linkTarget a ≠ target.linkTarget b := by
          rw [spelled]
          simp [kinds, kind, metadata]
        simp only [only]
      | file =>
        have only : Changed base target base.wholeBytes target.wholeBytes a b ↔ base.wholeBytes a ≠ target.wholeBytes b := by
          rw [spelled]
          simp [kinds, kind, metadata]
        by_cases same : base.wholeBytes a = target.wholeBytes b
        · simp [only, same]
        · simp [only, same]
      | directory =>
        have unchanged : ¬Changed base target base.wholeBytes target.wholeBytes a b := by
          rw [spelled]
          simp [kinds, kind, metadata]
        rw [if_neg unchanged]
      | other =>
        have unchanged : ¬Changed base target base.wholeBytes target.wholeBytes a b := by
          rw [spelled]
          simp [kinds, kind, metadata]
        rw [if_neg unchanged]
    · rw [if_pos (by simp [metadataEqual, metadata]), if_pos (spelled.mpr (.inr (.inl metadata)))]
  · rw [if_pos kinds, if_pos (spelled.mpr (.inl kinds))]

theorem diffEntry_live (treelike : base.Treelike) (treelike' : target.Treelike) (separable : Separable '/' path) :
    (diffEntry (.live base) (.live target) (FsStateView.live base).paths (FsStateView.live target).paths (absolute '/' path)).map
      (fun entry => (entry.path, entry.change)) =
        (base.change target base.wholeBytes target.wholeBytes path).map fun change => (absolute '/' path, change) := by
  unfold diffEntry change
  rw [FsStateView.find?_paths treelike separable, FsStateView.find?_paths treelike' separable]
  cases located : base.locate ROOT_INO path with
  | none => cases target.locate ROOT_INO path <;> rfl
  | some a =>
    cases located' : target.locate ROOT_INO path with
    | none => rfl
    | some b =>
      dsimp only [Option.map_some]
      rw [modifiedEntry_live located located']
      split_ifs <;> rfl

/-- Without holes it does not matter whether the chunks or the contents are compared. -/
theorem changed_congr {content content' other other' : Int → Bytes}
    (same : base.kindAt a = .file → target.kindAt b = .file → (base.inode? a).map META_FIELDS = (target.inode? b).map META_FIELDS →
      (content a = content' b ↔ other a = other' b)) :
    Changed base target content content' a b ↔ Changed base target other other' a b := by
  unfold Changed
  by_cases kinds : base.kindAt a = target.kindAt b
  · by_cases metadata : (base.inode? a).map META_FIELDS = (target.inode? b).map META_FIELDS
    · by_cases file : target.kindAt b = .file
      · simp only [ne_eq, same (kinds.trans file) file metadata]
      · simp [file]
    · simp [metadata]
  · simp [kinds]

theorem change_congr {content content' other other' : Int → Bytes}
    (same : ∀ a b, base.locate ROOT_INO path = some a → target.locate ROOT_INO path = some b →
      (Changed base target content content' a b ↔ Changed base target other other' a b)) :
    base.change target content content' path = base.change target other other' path := by
  unfold change
  cases located : base.locate ROOT_INO path with
  | none => cases target.locate ROOT_INO path <;> rfl
  | some a =>
    cases located' : target.locate ROOT_INO path with
    | none => rfl
    | some b => simp only [same a b located located']

theorem not_changed_self (volume : Volume) (content : Int → Bytes) (ino : Int) : ¬Changed volume volume content content ino ino := by
  simp [Changed]

theorem change_self (volume : Volume) (content : Int → Bytes) (path : List Text) :
    volume.change volume content content path = none := by
  unfold change
  cases volume.locate ROOT_INO path with
  | none => rfl
  | some ino =>
    dsimp only
    rw [if_neg (not_changed_self volume content ino)]

end Volume

def DiffChange.swap : DiffChange → DiffChange
  | added => removed
  | removed => added
  | modified => modified

namespace Volume

variable {base target : Volume} {path : List Text} {a b : Int}

theorem changed_comm {content content' : Int → Bytes} :
    Changed base target content content' a b ↔ Changed target base content' content b a := by
  unfold Changed
  by_cases kinds : base.kindAt a = target.kindAt b
  · by_cases metadata : (base.inode? a).map META_FIELDS = (target.inode? b).map META_FIELDS
    · simp only [kinds, metadata, ne_eq, not_true_eq_false, false_or, eq_comm]
    · simp [metadata, Ne.symm metadata]
  · simp [kinds, Ne.symm kinds]

theorem change_swap (base target : Volume) (content content' : Int → Bytes) (path : List Text) :
    target.change base content' content path = (base.change target content content' path).map DiffChange.swap := by
  unfold change
  cases base.locate ROOT_INO path with
  | none => cases target.locate ROOT_INO path <;> rfl
  | some a =>
    cases target.locate ROOT_INO path with
    | none => rfl
    | some b =>
      dsimp only
      by_cases changed : Changed base target content content' a b
      · rw [if_pos changed, if_pos (changed_comm.mp changed)]
        rfl
      · rw [if_neg changed, if_neg fun other => changed (changed_comm.mpr other)]
        rfl

end Volume

/-! ## All paths -/

theorem diffEntry_path {base target : FsStateView} {basePaths targetPaths : List PathEntry} {path : Text}
    {entry : SnapshotDiffEntry} (found : diffEntry base target basePaths targetPaths path = some entry) : entry.path = path := by
  unfold diffEntry at found
  split at found
  · rw [← Option.some.inj found]
  · rw [← Option.some.inj found]
  · rename_i inBase inTarget _ located
    have same : inTarget.path = path := by simpa using List.find?_some located
    unfold modifiedEntry at found
    dsimp only at found
    rw [same] at found
    repeat' split at found
    all_goals first
      | rw [← Option.some.inj found]
      | cases found
  · cases found

/-- A diff names each path once, in the order of the paths. -/
theorem diffStates_sorted (base target : FsStateView) :
    ((diffStates base target).map (·.path)).Nodup ∧
      (diffStates base target).Pairwise fun first second => Archive.utf16 first.path ≤ Archive.utf16 second.path := by
  unfold diffStates
  dsimp only
  constructor
  · rw [((List.perm_insertionSort _ _).map _).nodup_iff, List.Nodup, List.pairwise_map]
    refine List.Pairwise.filterMap _ ?_ ((List.nodup_dedup _).filter _)
    intro first second different entry found entry' found'
    rw [diffEntry_path found, diffEntry_path found']
    exact different
  · exact List.pairwise_insertionSort _ _

theorem mem_diffStates {base target : Volume} (treelike : base.Treelike) (treelike' : target.Treelike) {path : Text}
    {change : DiffChange} : (∃ entry ∈ diffStates (.live base) (.live target), entry.path = path ∧ entry.change = change) ↔
      ∃ names, names ≠ [] ∧ Separable '/' names ∧ path = absolute '/' names ∧
        base.change target base.wholeBytes target.wholeBytes names = some change := by
  have listed : ∀ {text : Text}, text ∈ (((FsStateView.live base).paths ++ (FsStateView.live target).paths).map (·.path)).dedup.filter
      (fun path => path ≠ ['/']) ↔ ∃ names, names ≠ [] ∧ Separable '/' names ∧ text = absolute '/' names ∧
        (base.locate ROOT_INO names ≠ none ∨ target.locate ROOT_INO names ≠ none) := by
    intro text
    rw [List.mem_filter, List.mem_dedup, List.mem_map]
    constructor
    · rintro ⟨⟨entry, member, rfl⟩, below⟩
      have known : ∃ names ino, (base.locate ROOT_INO names = some ino ∨ target.locate ROOT_INO names = some ino) ∧
          entry.path = absolute '/' names ∧ Separable '/' names := by
        rcases List.mem_append.mp member with left | right
        · obtain ⟨names, ino, located, rfl⟩ := (FsStateView.mem_paths treelike).mp left
          exact ⟨names, ino, .inl located, rfl, treelike.separable located⟩
        · obtain ⟨names, ino, located, rfl⟩ := (FsStateView.mem_paths treelike').mp right
          exact ⟨names, ino, .inr located, rfl, treelike'.separable located⟩
      obtain ⟨names, ino, located, spelled, separable⟩ := known
      refine ⟨names, ?_, separable, spelled, ?_⟩
      · rintro rfl
        rw [spelled] at below
        exact absurd rfl (of_decide_eq_true below)
      · rcases located with left | right
        · left
          rw [left]
          simp
        · right
          rw [right]
          simp
    · rintro ⟨names, filled, separable, rfl, located⟩
      refine ⟨?_, ?_⟩
      · rcases located with left | right
        · obtain ⟨ino, located⟩ := Option.ne_none_iff_exists'.mp left
          exact ⟨_, List.mem_append_left _ ((FsStateView.mem_paths treelike).mpr ⟨names, ino, located, rfl⟩), rfl⟩
        · obtain ⟨ino, located⟩ := Option.ne_none_iff_exists'.mp right
          exact ⟨_, List.mem_append_right _ ((FsStateView.mem_paths treelike').mpr ⟨names, ino, located, rfl⟩), rfl⟩
      · rw [decide_eq_true_eq]
        intro root
        rcases absolute_eq_root_iff.mp root with none | blank
        · exact filled none
        · rw [blank] at separable
          exact (separable [] List.mem_cons_self).1 rfl
  constructor
  · rintro ⟨entry, member, rfl, rfl⟩
    unfold diffStates at member
    dsimp only at member
    rw [List.mem_insertionSort, List.mem_filterMap] at member
    obtain ⟨text, within, found⟩ := member
    obtain ⟨names, filled, separable, rfl, _⟩ := listed.mp within
    have changed := Volume.diffEntry_live treelike treelike' separable
    rw [found, Option.map_some, eq_comm, Option.map_eq_some_iff] at changed
    obtain ⟨change, known, same⟩ := changed
    rw [Prod.mk.injEq] at same
    exact ⟨names, filled, separable, same.1.symm, by rw [← same.2]; exact known⟩
  · rintro ⟨names, filled, separable, rfl, known⟩
    have changed := Volume.diffEntry_live treelike treelike' separable
    rw [known, Option.map_some, Option.map_eq_some_iff] at changed
    obtain ⟨entry, found, same⟩ := changed
    rw [Prod.mk.injEq] at same
    refine ⟨entry, ?_, same.1, same.2⟩
    unfold diffStates
    dsimp only
    rw [List.mem_insertionSort, List.mem_filterMap]
    refine ⟨absolute '/' names, listed.mpr ⟨names, filled, separable, rfl, ?_⟩, found⟩
    unfold Volume.change at known
    split at known
    · cases known
    · rename_i located _
      left
      rw [located]
      simp
    · rename_i _ located
      right
      rw [located]
      simp
    · rename_i located _
      left
      rw [located]
      simp

end AiryFS
