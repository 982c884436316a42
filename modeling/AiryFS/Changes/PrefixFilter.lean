import AiryFS.Changes.Polling

/-! Which events a prefix selects.

The statement compares the first characters of a path with the prefix, and it counts them
as JavaScript counts code units. Beyond the basic plane the two counts differ.
-/

set_option autoImplicit false

namespace AiryFS

open Foundation

namespace Feed

variable (feed : Feed)

instance (pathPrefix path : Text) : Decidable (Under pathPrefix path) := inferInstanceAs (Decidable (_ ∨ _))

instance (pathPrefix : Text) (row : ChangeRow) : Decidable (Matches pathPrefix row) := inferInstanceAs (Decidable (_ ∨ _ ∨ _))

/-- The retained events behind the cursor that are at or below the prefix, and not in the trash. -/
def subtree (since : Nat) (pathPrefix : Text) : List ChangeRow :=
  feed.rows.filter fun row => row.seq > since && visible row && decide (Matches pathPrefix row)

/-- The page has exactly the events of the subtree. -/
def Exact (options : GetChangesOptions) (since : Nat) (pathPrefix : Text) : Prop :=
  ∃ page, feed.getChanges options = .ok page ∧ page.events = feed.subtree since pathPrefix

/-- One of the paths of the event is the prefix itself, with or without a slash at its end. -/
def Names (pathPrefix : Text) (row : ChangeRow) : Prop :=
  ∃ path, (path = row.path ∨ some path = row.oldPath) ∧ (path = pathPrefix ∨ path = pathPrefix ++ ['/'])

variable {feed} {pathPrefix path : Text} {row : ChangeRow} {options : GetChangesOptions} {since : Since}

/-! ## One event -/

theorem Plain.slashed (plain : Plain (pathPrefix ++ ['/'])) : Plain pathPrefix :=
  fun character member => plain character (List.mem_append_left _ member)

/-- Beyond the basic plane, only the prefix itself is found. -/
theorem matchesPath_of_not_plain (beyond : ¬Plain pathPrefix) :
    matchesPath pathPrefix path = true ↔ path = pathPrefix ∨ path = pathPrefix ++ ['/'] := by
  rw [matchesPath, Bool.or_eq_true, decide_eq_true_eq, startsWith_iff]
  apply or_congr_right
  constructor
  · rintro (same | ⟨plain, _⟩)
    · exact same
    · exact absurd plain.slashed beyond
  · exact .inl

theorem matchesRow_of_not_plain (beyond : ¬Plain pathPrefix) : matchesRow pathPrefix row = true ↔ Names pathPrefix row := by
  have below : pathPrefix ≠ ['/'] := by
    rintro rfl
    exact beyond (by decide)
  rw [matchesRow, Bool.or_eq_true, Bool.or_eq_true, decide_eq_true_eq, matchesPath_of_not_plain beyond, Option.any_eq_true]
  simp only [matchesPath_of_not_plain beyond, below, false_or]
  constructor
  · rintro (here | ⟨old, stored, there⟩)
    · exact ⟨row.path, .inl rfl, here⟩
    · exact ⟨old, .inr stored.symm, there⟩
  · rintro ⟨path, rfl | stored, same⟩
    · exact .inl same
    · exact .inr ⟨path, stored.symm, same⟩

theorem Names.matches (names : Names pathPrefix row) : Matches pathPrefix row := by
  have under : ∀ {path}, path = pathPrefix ∨ path = pathPrefix ++ ['/'] → Under pathPrefix path := by
    rintro path (same | rfl)
    · exact .inl same
    · exact .inr List.prefix_rfl
  obtain ⟨path, rfl | stored, same⟩ := names
  · exact .inr (.inl (under same))
  · exact .inr (.inr ⟨path, stored.symm, under same⟩)

/-- An event that the statement finds is one of the subtree. -/
theorem matches_of_matchesRow (found : matchesRow pathPrefix row = true) : Matches pathPrefix row := by
  by_cases plain : Plain pathPrefix
  · exact (matchesRow_iff plain row).mp found
  · exact ((matchesRow_of_not_plain plain).mp found).matches

/-- Where both lists are filtered from one, they are the same if the same events are kept. -/
theorem filter_eq_filter {α : Type} {values : List α} {first second : α → Bool} :
    values.filter first = values.filter second ↔ ∀ value ∈ values, first value = second value := by
  constructor
  · intro same value member
    rw [Bool.eq_iff_iff]
    have kept : value ∈ values.filter first ↔ value ∈ values.filter second := by rw [same]
    simpa [List.mem_filter, member] using kept
  · exact List.filter_congr

/-! ## The page -/

theorem getChanges_events (accepted : resolveSince options.since feed.latestChangeSeq = .ok since)
    (normal : normalizePrefix pathPrefix = .ok pathPrefix) (given : options.pathPrefix = some pathPrefix) :
    ∃ page, feed.getChanges options = .ok page ∧ page.events =
      (feed.rows.filter fun row => row.seq > since.seq && visible row && matchesRow pathPrefix row).take (clampLimit options.limit) := by
  unfold getChanges
  dsimp only
  rw [given, Option.elim_some, accepted, normal]
  exact ⟨_, rfl, rfl⟩

/-- The page is exact for a prefix in the basic plane, and beyond it only when the events of the subtree name the prefix itself. -/
theorem prefix_exact_iff (accepted : resolveSince options.since feed.latestChangeSeq = .ok since)
    (normal : normalizePrefix pathPrefix = .ok pathPrefix) (given : options.pathPrefix = some pathPrefix)
    (sufficient : (feed.subtree since.seq pathPrefix).length ≤ clampLimit options.limit) :
    feed.Exact options since.seq pathPrefix ↔ Plain pathPrefix ∨ ∀ row ∈ feed.subtree since.seq pathPrefix, Names pathPrefix row := by
  obtain ⟨page, read, events⟩ := getChanges_events accepted normal given
  have found : (feed.rows.filter fun row => row.seq > since.seq && visible row && matchesRow pathPrefix row).Sublist
      (feed.subtree since.seq pathPrefix) := by
    apply List.monotone_filter_right
    intro row
    simp only [Bool.and_eq_true, decide_eq_true_eq]
    exact fun ⟨kept, found⟩ => ⟨kept, matches_of_matchesRow found⟩
  rw [List.take_of_length_le (found.length_le.trans sufficient)] at events
  have exact_ : feed.Exact options since.seq pathPrefix ↔
      ∀ row ∈ feed.rows, row.seq > since.seq → visible row = true → Matches pathPrefix row → matchesRow pathPrefix row = true := by
    have unique : feed.Exact options since.seq pathPrefix ↔ page.events = feed.subtree since.seq pathPrefix := by
      constructor
      · rintro ⟨other, again, same⟩
        rw [← Except.ok.inj (again.symm.trans read)]
        exact same
      · exact fun same => ⟨page, read, same⟩
    rw [unique, events, subtree, filter_eq_filter]
    apply forall₂_congr
    intro row _
    rw [Bool.eq_iff_iff]
    simp only [Bool.and_eq_true, decide_eq_true_eq]
    constructor
    · exact fun same after visible matches_ => (same.mpr ⟨⟨after, visible⟩, matches_⟩).2
    · intro kept
      constructor
      · exact fun ⟨selected, found⟩ => ⟨selected, matches_of_matchesRow found⟩
      · exact fun ⟨⟨after, visible⟩, matches_⟩ => ⟨⟨after, visible⟩, kept after visible matches_⟩
  rw [exact_]
  by_cases plain : Plain pathPrefix
  · simp only [plain, true_or, iff_true]
    exact fun row _ _ _ matches_ => (matchesRow_iff plain row).mpr matches_
  · simp only [plain, false_or, matchesRow_of_not_plain plain]
    constructor
    · intro kept row member
      obtain ⟨stored, chosen⟩ := List.mem_filter.mp member
      simp only [Bool.and_eq_true, decide_eq_true_eq] at chosen
      exact kept row stored chosen.1.1 chosen.1.2 chosen.2
    · intro named row stored after visible matches_
      apply named row
      simp [subtree, stored, after, visible, matches_]

/-- A file below a directory that is named with one character. -/
def created (name : Text) : Feed := Feed.initial.record ⟨.create, '/' :: name ++ "/a".toList, none, 3, 0⟩

theorem prefix_exact_latin : (created ['d']).Exact ⟨some (.integer 0), none, some ['/', 'd']⟩ 0 ['/', 'd'] :=
  (@prefix_exact_iff (created ['d']) ['/', 'd'] ⟨some (.integer 0), none, some ['/', 'd']⟩ ⟨0, false⟩ (by decide +kernel)
    (by decide +kernel) rfl (by decide +kernel)).mpr (.inl (by decide))

/-- Of a directory beyond the basic plane, no event is found. -/
theorem prefix_inexact : ¬∀ (feed : Feed) (options : GetChangesOptions) (since : Since) (pathPrefix : Text),
    resolveSince options.since feed.latestChangeSeq = .ok since → normalizePrefix pathPrefix = .ok pathPrefix →
      options.pathPrefix = some pathPrefix → (feed.subtree since.seq pathPrefix).length ≤ clampLimit options.limit →
        feed.Exact options since.seq pathPrefix := by
  intro always
  obtain ⟨page, read, events⟩ := always (created ['😀']) ⟨some (.integer 0), none, some ['/', '😀']⟩ ⟨0, false⟩ ['/', '😀']
    (by decide +kernel) (by decide +kernel) rfl (by decide +kernel)
  have missed : ((created ['😀']).getChanges ⟨some (.integer 0), none, some ['/', '😀']⟩).toOption.map ChangePage.events = some [] := by
    decide +kernel
  rw [read] at missed
  have none_ : page.events = [] := Option.some.inj missed
  have one : ((created ['😀']).subtree 0 ['/', '😀']).length = 1 := by decide +kernel
  rw [events] at none_
  rw [none_] at one
  cases one

end Feed

end AiryFS
