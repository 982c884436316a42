import Mathlib.Data.List.Infix
import Mathlib.Data.List.Pairwise
import Mathlib.Order.Defs.Unbundled
import Mathlib.Tactic.Common

/-! A sorted list, read in pages that each begin behind a cursor.

The cursor of the next page is what the last item of a page turns into when it is handed out and back. The pages
give the list exactly where that leaves the items behind it as they are.
-/

set_option autoImplicit false

namespace Foundation

namespace CursorPages

variable {α : Type} (r : α → α → Prop) [DecidableRel r]

/-- What is behind a cursor; everything is behind none. -/
def passes (cursor : Option α) (x : α) : Bool :=
  match cursor with
  | none => true
  | some c => decide (r c x)

structure Page (α : Type) where
  items : List α
  truncated : Bool

section
variable (names : List α) (size : Nat) (token : α → Option (Option α))

def page (cursor : Option α) : Page α :=
  let left := names.filter (passes r cursor)
  ⟨left.take size, decide (size < left.length)⟩

/-- The cursor that a page hands out. -/
def next (page : Page α) : Option (Option α) := if page.truncated then page.items.getLast?.bind token else none

/-- The pages from a cursor on, until one hands out no other. -/
def follow : Nat → Option α → Option (List (Page α))
  | 0, _ => none
  | rounds + 1, cursor =>
    match next token (page r names size cursor) with
    | none => some [page r names size cursor]
    | some cursor' => (follow rounds cursor').map fun pages => page r names size cursor :: pages

/-- Each page but the last says that there is another. -/
def Flagged (pages : List (Page α)) : Prop :=
  ∀ i (inside : i < pages.length), pages[i].truncated = true ↔ i + 1 < pages.length

/-- Where a page ends, the cursor for the next lets through what is behind the last item. -/
def Resumes : Prop :=
  ∀ front last rest, names = front ++ last :: rest → rest ≠ [] → size ∣ front.length + 1 →
    ∃ cursor, token last = some cursor ∧ ∀ x ∈ names, passes r cursor x = decide (r last x)

end

variable {r} {names done rest : List α} {size : Nat} {token : α → Option (Option α)} {cursor : Option α}

theorem flagged_cons {first : Page α} {pages : List (Page α)} (filled : pages ≠ []) :
    Flagged (first :: pages) ↔ first.truncated = true ∧ Flagged pages := by
  have some_ := List.length_pos_iff.mpr filled
  constructor
  · intro flagged
    refine ⟨(flagged 0 (by simp)).mpr (by simpa using some_), fun i inside => ?_⟩
    have shifted : pages[i].truncated = true ↔ i + 1 + 1 < (first :: pages).length := flagged (i + 1) (Nat.succ_lt_succ inside)
    exact shifted.trans Nat.succ_lt_succ_iff
  · rintro ⟨more, flagged⟩ i inside
    cases i with
    | zero => simpa [more] using some_
    | succ i =>
      simpa using flagged i (by simpa using inside)

/-- The first page is the one of the cursor, and the only one where it is not truncated. -/
theorem follow_cons {rounds : Nat} {pages : List (Page α)} (followed : follow r names size token rounds cursor = some pages) :
    ∃ tail, pages = page r names size cursor :: tail ∧ ((page r names size cursor).truncated = false → tail = []) := by
  cases rounds with
  | zero => cases followed
  | succ rounds =>
    rw [follow] at followed
    split at followed
    · cases followed
      exact ⟨[], rfl, fun _ => rfl⟩
    · rename_i issued
      obtain ⟨tail, -, rfl⟩ := Option.map_eq_some_iff.mp followed
      refine ⟨tail, rfl, fun last => ?_⟩
      rw [next, last] at issued
      cases issued

/-- A page that is full has a last item, and the rest is behind it. -/
theorem split_page (positive : 0 < size) (more : size < rest.length) : ∃ front last rest', rest = front ++ last :: rest' ∧
    rest' ≠ [] ∧ front.length + 1 = size ∧ rest.take size = front ++ [last] := by
  have inside : size - 1 < rest.length := by omega
  refine ⟨rest.take (size - 1), rest[size - 1], rest.drop size, ?_, ?_, ?_, ?_⟩
  · have split := List.take_append_drop (size - 1) rest
    rw [List.drop_eq_getElem_cons inside, Nat.sub_add_cancel positive] at split
    exact split.symm
  · intro nothing
    have short := List.drop_eq_nil_iff.mp nothing
    omega
  · rw [List.length_take]
    omega
  · have taken := List.take_concat_get' rest (size - 1) inside
    rw [Nat.sub_add_cancel positive] at taken
    exact taken.symm

section
variable [IsStrictOrder α r] (sorted : names.Pairwise r)
include sorted

/-- What is behind an item of a sorted list comes after it. -/
theorem filter_behind {front : List α} {last : α} (spelled : names = front ++ last :: rest) :
    names.filter (fun x => decide (r last x)) = rest := by
  rw [spelled, List.pairwise_append, List.pairwise_cons] at sorted
  obtain ⟨-, ⟨behind, -⟩, before⟩ := sorted
  have none_ : front.filter (fun x => decide (r last x)) = [] :=
    List.filter_eq_nil_iff.mpr fun x member passed => asymm (before x member last List.mem_cons_self) (of_decide_eq_true passed)
  rw [spelled, List.filter_append, none_, List.nil_append, List.filter_cons, if_neg (by simpa using irrefl last)]
  exact List.filter_eq_self.mpr fun x member => decide_eq_true (behind x member)

variable (token) in
omit [IsStrictOrder α r] sorted in
theorem page_of_last (left : names.filter (passes r cursor) = rest) (few : rest.length ≤ size) :
    page r names size cursor = ⟨rest, false⟩ ∧ next token (page r names size cursor) = none := by
  have same : page r names size cursor = ⟨rest, false⟩ := by
    rw [page, left, List.take_of_length_le few, decide_eq_false (by omega)]
  exact ⟨same, by rw [same]; rfl⟩

variable (token) in
omit [IsStrictOrder α r] sorted in
theorem page_of_more {front : List α} {last : α} (left : names.filter (passes r cursor) = rest) (more : size < rest.length)
    (taken : rest.take size = front ++ [last]) :
    page r names size cursor = ⟨front ++ [last], true⟩ ∧ next token (page r names size cursor) = token last := by
  have same : page r names size cursor = ⟨front ++ [last], true⟩ := by
    rw [page, left, taken, decide_eq_true more]
  refine ⟨same, ?_⟩
  rw [same, next, if_pos rfl, List.getLast?_concat, Option.bind_some]

theorem follow_complete (positive : 0 < size) (resumes : Resumes r names size token) {rounds : Nat} (split : names = done ++ rest)
    (paged : size ∣ done.length) (left : names.filter (passes r cursor) = rest) (enough : rest.length < rounds) :
    ∃ pages, follow r names size token rounds cursor = some pages ∧ pages.flatMap Page.items = rest ∧ Flagged pages := by
  induction rounds generalizing done rest cursor with
  | zero => omega
  | succ rounds ih =>
    by_cases few : rest.length ≤ size
    · obtain ⟨same, last⟩ := page_of_last token left few
      refine ⟨[⟨rest, false⟩], by rw [follow, last, same], by simp, fun i inside => ?_⟩
      rw [List.length_singleton] at inside ⊢
      obtain rfl : i = 0 := by omega
      simp
    · have more : size < rest.length := by omega
      obtain ⟨front, last, rest', spelled, filled, width, taken⟩ := split_page positive more
      obtain ⟨same, handed⟩ := page_of_more token left more taken
      have whole : names = (done ++ front) ++ last :: rest' := by rw [split, spelled, List.append_assoc]
      have paged' : size ∣ (done ++ front).length + 1 := by
        rw [List.length_append, Nat.add_assoc, width]
        exact Nat.dvd_add paged (Nat.dvd_refl size)
      obtain ⟨cursor', issued, lets⟩ := resumes _ last rest' whole filled paged'
      have left' : names.filter (passes r cursor') = rest' := by
        rw [List.filter_congr lets]
        exact filter_behind sorted whole
      have shorter : rest'.length < rounds := by
        rw [spelled, List.length_append, List.length_cons] at enough
        omega
      obtain ⟨pages, followed, items, flagged⟩ := @ih (done ++ front ++ [last]) _ _ (by rw [whole]; simp)
        (by rw [List.length_append, List.length_singleton]; exact paged') left' shorter
      refine ⟨⟨front ++ [last], true⟩ :: pages, ?_, ?_, (flagged_cons (by obtain ⟨_, rfl, -⟩ := follow_cons followed; exact List.cons_ne_nil _ _)).mpr ⟨rfl, flagged⟩⟩
      · rw [follow, handed, issued]
        dsimp only
        rw [followed, same]
        rfl
      · rw [List.flatMap_cons, items, spelled, List.append_assoc]
        rfl

omit sorted in
theorem passes_trans {x y : α} (passed : passes r cursor x = true) (before : r x y) : passes r cursor y = true := by
  cases cursor with
  | none => rfl
  | some c => exact decide_eq_true (IsTrans.trans _ _ _ (of_decide_eq_true passed) before)

/-- The first item behind the cursor says where in the list the cursor is. -/
theorem passes_of_first {front : List α} {last y : α} (spelled : names = front ++ last :: y :: rest)
    (first : (names.filter (passes r cursor)).head? = some y) : ∀ x ∈ names, passes r cursor x = decide (r last x) := by
  obtain ⟨tail, kept⟩ := List.head?_eq_some_iff.mp first
  have ordered : (names.filter (passes r cursor)).Pairwise r := sorted.sublist List.filter_sublist
  rw [kept, List.pairwise_cons] at ordered
  have passed : passes r cursor y = true := (List.mem_filter.mp (kept ▸ List.mem_cons_self)).2
  rw [spelled, List.pairwise_append, List.pairwise_cons, List.pairwise_cons] at sorted
  obtain ⟨-, ⟨behind, after, -⟩, before⟩ := sorted
  intro x member
  have placed := member
  rw [spelled, List.mem_append, List.mem_cons, List.mem_cons] at placed
  -- Up to the last item nothing comes behind the first that passes.
  have early (earlier : r x y) : passes r cursor x = false := by
    cases passes_ : passes r cursor x with
    | false => rfl
    | true =>
      have inside : x ∈ y :: tail := kept ▸ List.mem_filter.mpr ⟨member, passes_⟩
      rcases List.mem_cons.mp inside with rfl | later
      · exact (irrefl x earlier).elim
      · exact (asymm earlier (ordered.1 x later)).elim
  rcases placed with inFront | rfl | rfl | later
  · rw [early (before x inFront y (by simp)), decide_eq_false (asymm (before x inFront last List.mem_cons_self))]
  · rw [early (behind y List.mem_cons_self), decide_eq_false (irrefl x)]
  · rw [passed, decide_eq_true (behind x List.mem_cons_self)]
  · rw [passes_trans passed (after x later), decide_eq_true (behind x (List.mem_cons_of_mem _ later))]

theorem resumes_of_follow (positive : 0 < size) {rounds : Nat} {pages : List (Page α)} (split : names = done ++ rest)
    (paged : size ∣ done.length) (left : names.filter (passes r cursor) = rest)
    (followed : follow r names size token rounds cursor = some pages) (items : pages.flatMap Page.items = rest)
    (flagged : Flagged pages) {front : List α} {last : α} {behind : List α} (spelled : names = front ++ last :: behind)
    (filled : behind ≠ []) (boundary : size ∣ front.length + 1) (later : done.length ≤ front.length) :
    ∃ cursor, token last = some cursor ∧ ∀ x ∈ names, passes r cursor x = decide (r last x) := by
  induction rounds generalizing done rest cursor pages with
  | zero => cases followed
  | succ rounds ih =>
    have ahead : done.length + size ≤ front.length + 1 := by
      obtain ⟨k, width⟩ := paged
      obtain ⟨l, width'⟩ := boundary
      have above : size * k < size * l := by omega
      have step := Nat.mul_le_mul_left size (Nat.lt_of_mul_lt_mul_left above)
      rw [Nat.mul_succ] at step
      omega
    have some_ := List.length_pos_iff.mpr filled
    have lengths : done.length + rest.length = front.length + (behind.length + 1) := by
      have both := congrArg List.length (split.symm.trans spelled)
      simpa using both
    have more : size < rest.length := by omega
    obtain ⟨front', last', rest', spelled', filled', width, taken⟩ := split_page positive more
    obtain ⟨same, handed⟩ := page_of_more token left more taken
    rw [follow, handed] at followed
    have whole : names = (done ++ front') ++ last' :: rest' := by rw [split, spelled', List.append_assoc]
    cases issued : token last' with
    | none =>
      rw [issued] at followed
      obtain rfl := Option.some.inj followed
      have flag := flagged 0 (by simp)
      rw [List.getElem_cons_zero, same] at flag
      exact absurd (flag.mp rfl) (by simp)
    | some cursor' =>
      rw [issued] at followed
      obtain ⟨pages', followed', rfl⟩ := Option.map_eq_some_iff.mp followed
      have filled'' : pages' ≠ [] := by
        obtain ⟨_, rfl, -⟩ := follow_cons followed'
        exact List.cons_ne_nil _ _
      obtain ⟨-, flagged'⟩ := (flagged_cons filled'').mp flagged
      have items' : pages'.flatMap Page.items = rest' := by
        rw [List.flatMap_cons, same, spelled', List.append_assoc] at items
        exact List.cons_inj_right _ |>.mp (List.append_cancel_left items)
      obtain ⟨y, rest'', rfl⟩ := List.exists_cons_of_ne_nil filled'
      have lets : ∀ x ∈ names, passes r cursor' x = decide (r last' x) := by
        refine passes_of_first sorted whole ?_
        obtain ⟨tail, rfl, ends⟩ := follow_cons followed'
        rw [List.flatMap_cons] at items'
        cases kept : names.filter (passes r cursor') with
        | nil =>
          have nothing := ends (by rw [page, kept]; rfl)
          rw [nothing, page, kept] at items'
          simp at items'
        | cons z tail' =>
          rw [page, kept, ← Nat.sub_add_cancel positive] at items'
          exact congrArg some (List.cons.inj items').1
      by_cases here : front.length = (done ++ front').length
      · obtain ⟨-, same'⟩ := List.append_inj (spelled.symm.trans whole) here
        obtain ⟨rfl, -⟩ := List.cons.inj same'
        exact ⟨cursor', issued, lets⟩
      · have paged' : size ∣ (done ++ front' ++ [last']).length := by
          rw [List.length_append, List.length_append, List.length_singleton, Nat.add_assoc, width]
          exact Nat.dvd_add paged (Nat.dvd_refl size)
        have left' : names.filter (passes r cursor') = y :: rest'' := by
          rw [List.filter_congr lets]
          exact filter_behind sorted whole
        refine @ih (done ++ front' ++ [last']) _ _ _ (by rw [whole]; simp) paged' left' followed' items' flagged' ?_
        rw [List.length_append] at here
        rw [List.length_append, List.length_append, List.length_singleton]
        omega

/-- The pages give the list exactly where every end of a page is resumed behind. -/
theorem follow_iff (positive : 0 < size) :
    (∃ rounds pages, follow r names size token rounds none = some pages ∧ pages.flatMap Page.items = names ∧ Flagged pages) ↔
      Resumes r names size token := by
  have whole : names.filter (passes r none) = names := List.filter_eq_self.mpr fun _ _ => rfl
  constructor
  · rintro ⟨rounds, pages, followed, items, flagged⟩ front last rest spelled filled boundary
    exact resumes_of_follow sorted positive (List.nil_append names).symm (Nat.dvd_zero size) whole followed items flagged spelled filled boundary
      (Nat.zero_le _)
  · intro resumes
    obtain ⟨pages, followed⟩ := follow_complete sorted positive resumes (List.nil_append names).symm (Nat.dvd_zero size) whole (Nat.lt_succ_self _)
    exact ⟨_, pages, followed⟩

end

end CursorPages

/-! Reading a list in the order of its ranks, page by page. -/

variable {α : Type} {rank : α → Nat} {xs : List α}

/-- Where a page of the list ends: at its last entry, or where an empty page says. -/
def pageEnd (rank : α → Nat) (page : List α) (empty : Nat) : Nat := (page.getLast?.map rank).getD empty

theorem pageEnd_le {page : List α} {empty bound : Nat} (entries : ∀ x ∈ page, rank x ≤ bound) (within : empty ≤ bound) :
    pageEnd rank page empty ≤ bound := by
  unfold pageEnd
  cases last : page.getLast? with
  | none => exact within
  | some x => exact entries x (List.mem_of_getLast? last)

theorem le_pageEnd {page : List α} {empty bound : Nat} (entries : ∀ x ∈ page, bound ≤ rank x) (within : bound ≤ empty) :
    bound ≤ pageEnd rank page empty := by
  unfold pageEnd
  cases last : page.getLast? with
  | none => exact within
  | some x => exact entries x (List.mem_of_getLast? last)

/-- A page that is not empty for want of room has every entry up to its end. -/
theorem mem_page_iff (sorted : xs.Pairwise fun first second => rank first < rank second) {limit : Nat} (room : 0 < limit)
    (empty : Nat) (x : α) :
    x ∈ xs.take limit ↔ x ∈ xs ∧ rank x ≤ pageEnd rank (xs.take limit) empty := by
  cases last : (xs.take limit).getLast? with
  | none =>
    have nothing : xs = [] := (List.take_eq_nil_iff.mp (List.getLast?_eq_none_iff.mp last)).resolve_left (by omega)
    simp [nothing]
  | some y =>
    obtain ⟨front, spelled⟩ := List.getLast?_eq_some_iff.mp last
    have ordered := sorted
    rw [← List.take_append_drop limit xs, List.pairwise_append] at ordered
    obtain ⟨inside, _, across⟩ := ordered
    rw [pageEnd, last, Option.map_some, Option.getD_some]
    constructor
    · intro taken
      refine ⟨List.mem_of_mem_take taken, ?_⟩
      rw [spelled] at taken inside
      rcases List.mem_append.mp taken with earlier | same
      · exact Nat.le_of_lt ((List.pairwise_append.mp inside).2.2 x earlier y (List.mem_singleton_self y))
      · exact Nat.le_of_eq (congrArg _ (List.mem_singleton.mp same))
    · rintro ⟨member, within⟩
      rw [← List.take_append_drop limit xs] at member
      rcases List.mem_append.mp member with taken | left
      · exact taken
      · have after := across y (by rw [spelled]; simp) x left
        omega

end Foundation
