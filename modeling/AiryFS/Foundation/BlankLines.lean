import Mathlib.Algebra.Order.Ring.Int
import Mathlib.Data.List.Infix
import Mathlib.Tactic.Common

/-! Frames that a doubled mark ends, in a text where a pair of letters may stand for the mark.

Both the letters of a pair and the marks of an end may come apart where the text is cut.
-/

set_option autoImplicit false

namespace Foundation

namespace BlankLines

variable {α : Type} [DecidableEq α]

section
variable (lead mark : α)

/-- The lead is dropped wherever it is directly before the mark. -/
@[grind =]
def collapse : List α → List α
  | [] => []
  | x :: rest => if x = lead ∧ rest.head? = some mark then collapse rest else x :: collapse rest

/-- The text before the first doubled mark, and the text behind it. -/
@[grind =]
def cutFrame : List α → Option (List α × List α)
  | [] => none
  | x :: rest =>
    if x = mark ∧ rest.head? = some mark then some ([], rest.tail)
    else (cutFrame rest).map fun cut => (x :: cut.1, cut.2)

/-- The frames are cut off one after another. -/
def cutFrames : Nat → List α → List (List α) × List α
  | 0, text => ([], text)
  | rounds + 1, text =>
    match cutFrame mark text with
    | none => ([], text)
    | some (frame, rest) => (frame :: (cutFrames rounds rest).1, (cutFrames rounds rest).2)

/-- The frames that the text completes, from an open frame on, and the frame it leaves open. -/
@[grind =]
def framesFrom : List α → List α → List (List α) × List α
  | open_, [] => ([], open_)
  | open_, x :: rest =>
    if x = mark ∧ open_.getLast? = some mark then (open_.dropLast :: (framesFrom [] rest).1, (framesFrom [] rest).2)
    else framesFrom (open_ ++ [x]) rest

end

variable {lead mark : α}

/-! ## Frames -/

theorem framesFrom_append (open_ first second : List α) :
    framesFrom mark open_ (first ++ second) =
      ((framesFrom mark open_ first).1 ++ (framesFrom mark (framesFrom mark open_ first).2 second).1,
        (framesFrom mark (framesFrom mark open_ first).2 second).2) := by
  induction first generalizing open_ with
  | nil => rfl
  | cons x rest ih =>
    rw [List.cons_append, framesFrom, framesFrom]
    split
    · rw [ih]
      rfl
    · exact ih _

/-- Where the text has no end of a frame, it only continues the open one. -/
theorem framesFrom_none {text : List α} (open_ : List α) (uncut : cutFrame mark text = none)
    (apart : ¬(text.head? = some mark ∧ open_.getLast? = some mark)) : framesFrom mark open_ text = ([], open_ ++ text) := by
  induction text generalizing open_ with
  | nil => simp [framesFrom]
  | cons x rest ih =>
    rw [cutFrame] at uncut
    split at uncut
    · cases uncut
    · rename_i single
      rw [framesFrom, if_neg (by simpa using apart), ih _ (Option.map_eq_none_iff.mp uncut), List.append_assoc]
      · rfl
      · rw [List.getLast?_concat]
        exact fun doubled => single ⟨Option.some.inj doubled.2, doubled.1⟩

theorem framesFrom_some {text frame rest : List α} (open_ : List α) (cut : cutFrame mark text = some (frame, rest))
    (apart : ¬(text.head? = some mark ∧ open_.getLast? = some mark)) :
    framesFrom mark open_ text = ((open_ ++ frame) :: (framesFrom mark [] rest).1, (framesFrom mark [] rest).2) := by
  induction text generalizing open_ frame with
  | nil => cases cut
  | cons x text ih =>
    rw [framesFrom, if_neg (by simpa using apart)]
    rw [cutFrame] at cut
    split at cut
    · rename_i doubled
      obtain ⟨rfl, next⟩ := doubled
      obtain ⟨rest', rfl⟩ : ∃ rest', text = x :: rest' := by
        cases text with
        | nil => cases next
        | cons y rest' => exact ⟨rest', by rw [Option.some.inj next]⟩
      cases cut
      rw [framesFrom, if_pos ⟨rfl, List.getLast?_concat⟩, List.dropLast_concat, List.append_nil]
      rfl
    · rename_i single
      obtain ⟨⟨front, behind⟩, inner, same⟩ := Option.map_eq_some_iff.mp cut
      cases same
      rw [ih (open_ ++ [x]) inner, List.append_assoc]
      · rfl
      · rw [List.getLast?_concat]
        exact fun doubled => single ⟨Option.some.inj doubled.2, doubled.1⟩

theorem cutFrame_length {text frame rest : List α} (cut : cutFrame mark text = some (frame, rest)) : rest.length < text.length := by
  induction text generalizing frame with
  | nil => cases cut
  | cons x text ih =>
    rw [cutFrame] at cut
    split at cut
    · cases cut
      rw [List.length_tail, List.length_cons]
      omega
    · obtain ⟨⟨front, behind⟩, inner, same⟩ := Option.map_eq_some_iff.mp cut
      cases same
      exact Nat.lt_succ_of_lt (ih inner)

/-- There are rounds enough where there is one for each letter. -/
theorem cutFrames_eq {rounds : Nat} {text : List α} (enough : text.length ≤ rounds) :
    cutFrames mark rounds text = framesFrom mark [] text := by
  have apart (text : List α) : ¬(text.head? = some mark ∧ ([] : List α).getLast? = some mark) := fun doubled => by
    cases doubled.2
  induction rounds generalizing text with
  | zero => rw [List.eq_nil_of_length_eq_zero (Nat.le_zero.mp enough), cutFrames, framesFrom]
  | succ rounds ih =>
    rw [cutFrames]
    cases cut : cutFrame mark text with
    | none => exact (framesFrom_none [] cut (apart text)).symm
    | some found =>
      obtain ⟨frame, rest⟩ := found
      have shorter := cutFrame_length cut
      dsimp only
      rw [ih (by omega), framesFrom_some [] cut (apart text)]
      rfl

variable (mark) in
theorem framesFrom_concat (open_ text : List α) (x : α) :
    framesFrom mark open_ (text ++ [x]) =
      if x = mark ∧ (framesFrom mark open_ text).2.getLast? = some mark then
        ((framesFrom mark open_ text).1 ++ [(framesFrom mark open_ text).2.dropLast], [])
      else ((framesFrom mark open_ text).1, (framesFrom mark open_ text).2 ++ [x]) := by
  rw [framesFrom_append]
  generalize framesFrom mark open_ text = framed
  rw [framesFrom]
  split
  · rfl
  · simp [framesFrom]

variable (mark) in
/-- The open frame is what is behind the last end. -/
theorem framesFrom_front (text : List α) : ∃ front, text = front ++ (framesFrom mark [] text).2 ∧
    framesFrom mark [] front = ((framesFrom mark [] text).1, []) ∧ (front = [] ∨ front.getLast? = some mark) := by
  induction text using List.reverseRecOn with
  | nil => exact ⟨[], rfl, rfl, .inl rfl⟩
  | append_singleton text x ih =>
    obtain ⟨front, spelled, framed, ends⟩ := ih
    have step := framesFrom_concat mark [] text x
    split at step
    · rename_i doubled
      rw [step]
      exact ⟨text ++ [x], (List.append_nil _).symm, step, .inr (by rw [List.getLast?_concat, doubled.1])⟩
    · rw [step]
      refine ⟨front, ?_, framed, ends⟩
      rw [← List.append_assoc, ← spelled]

theorem framesFrom_open {text : List α} (none_ : (framesFrom mark [] text).1 = []) : (framesFrom mark [] text).2 = text := by
  induction text using List.reverseRecOn with
  | nil => rfl
  | append_singleton text x ih =>
    rw [framesFrom_concat] at none_ ⊢
    split at none_
    · simp at none_
    · rename_i single
      rw [if_neg single, ih none_]

/-! ## Pairs -/

theorem collapse_append {front : List α} (rest : List α) (apart : ¬(front.getLast? = some lead ∧ rest.head? = some mark)) :
    collapse lead mark (front ++ rest) = collapse lead mark front ++ collapse lead mark rest := by
  induction front with
  | nil => rfl
  | cons x front ih =>
    cases front with
    | nil =>
      have single : ¬(x = lead ∧ rest.head? = some mark) := by simpa using apart
      have alone : ¬(x = lead ∧ ([] : List α).head? = some mark) := fun pair => by cases pair.2
      rw [List.cons_append, List.nil_append, collapse, if_neg single, collapse, if_neg alone]
      rfl
    | cons y front =>
      rw [List.getLast?_cons_cons] at apart
      have head : (y :: front ++ rest).head? = (y :: front).head? := rfl
      rw [List.cons_append, collapse, collapse, head, ih apart]
      split
      · rfl
      · rfl

theorem collapse_single (x : α) : collapse lead mark [x] = [x] := by
  rw [collapse, if_neg (fun pair => by cases pair.2)]
  rfl

theorem collapse_pair (rest : List α) : collapse lead mark (lead :: mark :: rest) = collapse lead mark (mark :: rest) := by
  rw [collapse, if_pos ⟨rfl, rfl⟩]

theorem collapse_head {text : List α} (marked : (collapse lead mark text).head? = some mark) :
    text.head? = some mark ∨ ∃ rest, text = lead :: mark :: rest := by
  cases text with
  | nil => cases marked
  | cons x rest =>
    rw [collapse] at marked
    split at marked
    · rename_i pair
      obtain ⟨rfl, next⟩ := pair
      obtain ⟨rest', rfl⟩ := List.head?_eq_some_iff.mp next
      exact .inr ⟨rest', rfl⟩
    · exact .inl marked

variable (lead mark) in
theorem collapse_length (text : List α) : (collapse lead mark text).length ≤ text.length := by
  induction text with
  | nil => exact Nat.le_refl _
  | cons x rest ih =>
    rw [collapse, List.length_cons]
    split
    · omega
    · rw [List.length_cons]
      omega

section
variable (different : lead ≠ mark)
include different

theorem collapse_mark (rest : List α) : collapse lead mark (mark :: rest) = mark :: collapse lead mark rest := by
  rw [collapse, if_neg fun pair => different pair.1.symm]

/-- The last letter stays. -/
theorem collapse_last (text : List α) : (collapse lead mark text).getLast? = text.getLast? := by
  induction text using List.reverseRecOn with
  | nil => rfl
  | append_singleton text x ih =>
    by_cases pair : text.getLast? = some lead ∧ x = mark
    · obtain ⟨last, rfl⟩ := pair
      obtain ⟨front, rfl⟩ := List.getLast?_eq_some_iff.mp last
      rw [List.append_assoc, collapse_append _ (fun apart => different (by simpa using apart.2)), List.singleton_append, collapse_pair,
        collapse_single, List.getLast?_concat, ← List.singleton_append, ← List.append_assoc, List.getLast?_concat]
    · rw [collapse_append [x] (by simpa using pair), collapse_single, List.getLast?_concat, List.getLast?_concat]

/-- What is collapsed has no pair any more, where no lead is before a pair. -/
theorem collapse_collapse {text : List α} (plain : ¬[lead, lead, mark] <:+: text) :
    collapse lead mark (collapse lead mark text) = collapse lead mark text := by
  induction text with
  | nil => rfl
  | cons x rest ih =>
    have ih := ih fun inside => plain (inside.trans (List.suffix_cons x rest).isInfix)
    by_cases pair : x = lead ∧ rest.head? = some mark
    · rw [collapse, if_pos pair, ih]
    · rw [collapse, if_neg pair, collapse, if_neg, ih]
      rintro ⟨rfl, marked⟩
      rcases collapse_head marked with next | ⟨rest', rfl⟩
      · exact pair ⟨rfl, next⟩
      · exact plain ⟨[], rest', rfl⟩

/-- A text may be collapsed up to a point before the rest of it is there. -/
theorem collapse_resume {first : List α} (second : List α) (plain : ¬[lead, lead, mark] <:+: first) :
    collapse lead mark (collapse lead mark first ++ second) = collapse lead mark (first ++ second) := by
  by_cases pair : first.getLast? = some lead ∧ second.head? = some mark
  · obtain ⟨last, next⟩ := pair
    obtain ⟨front, rfl⟩ := List.getLast?_eq_some_iff.mp last
    obtain ⟨rest, rfl⟩ := List.head?_eq_some_iff.mp next
    have apart (front tail : List α) : ¬(front.getLast? = some lead ∧ (lead :: tail).head? = some mark) := fun both =>
      different (Option.some.inj both.2)
    have plain' : ¬[lead, lead, mark] <:+: front := fun inside => plain (inside.trans (List.prefix_append _ _).isInfix)
    rw [collapse_append [lead] (apart front []), collapse_single, List.append_assoc, List.append_assoc, List.singleton_append,
      collapse_append _ (apart _ _), collapse_append _ (apart _ _), collapse_collapse different plain']
  · rw [collapse_append second pair, collapse_append second (by rwa [collapse_last different]), collapse_collapse different plain]

/-- A collapsed text weighs no more than one that goes on. -/
theorem collapse_weight (weight : α → Nat) (heavier : weight lead ≤ weight mark) (first second : List α) :
    ((collapse lead mark first).map weight).sum ≤ ((collapse lead mark (first ++ second)).map weight).sum := by
  by_cases pair : first.getLast? = some lead ∧ second.head? = some mark
  · obtain ⟨last, next⟩ := pair
    obtain ⟨front, rfl⟩ := List.getLast?_eq_some_iff.mp last
    obtain ⟨rest, rfl⟩ := List.head?_eq_some_iff.mp next
    have apart (tail : List α) : ¬(front.getLast? = some lead ∧ (lead :: tail).head? = some mark) := fun both =>
      different (Option.some.inj both.2)
    rw [collapse_append [lead] (apart []), collapse_single, List.append_assoc, List.singleton_append, collapse_append _ (apart _),
      collapse_pair, collapse_mark different]
    simp only [List.map_append, List.sum_append, List.map_cons, List.sum_cons, List.map_nil, List.sum_nil]
    omega
  · rw [collapse_append second pair, List.map_append, List.sum_append]
    omega

/-- What is before the last end, and what is open behind it, are collapsed apart. -/
theorem collapse_front {first front rest : List α} (plain : ¬[lead, lead, mark] <:+: first)
    (spelled : collapse lead mark first = front ++ rest) (ends : front = [] ∨ front.getLast? = some mark) (behind : List α) :
    collapse lead mark (front ++ behind) = front ++ collapse lead mark behind ∧ collapse lead mark rest = rest := by
  have apart (rest : List α) : ¬(front.getLast? = some lead ∧ rest.head? = some mark) := by
    rintro ⟨last, -⟩
    rcases ends with rfl | marked
    · cases last
    · exact different (Option.some.inj (last.symm.trans marked))
  have whole := collapse_collapse different plain
  rw [spelled, collapse_append _ (apart _)] at whole
  have bound := collapse_length lead mark front
  have bound' := collapse_length lead mark rest
  have lengths := congrArg List.length whole
  rw [List.length_append, List.length_append] at lengths
  obtain ⟨settled, settled'⟩ := List.append_inj whole (by omega)
  exact ⟨by rw [collapse_append _ (apart _), settled], settled'⟩

/-- The frames of a text that goes on behind a point are those up to there, and those of what is open there with the rest. -/
theorem framesFrom_resume {first : List α} (second : List α) (plain : ¬[lead, lead, mark] <:+: first) :
    framesFrom mark [] (collapse lead mark (first ++ second)) =
      ((framesFrom mark [] (collapse lead mark first)).1 ++
          (framesFrom mark [] (collapse lead mark ((framesFrom mark [] (collapse lead mark first)).2 ++ second))).1,
        (framesFrom mark [] (collapse lead mark ((framesFrom mark [] (collapse lead mark first)).2 ++ second))).2) := by
  obtain ⟨front, spelled, framed, ends⟩ := framesFrom_front mark (collapse lead mark first)
  generalize framesFrom mark [] (collapse lead mark first) = state at *
  rw [← collapse_resume different second plain, spelled, List.append_assoc,
    (collapse_front different plain spelled ends _).1, framesFrom_append, framed]

/-- What is open only grows heavier up to the end of its frame. -/
theorem open_weight (weight : α → Nat) (heavier : weight lead ≤ weight mark) {first : List α} (second : List α)
    (plain : ¬[lead, lead, mark] <:+: first)
    (same : (framesFrom mark [] (collapse lead mark (first ++ second))).1 = (framesFrom mark [] (collapse lead mark first)).1) :
    ((framesFrom mark [] (collapse lead mark first)).2.map weight).sum ≤
      ((framesFrom mark [] (collapse lead mark (first ++ second))).2.map weight).sum := by
  obtain ⟨front, spelled, framed, ends⟩ := framesFrom_front mark (collapse lead mark first)
  have settled := (collapse_front different plain spelled ends []).2
  have resumed := framesFrom_resume different second plain
  rw [resumed] at same ⊢
  dsimp only
  rw [framesFrom_open (List.append_right_eq_self.mp same)]
  have heavy := collapse_weight different weight heavier (framesFrom mark [] (collapse lead mark first)).2 second
  rwa [settled] at heavy

end

end BlankLines

end Foundation
