import Mathlib.Data.List.Infix
import Mathlib.Tactic.Common

/-! Lines read from a text that arrives in chunks.

A reader keeps the line that has not ended. It reads the lines that a chunk completes, refuses a
line, or refuses the open line for its length. A refusal drops what the same chunk completed
before, so two ways of cutting one text may serve different values before they fail.
-/

set_option autoImplicit false

namespace Foundation

namespace LineReader

section
variable {α : Type} [DecidableEq α] (mark : α)

/-- The lines that the text completes, from an open line on, and the line it leaves open. -/
@[grind =]
def linesFrom : List α → List α → List (List α) × List α
  | open_, [] => ([], open_)
  | open_, x :: xs =>
    if x = mark then (open_ :: (linesFrom [] xs).1, (linesFrom [] xs).2) else linesFrom (open_ ++ [x]) xs

variable {mark}

theorem linesFrom_mark (open_ rest : List α) :
    linesFrom mark open_ (mark :: rest) = (open_ :: (linesFrom mark [] rest).1, (linesFrom mark [] rest).2) := by
  rw [linesFrom, if_pos rfl]

theorem linesFrom_other {x : α} (other : x ≠ mark) (open_ rest : List α) :
    linesFrom mark open_ (x :: rest) = linesFrom mark (open_ ++ [x]) rest := by
  rw [linesFrom, if_neg other]

theorem linesFrom_append (open_ first second : List α) :
    linesFrom mark open_ (first ++ second) =
      ((linesFrom mark open_ first).1 ++ (linesFrom mark (linesFrom mark open_ first).2 second).1,
        (linesFrom mark (linesFrom mark open_ first).2 second).2) := by
  induction first generalizing open_ with
  | nil => rfl
  | cons x xs ih =>
    rw [List.cons_append]
    by_cases ends : x = mark
    · subst ends
      rw [linesFrom_mark, linesFrom_mark, ih]
      rfl
    · rw [linesFrom_other ends, linesFrom_other ends, ih]

/-- Without a mark the text only continues the open line. -/
theorem linesFrom_open {text : List α} (open_ : List α) (unmarked : mark ∉ text) :
    linesFrom mark open_ text = ([], open_ ++ text) := by
  induction text generalizing open_ with
  | nil => simp [linesFrom]
  | cons x xs ih =>
    obtain ⟨other, later⟩ := not_or.mp (List.mem_cons.not.mp unmarked)
    rw [linesFrom_other (Ne.symm other), ih _ later, List.append_assoc]
    rfl

theorem linesFrom_line {line : List α} (open_ rest : List α) (unmarked : mark ∉ line) :
    linesFrom mark open_ (line ++ mark :: rest) =
      ((open_ ++ line) :: (linesFrom mark [] rest).1, (linesFrom mark [] rest).2) := by
  rw [linesFrom_append, linesFrom_open open_ unmarked, linesFrom_mark]
  rfl

/-- What is open has no mark, so it may as well stand before the text. -/
theorem linesFrom_nil {open_ : List α} (unmarked : mark ∉ open_) (text : List α) :
    linesFrom mark [] (open_ ++ text) = linesFrom mark open_ text := by
  rw [linesFrom_append, linesFrom_open [] unmarked]
  rfl

theorem open_unmarked {open_ : List α} (unmarked : mark ∉ open_) (text : List α) :
    mark ∉ (linesFrom mark open_ text).2 := by
  induction text generalizing open_ with
  | nil => exact unmarked
  | cons x xs ih =>
    by_cases ends : x = mark
    · subst ends
      rw [linesFrom_mark]
      exact ih List.not_mem_nil
    · rw [linesFrom_other ends]
      apply ih
      rw [List.mem_append, List.mem_singleton]
      exact not_or.mpr ⟨unmarked, Ne.symm ends⟩

end

section
variable {α β ε : Type} (read : List α → Except ε (List β))

/-- The values of the lines before the first that is refused, and why that one is. -/
@[grind =]
def survey : List (List α) → List β × Option ε
  | [] => ([], none)
  | line :: lines =>
    match read line with
    | .error refusal => ([], some refusal)
    | .ok values => (values ++ (survey lines).1, (survey lines).2)

variable {read}

theorem survey_of_ok {line : List α} {values : List β} (reads : read line = .ok values) (lines : List (List α)) :
    survey read (line :: lines) = (values ++ (survey read lines).1, (survey read lines).2) := by
  rw [survey, reads]

theorem survey_of_error {line : List α} {refusal : ε} (refused : read line = .error refusal) (lines : List (List α)) :
    survey read (line :: lines) = ([], some refusal) := by
  rw [survey, refused]

theorem error_of_survey {lines : List (List α)} {refusal : ε} (refused : (survey read lines).2 = some refusal) :
    ∃ line, read line = .error refusal := by
  induction lines with
  | nil => cases refused
  | cons line lines ih =>
    cases reads : read line with
    | error early =>
      rw [survey_of_error reads] at refused
      obtain rfl := Option.some.inj refused
      exact ⟨line, reads⟩
    | ok values =>
      rw [survey_of_ok reads] at refused
      exact ih refused

theorem survey_append_of_none {first : List (List α)} (fine : (survey read first).2 = none) (second : List (List α)) :
    survey read (first ++ second) = ((survey read first).1 ++ (survey read second).1, (survey read second).2) := by
  induction first with
  | nil => rfl
  | cons line lines ih =>
    rw [List.cons_append]
    cases reads : read line with
    | error refusal =>
      rw [survey_of_error reads] at fine
      cases fine
    | ok values =>
      rw [survey_of_ok reads] at fine ⊢
      rw [survey_of_ok reads, ih fine, List.append_assoc]

theorem survey_append_of_some {first : List (List α)} {refusal : ε} (refused : (survey read first).2 = some refusal)
    (second : List (List α)) : survey read (first ++ second) = survey read first := by
  induction first with
  | nil => cases refused
  | cons line lines ih =>
    rw [List.cons_append]
    cases reads : read line with
    | error early => rw [survey_of_error reads, survey_of_error reads]
    | ok values =>
      rw [survey_of_ok reads] at refused ⊢
      rw [survey_of_ok reads, ih refused]

end

section
variable {α β ε σ : Type} [DecidableEq α] (mark : α) (read : List α → Except ε (List β)) (bound : List α → Option ε)
  (serve : σ → β → σ)

/-- A text as a whole: the open line is looked at last. -/
@[grind =]
def inspect (open_ text : List α) : List β × Option ε :=
  let lines := linesFrom mark open_ text
  match survey read lines.1 with
  | (values, some refusal) => (values, some refusal)
  | (values, none) => (values, bound lines.2)

/-- The chunks one after the other, to the line that is open at the end. The values of a chunk
are served when all of it is fine. -/
@[grind =]
def readAll : σ → List α → List (List α) → (σ × List α) × Option ε
  | state, open_, [] => ((state, open_), none)
  | state, open_, chunk :: chunks =>
    match inspect mark read bound open_ chunk with
    | (_, some refusal) => ((state, open_), some refusal)
    | (values, none) => readAll (values.foldl serve state) (linesFrom mark open_ chunk).2 chunks

variable {mark read bound serve}

/-- A refusal for length is one of the line however it goes on. -/
structure Bounding (read : List α → Except ε (List β)) (bound : List α → Option ε) : Prop where
  empty : bound [] = none
  grows : ∀ {line more refusal}, bound line = some refusal → bound (line ++ more) = some refusal
  reads : ∀ {line refusal}, bound line = some refusal → read line = .error refusal

theorem inspect_append_of_none {open_ first : List α} (fine : (inspect mark read bound open_ first).2 = none)
    (second : List α) :
    inspect mark read bound open_ (first ++ second) =
      ((inspect mark read bound open_ first).1 ++
          (inspect mark read bound (linesFrom mark open_ first).2 second).1,
        (inspect mark read bound (linesFrom mark open_ first).2 second).2) := by
  unfold inspect at fine ⊢
  dsimp only at fine ⊢
  rw [linesFrom_append]
  dsimp only
  cases surveyed : survey read (linesFrom mark open_ first).1 with
  | mk values refusal =>
    rw [surveyed] at fine
    cases refusal with
    | some refusal => cases fine
    | none =>
      rw [survey_append_of_none (by rw [surveyed]), surveyed]
      cases later : survey read (linesFrom mark (linesFrom mark open_ first).2 second).1 with
      | mk values' refusal' =>
        cases refusal' with
        | some refusal' => rfl
        | none => rfl

theorem inspect_append_of_some (bounding : Bounding read bound) {open_ first : List α} {refusal : ε}
    (refused : (inspect mark read bound open_ first).2 = some refusal) (second : List α) :
    inspect mark read bound open_ (first ++ second) = inspect mark read bound open_ first := by
  unfold inspect at refused ⊢
  dsimp only at refused ⊢
  rw [linesFrom_append]
  dsimp only
  cases surveyed : survey read (linesFrom mark open_ first).1 with
  | mk values early =>
    cases early with
    | some early =>
      rw [survey_append_of_some (by rw [surveyed]), surveyed]
    | none =>
      rw [surveyed] at refused
      dsimp only at refused ⊢
      rw [survey_append_of_none (by rw [surveyed]), surveyed, refused]
      -- The open line is too long, whether the rest of the text ends it or not.
      by_cases ends : mark ∈ second
      · obtain ⟨line, rest, rfl, unmarked⟩ := List.eq_append_cons_of_mem ends
        have longer : bound ((linesFrom mark open_ first).2 ++ line) = some refusal := bounding.grows refused
        rw [linesFrom_line _ rest unmarked]
        dsimp only
        rw [survey_of_error (bounding.reads longer), List.append_nil]
      · rw [linesFrom_open _ ends]
        dsimp only [survey]
        rw [bounding.grows refused, List.append_nil]

/-- Every refusal is one of a line. -/
theorem read_of_refused (bounding : Bounding read bound) {open_ text : List α} {refusal : ε}
    (refused : (inspect mark read bound open_ text).2 = some refusal) : ∃ line, read line = .error refusal := by
  unfold inspect at refused
  dsimp only at refused
  split at refused
  · rename_i values early surveyed
    obtain rfl := Option.some.inj refused
    exact error_of_survey (congrArg Prod.snd surveyed)
  · exact ⟨_, bounding.reads refused⟩

/-- What stays open is fine as well. -/
theorem bound_of_fine {open_ text : List α} (fine : (inspect mark read bound open_ text).2 = none) :
    bound (linesFrom mark open_ text).2 = none := by
  unfold inspect at fine
  dsimp only at fine
  split at fine
  · cases fine
  · exact fine

/-- A text that completes a line at its end alone has no value before its refusal. -/
theorem values_of_last (bounding : Bounding read bound) {open_ text : List α} {refusal : ε} (last : mark ∉ text.dropLast)
    (refused : (inspect mark read bound open_ text).2 = some refusal) : (inspect mark read bound open_ text).1 = [] := by
  have unmarked {text : List α} (never : mark ∉ text) : (inspect mark read bound open_ text).1 = [] := by
    rw [inspect, linesFrom_open open_ never]
    rfl
  rcases List.eq_nil_or_concat text with rfl | ⟨line, x, rfl⟩
  · exact unmarked List.not_mem_nil
  · rw [List.concat_eq_append] at last refused ⊢
    rw [List.dropLast_concat] at last
    by_cases ends : x = mark
    · subst ends
      have lines := linesFrom_line open_ [] last
      unfold inspect at refused ⊢
      rw [lines] at refused ⊢
      dsimp only [linesFrom] at refused ⊢
      cases reads : read (open_ ++ line) with
      | error early => rw [survey_of_error reads]
      | ok values =>
        rw [survey_of_ok reads] at refused
        dsimp only [survey] at refused
        rw [bounding.empty] at refused
        cases refused
    · apply unmarked
      rw [List.mem_append, List.mem_singleton]
      exact not_or.mpr ⟨last, Ne.symm ends⟩

theorem readAll_of_some {open_ chunk : List α} {refusal : ε}
    (refused : (inspect mark read bound open_ chunk).2 = some refusal) (state : σ) (chunks : List (List α)) :
    readAll mark read bound serve state open_ (chunk :: chunks) = ((state, open_), some refusal) := by
  rw [readAll]
  cases inspected : inspect mark read bound open_ chunk with
  | mk values late =>
    rw [inspected] at refused
    subst refused
    rfl

theorem readAll_of_none {open_ chunk : List α} (fine : (inspect mark read bound open_ chunk).2 = none) (state : σ)
    (chunks : List (List α)) :
    readAll mark read bound serve state open_ (chunk :: chunks) =
      readAll mark read bound serve ((inspect mark read bound open_ chunk).1.foldl serve state)
        (linesFrom mark open_ chunk).2 chunks := by
  rw [readAll]
  cases inspected : inspect mark read bound open_ chunk with
  | mk values late =>
    rw [inspected] at fine
    subst fine
    rfl

variable (serve)

/-- A text that is fine is served whole, however it is cut. -/
theorem readAll_fine (bounding : Bounding read bound) {open_ : List α} (chunks : List (List α))
    (start : bound open_ = none) (fine : (inspect mark read bound open_ chunks.flatten).2 = none) (state : σ) :
    readAll mark read bound serve state open_ chunks =
      (((inspect mark read bound open_ chunks.flatten).1.foldl serve state, (linesFrom mark open_ chunks.flatten).2), none) := by
  induction chunks generalizing open_ state with
  | nil => simp [readAll, inspect, linesFrom, survey, start]
  | cons chunk chunks ih =>
    rw [List.flatten_cons] at fine ⊢
    cases early : (inspect mark read bound open_ chunk).2 with
    | some refusal =>
      rw [inspect_append_of_some bounding early, early] at fine
      cases fine
    | none =>
      have closes := bound_of_fine early
      rw [inspect_append_of_none early] at fine ⊢
      rw [readAll_of_none early, ih closes fine, linesFrom_append, List.foldl_append]

/-- One that is refused is served up to some point. -/
theorem readAll_refused (bounding : Bounding read bound) {open_ : List α} {refusal : ε} (chunks : List (List α))
    (start : bound open_ = none) (refused : (inspect mark read bound open_ chunks.flatten).2 = some refusal) (state : σ) :
    ∃ served rest, (inspect mark read bound open_ chunks.flatten).1 = served ++ rest ∧
      (readAll mark read bound serve state open_ chunks).1.1 = served.foldl serve state ∧
      (readAll mark read bound serve state open_ chunks).2 = some refusal ∧
      ((∀ chunk ∈ chunks, mark ∉ chunk.dropLast) → rest = []) := by
  induction chunks generalizing open_ state with
  | nil => simp [inspect, linesFrom, survey, start] at refused
  | cons chunk chunks ih =>
    rw [List.flatten_cons] at refused ⊢
    cases early : (inspect mark read bound open_ chunk).2 with
    | some first =>
      rw [inspect_append_of_some bounding early] at refused ⊢
      obtain rfl := Option.some.inj (early.symm.trans refused)
      rw [readAll_of_some early]
      refine ⟨[], _, rfl, rfl, rfl, ?_⟩
      exact fun last => values_of_last bounding (last chunk List.mem_cons_self) early
    | none =>
      have closes := bound_of_fine early
      rw [inspect_append_of_none early] at refused ⊢
      obtain ⟨served, rest, split, state', failed, fine⟩ :=
        ih closes refused ((inspect mark read bound open_ chunk).1.foldl serve state)
      rw [readAll_of_none early]
      refine ⟨(inspect mark read bound open_ chunk).1 ++ served, rest, ?_, ?_, failed, ?_⟩
      · rw [split, List.append_assoc]
      · rw [state', List.foldl_append]
      · exact fun last => fine fun chunk member => last chunk (List.mem_cons_of_mem _ member)

end

end LineReader

end Foundation
