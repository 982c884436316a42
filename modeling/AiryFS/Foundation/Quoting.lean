import Mathlib.Data.List.Induction
import Mathlib.Tactic.Common

/-! Quotes and escapes in a line, read from the left.

A backslash takes the next character as it is, but not between single quotes. Each kind of quote closes
itself and stands for itself inside the other.
-/

set_option autoImplicit false

namespace Foundation

/-- The quote that is open, and whether the next character is taken as it is. -/
structure Quoting where
  quote : Option Char
  escaped : Bool
  deriving DecidableEq, Repr

namespace Quoting

/-- Neither a quote nor an escape. -/
def plain : Quoting := ⟨none, false⟩

def next (state : Quoting) (c : Char) : Quoting :=
  if state.escaped then { state with escaped := false }
  else if c = '\\' ∧ state.quote ≠ some '\'' then { state with escaped := true }
  else if (c = '\'' ∨ c = '"') ∧ (state.quote = none ∨ state.quote = some c) then
    { state with quote := if state.quote.isSome then none else some c }
  else state

def scan (state : Quoting) (text : List Char) : Quoting := text.foldl next state

/-- The character itself, where it is no mark. -/
def emit (state : Quoting) (c : Char) : List Char :=
  if state.escaped then [c]
  else if c = '\\' ∧ state.quote ≠ some '\'' then []
  else if (c = '\'' ∨ c = '"') ∧ (state.quote = none ∨ state.quote = some c) then []
  else [c]

/-- The text without its marks. -/
def decode : Quoting → List Char → List Char
  | _, [] => []
  | state, c :: text => state.emit c ++ decode (state.next c) text

variable {blank : Char → Bool} {state : Quoting} {text : List Char} {c : Char}

/-- No character separates words. -/
def Solid (blank : Char → Bool) : Quoting → List Char → Prop
  | _, [] => True
  | state, c :: text => ¬(state = plain ∧ blank c = true) ∧ Solid blank (state.next c) text

@[simp] theorem scan_nil (state : Quoting) : state.scan [] = state := rfl

@[simp] theorem scan_cons (state : Quoting) (c : Char) (text : List Char) : state.scan (c :: text) = (state.next c).scan text := rfl

theorem scan_append (state : Quoting) (first second : List Char) : state.scan (first ++ second) = (state.scan first).scan second :=
  List.foldl_append

theorem solid_append (first second : List Char) :
    Solid blank state (first ++ second) ↔ Solid blank state first ∧ Solid blank (state.scan first) second := by
  induction first generalizing state with
  | nil => simp [Solid]
  | cons c first ih => rw [List.cons_append, Solid, Solid, ih, scan_cons, and_assoc]

/-- The characters that a quoting reads as marks are not blank. -/
def MarksSolid (blank : Char → Bool) : Prop := blank '\\' = false ∧ blank '\'' = false ∧ blank '"' = false

/-- Blank characters leave an open quote open. -/
theorem next_blank (marks : MarksSolid blank) (blank_ : blank c = true) : state.next c = ⟨state.quote, false⟩ := by
  obtain ⟨backslash, single, double⟩ := marks
  have first : c ≠ '\\' := by
    rintro rfl
    rw [backslash] at blank_
    cases blank_
  have second : ¬(c = '\'' ∨ c = '"') := by
    rintro (rfl | rfl)
    · rw [single] at blank_
      cases blank_
    · rw [double] at blank_
      cases blank_
  obtain ⟨quote, escaped⟩ := state
  cases escaped with
  | true => rfl
  | false =>
    unfold next
    dsimp only
    rw [if_neg (by decide), if_neg fun both => first both.1, if_neg fun both => second both.1]

theorem scan_blanks (marks : MarksSolid blank) (some_ : text ≠ []) (blanks : ∀ c ∈ text, blank c = true) :
    state.scan text = ⟨state.quote, false⟩ := by
  induction text generalizing state with
  | nil => exact absurd rfl some_
  | cons c text ih =>
    rw [scan_cons, next_blank marks (blanks c List.mem_cons_self)]
    cases text with
    | nil => rfl
    | cons d text => exact ih (List.cons_ne_nil _ _) fun c member => blanks c (List.mem_cons_of_mem _ member)

/-- Only a backslash escapes. -/
theorem next_escaped (escapes : (state.next c).escaped = true) :
    c = '\\' ∧ state.escaped = false ∧ (state.next c).quote = state.quote := by
  unfold next at escapes ⊢
  split at escapes
  · cases escapes
  · rename_i free
    rw [if_neg free]
    split at escapes
    · rename_i backslash
      rw [if_pos backslash]
      exact ⟨backslash.1, by simpa using free, rfl⟩
    · split at escapes
      · exact absurd escapes (by simpa using free)
      · exact absurd escapes free

/-! ## The last word of a line -/

/-- A line is cut where its last word starts. -/
structure Cut (blank : Char → Bool) (text : List Char) (start : Nat) : Prop where
  within : start ≤ text.length
  neutral : plain.scan (text.take start) = plain
  solid : Solid blank plain (text.drop start)
  ends : start = 0 ∨ ∃ front c, text.take start = front ++ [c] ∧ blank c = true ∧ plain.scan front = plain

theorem Cut.nil : Cut blank [] 0 := ⟨Nat.le_refl 0, rfl, trivial, .inl rfl⟩

theorem Cut.scan {start : Nat} (cut : Cut blank text start) : plain.scan text = plain.scan (text.drop start) := by
  conv => lhs; rw [← List.take_append_drop start text, scan_append, cut.neutral]

/-- A character that separates words moves the cut behind it, and no other does. -/
theorem Cut.snoc {start : Nat} (marks : MarksSolid blank) (cut : Cut blank text start) (c : Char) : Cut blank (text ++ [c])
    (if plain.scan text = plain ∧ blank c = true then text.length + 1 else start) := by
  split
  · rename_i separates
    have whole : (text ++ [c]).take (text.length + 1) = text ++ [c] := List.take_of_length_le (by simp)
    refine ⟨by simp, ?_, ?_, .inr ⟨text, c, whole, separates.2, separates.1⟩⟩
    · rw [whole, scan_append, separates.1, scan_cons, next_blank marks separates.2]
      rfl
    · rw [List.drop_of_length_le (by simp)]
      trivial
  · rename_i joins
    have same : (text ++ [c]).take start = text.take start := List.take_append_of_le_length cut.within
    have later : (text ++ [c]).drop start = text.drop start ++ [c] := List.drop_append_of_le_length cut.within
    refine ⟨Nat.le_trans cut.within (by simp), by rw [same]; exact cut.neutral, ?_, by rw [same]; exact cut.ends⟩
    rw [later, solid_append, ← cut.scan]
    exact ⟨cut.solid, joins, trivial⟩

/-- There is one way to cut a line. -/
theorem Cut.unique {first second : Nat} (one : Cut blank text first) (other : Cut blank text second) : first = second := by
  have ordered : ∀ {first second : Nat}, Cut blank text first → Cut blank text second → ¬first < second := by
    intro first second one other before
    rcases other.ends with zero | ⟨front, c, shape, blank_, neutral⟩
    · omega
    · have sized := congrArg List.length shape
      rw [List.length_take, List.length_append, List.length_singleton, Nat.min_eq_left other.within] at sized
      have front_ : front = text.take front.length := by
        have taken := congrArg (List.take front.length) shape
        rw [List.take_take, List.take_left, Nat.min_eq_left (by omega)] at taken
        exact taken.symm
      -- The separator of the later cut would stand inside the word of the earlier one.
      have inner : text.drop first = (text.take front.length).drop first ++ (c :: text.drop second) := by
        have split : text = front ++ [c] ++ text.drop second := by
          rw [← shape, List.take_append_drop]
        conv => lhs; rw [split]
        rw [List.append_assoc, List.drop_append_of_le_length (by omega), ← front_]
        rfl
      have solid := one.solid
      rw [inner, solid_append] at solid
      refine solid.2.1 ⟨?_, blank_⟩
      have parts : front = text.take first ++ (text.take front.length).drop first := by
        conv => lhs; rw [front_, ← List.take_append_drop first (text.take front.length)]
        rw [List.take_take, Nat.min_eq_left (by omega)]
      rw [parts, scan_append, one.neutral] at neutral
      exact neutral
  have left := ordered one other
  have right := ordered other one
  omega

end Quoting

end Foundation
