import Mathlib.Computability.Language
import Mathlib.Tactic.Common

/-! Text as UTF-16 code units. -/

set_option autoImplicit false

namespace Foundation

namespace Utf16

/-- The characters of the basic plane. -/
def Basic (c : Char) : Prop := c.toNat < 0x10000

instance (c : Char) : Decidable (Basic c) := inferInstanceAs (Decidable (_ < _))

/-- One unit for a character of the basic plane, a pair of surrogates for any other. -/
def units (c : Char) : List Nat :=
  if Basic c then [c.toNat] else [0xD800 + (c.toNat - 0x10000) / 0x400, 0xDC00 + (c.toNat - 0x10000) % 0x400]

def encode (text : List Char) : List Nat := text.flatMap units

theorem units_basic {c : Char} (basic : Basic c) : units c = [c.toNat] := if_pos basic

theorem length_units {c : Char} (wide : ¬Basic c) : (units c).length = 2 := by
  rw [units, if_neg wide]
  rfl

theorem encode_basic {text : List Char} (basic : ∀ c ∈ text, Basic c) : encode text = text.map Char.toNat := by
  induction text with
  | nil => rfl
  | cons c text ih =>
    rw [encode, List.flatMap_cons, units_basic (basic c List.mem_cons_self), List.map_cons, ← encode,
      ih fun c member => basic c (List.mem_cons_of_mem _ member)]
    rfl

theorem length_encode (text : List Char) : text.length ≤ (encode text).length := by
  induction text with
  | nil => exact Nat.le_refl 0
  | cons c text ih =>
    have some_ : 0 < (units c).length := by
      unfold units
      split <;> simp
    rw [encode, List.flatMap_cons, List.length_append, ← encode, List.length_cons]
    omega

/-- A character beyond the basic plane makes the units more than the characters. -/
theorem length_encode_wide {text : List Char} (wide : ∃ c ∈ text, ¬Basic c) : text.length < (encode text).length := by
  obtain ⟨c, member, wide⟩ := wide
  obtain ⟨front, behind, rfl⟩ := List.append_of_mem member
  have before := length_encode front
  have after := length_encode behind
  have two := length_units wide
  rw [encode, List.flatMap_append, List.flatMap_cons, ← encode, ← encode]
  simp only [List.length_append, List.length_cons]
  omega

/-- No character is a surrogate. -/
theorem surrogate_of_wide {c : Char} (wide : ¬Basic c) : ∀ unit ∈ units c, ∀ d : Char, d.toNat ≠ unit := by
  intro unit member d same
  have valid : d.toNat < 0xD800 ∨ 0xDFFF < d.toNat ∧ d.toNat < 0x110000 := d.valid
  have bound : c.toNat < 0xD800 ∨ 0xDFFF < c.toNat ∧ c.toNat < 0x110000 := c.valid
  rw [units, if_neg wide] at member
  unfold Basic at wide
  simp only [List.mem_cons, List.not_mem_nil, or_false] at member
  omega

end Utf16

/-! Regular expressions that are a sequence of terms between `^` and `$`.

A term is a set of code units, taken once or any number of times. The source is read as ECMAScript reads it
without flags; what has groups, alternatives or other quantifiers is not read here.
-/

namespace UnitExpression

/-! ## What terms match -/

section Terms

variable {α : Type}

inductive Term (α : Type) where
  | once (set : α → Bool)
  | star (set : α → Bool)

/-- The expression takes the whole text. -/
def accepts : List (Term α) → List α → Bool
  | [], text => text.isEmpty
  | .once _ :: _, [] => false
  | .once set :: rest, first :: text => set first && accepts rest text
  | .star set :: rest, text =>
    (List.range (text.length + 1)).any fun count => (text.take count).all set && accepts rest (text.drop count)

def Term.language : Term α → Language α
  | .once set => {text | ∃ first, set first = true ∧ text = [first]}
  | .star set => {text | ∀ element ∈ text, set element = true}

def language (terms : List (Term α)) : Language α := (terms.map Term.language).prod

theorem language_cons (term : Term α) (terms : List (Term α)) : language (term :: terms) = term.language * language terms :=
  List.prod_cons

theorem language_append (first second : List (Term α)) : language (first ++ second) = language first * language second := by
  rw [language, List.map_append, List.prod_append]
  rfl

theorem language_singleton (term : Term α) : language [term] = term.language := by
  rw [language_cons]
  exact mul_one _

/-- A set for each element of a text takes that text. -/
theorem mem_language_literal [BEq α] [LawfulBEq α] (word text : List α) :
    text ∈ language (word.map fun element => .once (· == element)) ↔ text = word := by
  induction word generalizing text with
  | nil => exact Language.mem_one text
  | cons element word ih =>
    rw [List.map_cons, language_cons, Language.mem_mul]
    constructor
    · rintro ⟨front, ⟨first, same, rfl⟩, behind, later, rfl⟩
      rw [eq_of_beq same, (ih behind).mp later]
      rfl
    · rintro rfl
      exact ⟨[element], ⟨element, beq_self_eq_true element, rfl⟩, word, (ih word).mpr rfl, rfl⟩

theorem accepts_iff (terms : List (Term α)) (text : List α) : accepts terms text = true ↔ text ∈ language terms := by
  induction terms generalizing text with
  | nil =>
    rw [accepts, List.isEmpty_iff]
    exact (Language.mem_one text).symm
  | cons term terms ih =>
    rw [language_cons, Language.mem_mul]
    cases term with
    | once set =>
      cases text with
      | nil =>
        refine ⟨nofun, ?_⟩
        rintro ⟨front, ⟨first, _, rfl⟩, behind, _, whole⟩
        cases whole
      | cons first text =>
        rw [accepts, Bool.and_eq_true, ih]
        constructor
        · rintro ⟨inside, later⟩
          exact ⟨[first], ⟨first, inside, rfl⟩, text, later, rfl⟩
        · rintro ⟨front, ⟨other, inside, rfl⟩, behind, later, whole⟩
          obtain ⟨rfl, rfl⟩ := List.cons.inj whole
          exact ⟨inside, later⟩
    | star set =>
      rw [accepts, List.any_eq_true]
      constructor
      · rintro ⟨count, _, found⟩
        rw [Bool.and_eq_true, ih, List.all_eq_true] at found
        exact ⟨text.take count, found.1, text.drop count, found.2, List.take_append_drop count text⟩
      · rintro ⟨front, inside, behind, later, rfl⟩
        refine ⟨front.length, List.mem_range.mpr (by rw [List.length_append]; omega), ?_⟩
        rw [List.take_left, List.drop_left, Bool.and_eq_true, ih, List.all_eq_true]
        exact ⟨inside, later⟩

end Terms

/-! ## Sources -/

/-- A part of a source. -/
inductive Piece where
  | start
  | set (set : Nat → Bool)
  | star
  | finish

def syntaxUnits : List Nat := Utf16.encode "^$\\.*+?()[]\x7b\x7d|".toList

/-- The units that `.` does not match. -/
def lineTerminators : List Nat := [0x0A, 0x0D, 0x2028, 0x2029]

def pieces : List Nat → Option (List Piece)
  | [] => some []
  | first :: rest =>
    if first = '\\'.toNat then
      match rest with
      | second :: later => if second ∈ syntaxUnits then (pieces later).map (.set (· == second) :: ·) else none
      | [] => none
    else if first = '['.toNat then
      match rest with
      | negation :: excluded :: close :: later =>
        if negation = '^'.toNat ∧ excluded ∉ syntaxUnits ∧ close = ']'.toNat then (pieces later).map (.set (· != excluded) :: ·)
        else none
      | _ => none
    else if first = '.'.toNat then (pieces rest).map (.set (fun unit => !lineTerminators.contains unit) :: ·)
    else if first = '*'.toNat then (pieces rest).map (.star :: ·)
    else if first = '^'.toNat then (pieces rest).map (.start :: ·)
    else if first = '$'.toNat then (pieces rest).map (.finish :: ·)
    else if first ∈ syntaxUnits then none
    else (pieces rest).map (.set (· == first) :: ·)

/-- The terms up to the end. -/
def terms : List Piece → Option (List (Term Nat))
  | [.finish] => some []
  | .set set :: .star :: rest => (terms rest).map (.star set :: ·)
  | .set set :: rest => (terms rest).map (.once set :: ·)
  | _ => none

def compile (source : List Nat) : Option (List (Term Nat)) :=
  (pieces source).bind fun
    | .start :: rest => terms rest
    | _ => none

end UnitExpression

end Foundation
