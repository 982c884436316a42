import Mathlib.Data.List.DropRight
import Mathlib.Tactic.Common

/-! The white space of ECMAScript, line ends included. -/

set_option autoImplicit false

namespace Foundation

namespace WhiteSpace

/-- `\s`. -/
def isBlank (character : Char) : Bool :=
  let code := character.toNat
  (9 ≤ code && code ≤ 13) || (0x2000 ≤ code && code ≤ 0x200A) ||
    code ∈ [0x20, 0xA0, 0x1680, 0x2028, 0x2029, 0x202F, 0x205F, 0x3000, 0xFEFF]

def trim (text : List Char) : List Char := (text.dropWhile isBlank).rdropWhile isBlank

/-- White space in front, what is left, and white space behind. -/
theorem trim_parts (text : List Char) : ∃ front behind, text = front ++ trim text ++ behind ∧
    (∀ c ∈ front, isBlank c = true) ∧ ∀ c ∈ behind, isBlank c = true := by
  refine ⟨text.takeWhile isBlank, (text.dropWhile isBlank).rtakeWhile isBlank, ?_, ?_, ?_⟩
  · rw [trim, List.append_assoc, List.rdropWhile_append_rtakeWhile, List.takeWhile_append_dropWhile]
  · exact fun c member => List.mem_takeWhile_imp member
  · exact fun c member => List.mem_rtakeWhile_imp member

theorem rdropWhile_append (text : List Char) {behind : List Char} (blank : ∀ c ∈ behind, isBlank c = true) :
    (text ++ behind).rdropWhile isBlank = text.rdropWhile isBlank := by
  induction behind using List.reverseRecOn with
  | nil => rw [List.append_nil]
  | append_singleton behind c ih =>
    rw [← List.append_assoc, List.rdropWhile_concat_pos _ _ _ (blank c (by simp)),
      ih fun c member => blank c (List.mem_append_left _ member)]

/-- A text is cut behind its last character that is no white space. -/
theorem trim_append {text behind : List Char} {last : Char} (solid : isBlank last = false)
    (blank : ∀ c ∈ behind, isBlank c = true) : trim (text ++ last :: behind) = text.dropWhile isBlank ++ [last] := by
  have kept : (last :: behind).dropWhile isBlank = last :: behind := by
    rw [List.dropWhile_cons, solid]
    rfl
  have started : (text ++ last :: behind).dropWhile isBlank = text.dropWhile isBlank ++ [last] ++ behind := by
    rw [List.dropWhile_append, kept]
    split
    · rename_i none_
      rw [List.isEmpty_iff] at none_
      rw [none_]
      rfl
    · simp
  rw [trim, started, rdropWhile_append _ blank, List.rdropWhile_concat_neg]
  simpa using solid

end WhiteSpace

end Foundation
