import AiryFS.Foundation.JsonText
import AiryFS.Foundation.Separated

/-! JSON values on lines of their own.

The text of a value has no line break in it: within a string one is escaped, and a number that
reads back has none. So the lines of a text are the values it was written from.
-/

set_option autoImplicit false

namespace Foundation

namespace Json

def printLines (numeral : Rat → List Char) (values : List Json) : List Char :=
  values.flatMap fun value => print numeral value ++ ['\n']

/-- Every line that is not empty is a value. -/
def parseLines (text : List Char) : Option (List Json) := (fields '\n' text).mapM parse

/-! ## Line breaks -/

/-- The part of a text that was read has no line break. -/
def Reads (text rest : List Char) : Prop := ∃ used, text = used ++ rest ∧ '\n' ∉ used

theorem Reads.refl (text : List Char) : Reads text text := ⟨[], rfl, by simp⟩

theorem Reads.trans {text middle rest : List Char} (first : Reads text middle) (second : Reads middle rest) : Reads text rest := by
  obtain ⟨used, rfl, clean⟩ := first
  obtain ⟨used', rfl, clean'⟩ := second
  exact ⟨used ++ used', by rw [List.append_assoc], by simp [clean, clean']⟩

theorem reads_dropWhile (text : List Char) : Reads text (text.dropWhile Char.isDigit) := by
  refine ⟨text.takeWhile Char.isDigit, List.takeWhile_append_dropWhile.symm, ?_⟩
  intro inside
  cases List.mem_takeWhile_imp inside

/-- A sign, a point or an exponent mark. -/
theorem reads_tail {text : List Char} {mark : Char} (first : text.head? = some mark) (other : mark ≠ '\n') :
    Reads text text.tail := by
  cases text with
  | nil => cases first
  | cons c rest =>
    cases first
    exact ⟨[mark], rfl, by simpa using other.symm⟩

theorem reads_fraction {text digits rest : List Char} (read : parseFraction text = some (digits, rest)) : Reads text rest := by
  unfold parseFraction at read
  split at read
  · rename_i point
    dsimp only at read
    split at read
    · cases read
    · cases read
      exact (reads_tail point (by decide)).trans (reads_dropWhile _)
  · cases read
    exact .refl text

theorem reads_exponent {text rest : List Char} {value : Int} (read : parseExponent text = some (value, rest)) :
    Reads text rest := by
  have front : Reads text (if text.head? = some '-' ∨ text.head? = some '+' then text.tail else text) := by
    split
    · rename_i signed
      rcases signed with minus | plus
      · exact reads_tail minus (by decide)
      · exact reads_tail plus (by decide)
    · exact .refl text
  unfold parseExponent at read
  dsimp only at read
  generalize (if text.head? = some '-' ∨ text.head? = some '+' then text.tail else text) = unsigned at read front
  by_cases none_ : unsigned.takeWhile Char.isDigit = []
  · rw [if_pos none_] at read
    cases read
  · rw [if_neg none_] at read
    cases read
    exact front.trans (reads_dropWhile _)

theorem reads_number {text rest : List Char} {value : Rat} (read : parseNumber text = some (value, rest)) : Reads text rest := by
  have front : Reads text (if text.head? = some '-' then text.tail else text) := by
    split
    · rename_i minus
      exact reads_tail minus (by decide)
    · exact .refl text
  unfold parseNumber at read
  dsimp only at read
  generalize (if text.head? = some '-' then text.tail else text) = unsigned at read front
  by_cases bad : unsigned.takeWhile Char.isDigit = [] ∨
      1 < (unsigned.takeWhile Char.isDigit).length ∧ (unsigned.takeWhile Char.isDigit).head? = some '0'
  · rw [if_pos bad] at read
    cases read
  · rw [if_neg bad] at read
    obtain ⟨⟨fraction, behind⟩, point, read⟩ := Option.bind_eq_some_iff.mp read
    have digits := (front.trans (reads_dropWhile _)).trans (reads_fraction point)
    dsimp only at read
    by_cases mark : behind.head? = some 'e' ∨ behind.head? = some 'E'
    · rw [if_pos mark] at read
      obtain ⟨⟨exponent, last⟩, power, whole⟩ := Option.bind_eq_some_iff.mp read
      cases whole
      have marked : Reads behind behind.tail := by
        rcases mark with mark | mark
        · exact reads_tail mark (by decide)
        · exact reads_tail mark (by decide)
      exact (digits.trans marked).trans (reads_exponent power)
    · rw [if_neg mark] at read
      cases read
      exact digits

variable {numeral : Rat → List Char}

theorem Legible.newline {value : Rat} (legible : Legible numeral value) : '\n' ∉ numeral value := by
  have read := legible.reads [] ends_nil
  rw [List.append_nil] at read
  obtain ⟨used, whole, clean⟩ := reads_number read
  rw [whole, List.append_nil]
  exact clean

theorem newline_quote (text : List Char) : '\n' ∉ quote text := by
  have escaped : ∀ c : Char, '\n' ∉ escape c := by
    intro c
    unfold escape
    split_ifs with h1 h2 h3 h4 h5 h6 h7 h8
    · decide
    · decide
    · decide
    · decide
    · decide
    · decide
    · decide
    · have digits : ∀ n < 16, Nat.digitChar n ≠ '\n' := by decide
      have low := digits (c.toNat % 16) (Nat.mod_lt _ (by decide))
      have high := digits (c.toNat / 16) (by omega)
      simp only [List.mem_cons, List.not_mem_nil, or_false]
      rintro (same | same | same | same | same | same)
      · cases same
      · cases same
      · cases same
      · cases same
      · exact high same.symm
      · exact low same.symm
    · intro same
      rw [← List.mem_singleton.mp same] at h5
      exact h5 rfl
  simp only [quote, List.cons_append, List.mem_cons, List.mem_append, List.mem_flatMap, List.not_mem_nil, or_false]
  rintro (mark | ⟨c, -, inside⟩ | mark)
  · cases mark
  · exact escaped c inside
  · cases mark

mutual

theorem newline_print : ∀ (value : Json), Printable numeral value → '\n' ∉ print numeral value
  | .null, _ => by simp [print]
  | .bool true, _ => by simp [print]
  | .bool false, _ => by simp [print]
  | .number none, printable => by cases printable
  | .number (some _), printable => Legible.newline printable
  | .string text, _ => newline_quote text
  | .array [], _ => by simp [print]
  | .array (item :: rest), printable => by
    obtain ⟨first, later⟩ := printable
    have here := newline_print item first
    have there := newline_printItems rest later
    simp [print, here, there]
  | .object [], _ => by simp [print]
  | .object ((name, value) :: rest), printable => by
    obtain ⟨first, later⟩ := printable
    have quoted := newline_quote name
    have here := newline_print value first
    have there := newline_printMembers rest later
    simp [print, quoted, here, there]

theorem newline_printItems : ∀ (items : List Json), PrintableItems numeral items → '\n' ∉ printItems numeral items
  | [], _ => by simp [printItems]
  | item :: rest, printable => by
    obtain ⟨first, later⟩ := printable
    have here := newline_print item first
    have there := newline_printItems rest later
    simp [printItems, here, there]

theorem newline_printMembers : ∀ (members : List (List Char × Json)), PrintableMembers numeral members →
    '\n' ∉ printMembers numeral members
  | [], _ => by simp [printMembers]
  | (name, value) :: rest, printable => by
    obtain ⟨first, later⟩ := printable
    have quoted := newline_quote name
    have here := newline_print value first
    have there := newline_printMembers rest later
    simp [printMembers, quoted, here, there]

end

/-! ## Lines read back -/

theorem fields_printLines {values : List Json} (printable : ∀ value ∈ values, Printable numeral value) :
    fields '\n' (printLines numeral values) = values.map (print numeral) := by
  induction values with
  | nil => rfl
  | cons value values ih =>
    have first := printable value List.mem_cons_self
    have alone : fields '\n' (print numeral value) = [print numeral value] := by
      have single : Separable '\n' [print numeral value] := by
        intro piece member
        rw [List.mem_singleton.mp member]
        exact ⟨print_ne_nil first, newline_print value first⟩
      have joined := fields_intercalate single
      rwa [List.intercalate_singleton] at joined
    have cons : printLines numeral (value :: values) = print numeral value ++ '\n' :: printLines numeral values := by
      simp [printLines]
    rw [cons, fields_append_sep, alone, ih fun other member => printable other (List.mem_cons_of_mem _ member)]
    rfl

/-- What was written on lines reads back. -/
theorem parseLines_printLines {values : List Json} (printable : ∀ value ∈ values, Printable numeral value) :
    parseLines (printLines numeral values) = some values := by
  rw [parseLines, fields_printLines printable]
  induction values with
  | nil => rfl
  | cons value values ih =>
    rw [List.map_cons, List.mapM_cons, parse_print (printable value List.mem_cons_self),
      ih fun other member => printable other (List.mem_cons_of_mem _ member)]
    rfl

end Json

end Foundation
