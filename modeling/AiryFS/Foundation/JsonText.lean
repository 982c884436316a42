import AiryFS.Foundation.Json

/-! JSON text of any value, and that it reads back as the value.

How a number is spelled is left open: any spelling that reads back as the number will do.
-/

set_option autoImplicit false

namespace Foundation

namespace Json

variable (numeral : Rat → List Char)

mutual

def print : Json → List Char
  | .null => "null".toList
  | .bool true => "true".toList
  | .bool false => "false".toList
  | .number none => "null".toList
  | .number (some value) => numeral value
  | .string text => quote text
  | .array [] => ['[', ']']
  | .array (item :: rest) => '[' :: print item ++ printItems rest
  | .object [] => ['{', '}']
  | .object ((name, value) :: rest) => '{' :: quote name ++ ':' :: print value ++ printMembers rest

/-- The items after the first, and the bracket. -/
def printItems : List Json → List Char
  | [] => [']']
  | item :: rest => ',' :: print item ++ printItems rest

/-- The members after the first, and the brace. -/
def printMembers : List (List Char × Json) → List Char
  | [] => ['}']
  | (name, value) :: rest => ',' :: quote name ++ ':' :: print value ++ printMembers rest

end

/-- The spelling of a double reads back as the double. -/
structure Legible (value : Rat) : Prop where
  double : toDouble value = some value
  reads : ∀ rest, Ends rest → parseNumber (numeral value ++ rest) = some (value, rest)

mutual

/-- Every number in the value is one that reads back. -/
def Printable : Json → Prop
  | .number none => False
  | .number (some value) => Legible numeral value
  | .array items => PrintableItems items
  | .object members => PrintableMembers members
  | _ => True

def PrintableItems : List Json → Prop
  | [] => True
  | item :: rest => Printable item ∧ PrintableItems rest

def PrintableMembers : List (List Char × Json) → Prop
  | [] => True
  | (_, value) :: rest => Printable value ∧ PrintableMembers rest

end

variable {numeral}

/-! ## What stands at the ends of a text -/

theorem ends_nil : Ends [] := ⟨by simp, by simp, by simp⟩

theorem ends_bracket (rest : List Char) : Ends (']' :: rest) := ⟨by simp, by simp, by simp⟩

theorem ends_printItems (items : List Json) (rest : List Char) : Ends (printItems numeral items ++ rest) := by
  cases items with
  | nil => exact ends_bracket rest
  | cons item items => exact ends_cons (.inl rfl) _

theorem ends_printMembers (members : List (List Char × Json)) (rest : List Char) :
    Ends (printMembers numeral members ++ rest) := by
  cases members with
  | nil => exact ends_cons (.inr rfl) rest
  | cons member members => exact ends_cons (.inl rfl) _

/-- A number starts with a digit or a sign. -/
theorem Legible.leading {value : Rat} (legible : Legible numeral value) :
    ∃ c rest, numeral value = c :: rest ∧ (c = '-' ∨ c.isDigit = true) := by
  have reads := legible.reads [] ends_nil
  rw [List.append_nil] at reads
  cases spelled : numeral value with
  | nil =>
    rw [spelled] at reads
    simp [parseNumber] at reads
  | cons c rest =>
    refine ⟨c, rest, rfl, ?_⟩
    by_contra neither
    rw [not_or, Bool.not_eq_true] at neither
    rw [spelled] at reads
    simp [parseNumber, neither.1, neither.2] at reads

/-! ## Values read back -/

theorem parseValue_word (fuel : Nat) {value : Json} {first : Char} {letters : List Char}
    (printed : blank first = false) (other : first ≠ '"' ∧ first ≠ '{' ∧ first ≠ '[') (rest : List Char)
    (word : parseWord (first :: (letters ++ rest)) = some (value, rest)) :
    parseValue (fuel + 1) (first :: letters ++ rest) = some (value, rest) := by
  rw [List.cons_append, parseValue, skipBlank_cons printed]
  dsimp only
  rw [if_neg other.1, if_neg other.2.1, if_neg other.2.2, word]

theorem parseValue_number (fuel : Nat) {value : Rat} (legible : Legible numeral value) {rest : List Char}
    (ends : Ends rest) : parseValue (fuel + 1) (numeral value ++ rest) = some (.number (some value), rest) := by
  have reads := legible.reads rest ends
  obtain ⟨first, others, spelled, leading⟩ := legible.leading
  have other : ∀ c : Char, c.isDigit = false → c ≠ '-' → first ≠ c := by
    rintro c plain unsigned rfl
    rcases leading with sign | digit
    · exact unsigned sign
    · rw [plain] at digit
      cases digit
  have printed : blank first = false := by
    simp [blank, other ' ' (by decide) (by decide), other '\t' (by decide) (by decide),
      other '\n' (by decide) (by decide), other '\r' (by decide) (by decide)]
  have word : parseWord (first :: (others ++ rest)) = none := by
    simp [parseWord, Ne.symm (other 't' (by decide) (by decide)), Ne.symm (other 'f' (by decide) (by decide)),
      Ne.symm (other 'n' (by decide) (by decide))]
  rw [spelled] at reads ⊢
  rw [List.cons_append, parseValue, skipBlank_cons printed]
  dsimp only
  rw [if_neg (other '"' (by decide) (by decide)), if_neg (other '{' (by decide) (by decide)),
    if_neg (other '[' (by decide) (by decide)), word]
  dsimp only
  rw [← List.cons_append, reads, Option.map_some]
  dsimp only
  rw [legible.double]

/-- What the text of a value can start with. -/
def Starts (c : Char) : Prop := c = '-' ∨ c.isDigit = true ∨ c ∈ ['n', 't', 'f', '"', '[', '{']

instance (c : Char) : Decidable (Starts c) := inferInstanceAs (Decidable (_ ∨ _ ∨ _))

theorem Starts.ne {first c : Char} (starts : Starts first) (other : ¬Starts c) : first ≠ c := by
  rintro rfl
  exact other starts

theorem Starts.skipBlank {first : Char} (starts : Starts first) (rest : List Char) :
    Json.skipBlank (first :: rest) = first :: rest := by
  apply skipBlank_cons
  have space := starts.ne (show ¬Starts ' ' by decide)
  have tab := starts.ne (show ¬Starts '\t' by decide)
  have newline := starts.ne (show ¬Starts '\n' by decide)
  have return_ := starts.ne (show ¬Starts '\r' by decide)
  simp [blank, space, tab, newline, return_]

theorem print_starts {value : Json} (printable : Printable numeral value) :
    ∃ first others, print numeral value = first :: others ∧ Starts first := by
  cases value with
  | null => exact ⟨_, _, rfl, by decide⟩
  | bool value => cases value <;> exact ⟨_, _, rfl, by decide⟩
  | number value =>
    cases value with
    | none => exact absurd printable (by simp [Printable])
    | some value =>
      have legible : Legible numeral value := by simpa [Printable] using printable
      obtain ⟨first, others, spelled, leading⟩ := legible.leading
      exact ⟨first, others, by rw [print, spelled], leading.imp_right Or.inl⟩
  | string text => exact ⟨'"', _, rfl, by decide⟩
  | array items => cases items <;> exact ⟨'[', _, rfl, by decide⟩
  | object members => cases members <;> exact ⟨'{', _, rfl, by decide⟩

theorem print_ne_nil {value : Json} (printable : Printable numeral value) : print numeral value ≠ [] := by
  obtain ⟨first, others, spelled, -⟩ := print_starts printable
  rw [spelled]
  exact List.cons_ne_nil first others

/-- A member up to its value. -/
theorem parseMembers_quoted (fuel : Nat) (name text : List Char) :
    parseMembers (fuel + 1) (quote name ++ ':' :: text) =
      (parseValue fuel text).bind fun read =>
        match skipBlank read.2 with
        | [] => none
        | c :: rest =>
          if c = ',' then (parseMembers fuel rest).map fun later => ((name, read.1) :: later.1, later.2)
          else if c = '}' then some ([(name, read.1)], rest)
          else none := by
  have spelled : quote name ++ ':' :: text = '"' :: (name.flatMap escape ++ '"' :: (':' :: text)) := by
    simp [quote]
  rw [spelled, parseMembers, skipBlank_cons (by decide), List.head?_cons, if_pos rfl, List.tail_cons, parseText_quoted]
  simp only [Option.bind_eq_bind, Option.bind_some]
  rw [skipBlank_cons (by decide), List.head?_cons, if_pos rfl]
  rfl

mutual

theorem parseValue_print : ∀ (value : Json) (fuel : Nat) (rest : List Char), Printable numeral value →
    2 * (print numeral value).length ≤ fuel → Ends rest →
    parseValue fuel (print numeral value ++ rest) = some (value, rest)
  | .null, fuel + 1, rest, _, _, _ => parseValue_word fuel (by decide) (by decide) rest rfl
  | .bool true, fuel + 1, rest, _, _, _ => parseValue_word fuel (by decide) (by decide) rest rfl
  | .bool false, fuel + 1, rest, _, _, _ => parseValue_word fuel (by decide) (by decide) rest rfl
  | .number none, _, _, printable, _, _ => absurd printable (by simp [Printable])
  | .number (some value), 0, rest, printable, enough, _ => by
    have filled := List.length_pos_iff.mpr (print_ne_nil printable)
    omega
  | .number (some value), fuel + 1, rest, printable, _, ends => by
    have legible : Legible numeral value := by simpa [Printable] using printable
    exact parseValue_number fuel legible ends
  | .string text, fuel + 1, rest, _, _, _ => by
    rw [print, quote, List.cons_append, List.cons_append, List.append_assoc, List.singleton_append, parseValue,
      skipBlank_cons (by decide)]
    dsimp only
    rw [if_pos rfl, parseText_quoted]
    rfl
  | .array [], fuel + 1, rest, _, _, _ => rfl
  | .array (item :: items), fuel + 1, rest, printable, enough, _ => by
    simp only [Printable, PrintableItems] at printable
    simp only [print, List.length_cons, List.length_append] at enough
    have first : ∀ fuel rest, 2 * (print numeral item).length ≤ fuel → Ends rest →
        parseValue fuel (print numeral item ++ rest) = some (item, rest) := fun fuel rest =>
      parseValue_print item fuel rest printable.1
    have listed := parseItems_print items item fuel rest printable.2 first (by omega)
    obtain ⟨head, others, spelled, starts⟩ := print_starts printable.1
    have filled : ¬head = ']' := starts.ne (by decide)
    rw [print, List.cons_append, List.cons_append, List.append_assoc, parseValue, skipBlank_cons (by decide)]
    dsimp only
    rw [if_neg (by decide), if_neg (by decide), if_pos rfl, spelled, List.cons_append, starts.skipBlank,
      if_neg (by simpa using filled), ← List.cons_append, ← spelled, listed]
    rfl
  | .object [], fuel + 1, rest, _, _, _ => rfl
  | .object ((name, value) :: members), fuel + 1, rest, printable, enough, _ => by
    simp only [Printable, PrintableMembers] at printable
    simp only [print, List.length_cons, List.length_append] at enough
    have first : ∀ fuel rest, 2 * (print numeral value).length ≤ fuel → Ends rest →
        parseValue fuel (print numeral value ++ rest) = some (value, rest) := fun fuel rest =>
      parseValue_print value fuel rest printable.1
    have listed := parseMembers_print members name value fuel rest printable.2 first (by omega)
    have opens : (skipBlank (quote name ++ ':' :: (print numeral value ++ (printMembers numeral members ++ rest)))).head? =
        some '"' := by
      rw [quote, List.cons_append, List.cons_append, skipBlank_cons (by decide)]
      rfl
    rw [print, List.cons_append, List.cons_append, List.cons_append, parseValue, skipBlank_cons (by decide)]
    dsimp only
    simp only [List.append_assoc, List.cons_append] at listed opens ⊢
    rw [if_neg (by decide), if_pos trivial, opens, if_neg (by decide), listed]
    rfl

theorem parseItems_print : ∀ (items : List Json) (item : Json) (fuel : Nat) (rest : List Char),
    PrintableItems numeral items →
    (∀ fuel rest, 2 * (print numeral item).length ≤ fuel → Ends rest →
      parseValue fuel (print numeral item ++ rest) = some (item, rest)) →
    2 * (print numeral item).length + 2 * (printItems numeral items).length ≤ fuel →
    parseItems fuel (print numeral item ++ (printItems numeral items ++ rest)) = some (item :: items, rest)
  | [], item, 0, rest, _, _, enough => by simp [printItems] at enough
  | [], item, fuel + 1, rest, _, first, enough => by
    simp only [printItems, List.length_singleton] at enough
    rw [printItems, List.singleton_append, parseItems, first fuel _ (by omega) (ends_bracket rest)]
    rfl
  | _ :: _, item, 0, rest, _, _, enough => by simp [printItems] at enough
  | second :: others, item, fuel + 1, rest, printable, first, enough => by
    simp only [PrintableItems] at printable
    simp only [printItems, List.length_cons, List.length_append] at enough
    have next : ∀ fuel rest, 2 * (print numeral second).length ≤ fuel → Ends rest →
        parseValue fuel (print numeral second ++ rest) = some (second, rest) := fun fuel rest =>
      parseValue_print second fuel rest printable.1
    have later := parseItems_print others second fuel rest printable.2 next (by omega)
    have ends : Ends (printItems numeral (second :: others) ++ rest) := ends_printItems _ rest
    rw [parseItems, first fuel _ (by omega) ends]
    simp only [Option.bind_eq_bind, Option.bind_some, printItems, List.cons_append, List.append_assoc]
    rw [skipBlank_cons (by decide)]
    dsimp only
    rw [if_pos rfl, later]
    rfl

theorem parseMembers_print : ∀ (members : List (List Char × Json)) (name : List Char) (value : Json) (fuel : Nat)
    (rest : List Char), PrintableMembers numeral members →
    (∀ fuel rest, 2 * (print numeral value).length ≤ fuel → Ends rest →
      parseValue fuel (print numeral value ++ rest) = some (value, rest)) →
    2 * (print numeral value).length + 2 * (printMembers numeral members).length ≤ fuel →
    parseMembers fuel (quote name ++ ':' :: (print numeral value ++ (printMembers numeral members ++ rest))) =
      some ((name, value) :: members, rest)
  | [], _, _, 0, rest, _, _, enough => by simp [printMembers] at enough
  | [], name, value, fuel + 1, rest, _, first, enough => by
    simp only [printMembers, List.length_singleton] at enough
    rw [parseMembers_quoted, printMembers, List.singleton_append, first fuel _ (by omega) (ends_cons (.inr rfl) rest)]
    rfl
  | _ :: _, _, _, 0, rest, _, _, enough => by simp [printMembers] at enough
  | (second, held) :: others, name, value, fuel + 1, rest, printable, first, enough => by
    simp only [PrintableMembers] at printable
    simp only [printMembers, List.length_cons, List.length_append] at enough
    have next : ∀ fuel rest, 2 * (print numeral held).length ≤ fuel → Ends rest →
        parseValue fuel (print numeral held ++ rest) = some (held, rest) := fun fuel rest =>
      parseValue_print held fuel rest printable.1
    have later := parseMembers_print others second held fuel rest printable.2 next (by omega)
    have ends : Ends (printMembers numeral ((second, held) :: others) ++ rest) := ends_printMembers _ rest
    rw [parseMembers_quoted, first fuel _ (by omega) ends]
    simp only [Option.bind_some, printMembers, List.cons_append, List.append_assoc]
    rw [skipBlank_cons (by decide)]
    dsimp only
    rw [if_pos rfl, later]
    rfl

end

/-- What was written reads back. -/
theorem parse_print {value : Json} (printable : Printable numeral value) :
    parse (print numeral value) = some value := by
  have read := parseValue_print value (2 * (print numeral value).length + 2) [] printable (by omega) ends_nil
  rw [List.append_nil] at read
  rw [parse, read]
  rfl

end Json

end Foundation
