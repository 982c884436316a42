import AiryFS.Foundation.Json
import Mathlib.Data.List.DropRight

/-! JSON text ends in an ASCII character: a quote, a bracket, a digit, a letter of a word, or a blank. -/

set_option autoImplicit false

namespace Foundation

namespace Json

/-- The last character that was read is ASCII. -/
def Closes (text rest : List Char) : Prop := ∃ used last, text = used ++ last :: rest ∧ last.toNat < 0x80

variable {text middle rest : List Char}

theorem Closes.of_suffix (suffix : middle <:+ text) (closes : Closes middle rest) : Closes text rest := by
  obtain ⟨front, rfl⟩ := suffix
  obtain ⟨used, last, rfl, ascii⟩ := closes
  exact ⟨front ++ used, last, (List.append_assoc _ _ _).symm, ascii⟩

theorem Closes.suffix (closes : Closes text rest) : rest <:+ text := by
  obtain ⟨used, last, rfl, -⟩ := closes
  exact ⟨used ++ [last], by simp⟩

theorem Closes.here {c : Char} (ascii : c.toNat < 0x80) (rest : List Char) : Closes (c :: rest) rest := ⟨[], c, rfl, ascii⟩

theorem skipBlank_suffix (text : List Char) : skipBlank text <:+ text := List.dropWhile_suffix _

theorem closes_digits (some_ : text.takeWhile Char.isDigit ≠ []) : Closes text (text.dropWhile Char.isDigit) := by
  have last := List.mem_takeWhile_imp (List.getLast_mem some_)
  refine ⟨(text.takeWhile Char.isDigit).dropLast, (text.takeWhile Char.isDigit).getLast some_, ?_, ?_⟩
  · rw [List.append_cons, List.dropLast_append_getLast some_, List.takeWhile_append_dropWhile]
  · simp only [Char.isDigit, Bool.and_eq_true, decide_eq_true_eq] at last
    have below : ((text.takeWhile Char.isDigit).getLast some_).val.toNat ≤ 57 := last.2
    exact Nat.lt_of_le_of_lt below (by decide)

theorem closes_fraction {digits : List Char} (read : parseFraction text = some (digits, rest)) : rest = text ∨ Closes text rest := by
  unfold parseFraction at read
  split at read
  · dsimp only at read
    split at read
    · cases read
    · rename_i some_
      cases read
      exact .inr (.of_suffix (List.tail_suffix text) (closes_digits some_))
  · cases read
    exact .inl rfl

theorem closes_exponent {value : Int} (read : parseExponent text = some (value, rest)) : Closes text rest := by
  have front : (if text.head? = some '-' ∨ text.head? = some '+' then text.tail else text) <:+ text := by
    split
    · exact List.tail_suffix text
    · exact List.suffix_refl text
  unfold parseExponent at read
  dsimp only at read
  generalize (if text.head? = some '-' ∨ text.head? = some '+' then text.tail else text) = unsigned at read front
  by_cases none_ : unsigned.takeWhile Char.isDigit = []
  · rw [if_pos none_] at read
    cases read
  · rw [if_neg none_] at read
    cases read
    exact .of_suffix front (closes_digits none_)

theorem closes_number {value : Rat} (read : parseNumber text = some (value, rest)) : Closes text rest := by
  have front : (if text.head? = some '-' then text.tail else text) <:+ text := by
    split
    · exact List.tail_suffix text
    · exact List.suffix_refl text
  unfold parseNumber at read
  dsimp only at read
  generalize (if text.head? = some '-' then text.tail else text) = unsigned at read front
  by_cases bad : unsigned.takeWhile Char.isDigit = [] ∨
      1 < (unsigned.takeWhile Char.isDigit).length ∧ (unsigned.takeWhile Char.isDigit).head? = some '0'
  · rw [if_pos bad] at read
    cases read
  · rw [if_neg bad] at read
    obtain ⟨⟨fraction, behind⟩, point, read⟩ := Option.bind_eq_some_iff.mp read
    have whole := Closes.of_suffix front (closes_digits (not_or.mp bad).1)
    have digits : Closes text behind := by
      rcases closes_fraction point with rfl | more
      · exact whole
      · exact .of_suffix whole.suffix more
    dsimp only at read
    by_cases mark : behind.head? = some 'e' ∨ behind.head? = some 'E'
    · rw [if_pos mark] at read
      obtain ⟨⟨exponent, last⟩, power, whole⟩ := Option.bind_eq_some_iff.mp read
      cases whole
      exact .of_suffix ((List.tail_suffix behind).trans digits.suffix) (closes_exponent power)
    · rw [if_neg mark] at read
      cases read
      exact digits

theorem closes_codes {codes : List Nat} (read : parseCodes text = some (codes, rest)) : Closes text rest := by
  induction text using parseCodes.induct generalizing codes with
  | case1 => cases read
  | case2 text =>
    rw [parseCodes.eq_def] at read
    dsimp only at read
    rw [if_pos rfl] at read
    cases read
    exact .here (show '"'.toNat < 0x80 by decide) rest
  | case3 => cases read
  | case4 first second third fourth text _ ih =>
    rw [parseCodes, if_neg (by decide), if_pos rfl, if_pos rfl] at read
    obtain ⟨code, -, read⟩ := Option.bind_eq_some_iff.mp read
    obtain ⟨⟨later, behind⟩, last, same⟩ := Option.map_eq_some_iff.mp read
    cases same
    exact .of_suffix ⟨['\\', 'u', first, second, third, fourth], rfl⟩ (ih last)
  | case5 text short _ =>
    rw [parseCodes, if_neg (by decide), if_pos rfl, if_pos rfl] at read
    · cases read
    · exact short
  | case6 e text other _ ih =>
    rw [parseCodes.eq_def] at read
    dsimp only at read
    rw [if_neg (by decide), if_pos rfl, if_neg other] at read
    obtain ⟨code, -, read⟩ := Option.bind_eq_some_iff.mp read
    obtain ⟨⟨later, behind⟩, last, same⟩ := Option.map_eq_some_iff.mp read
    cases same
    exact .of_suffix ⟨['\\', e], rfl⟩ (ih last)
  | case7 e text quote backslash control =>
    rw [parseCodes.eq_def] at read
    dsimp only at read
    rw [if_neg quote, if_neg backslash, if_pos control] at read
    cases read
  | case8 e text quote backslash control ih =>
    rw [parseCodes.eq_def] at read
    dsimp only at read
    rw [if_neg quote, if_neg backslash, if_neg control] at read
    obtain ⟨⟨later, behind⟩, last, same⟩ := Option.map_eq_some_iff.mp read
    cases same
    exact .of_suffix ⟨[e], rfl⟩ (ih last)

theorem closes_text {value : List Char} (read : parseText text = some (value, rest)) : Closes text rest := by
  obtain ⟨⟨codes, behind⟩, read, same⟩ := Option.map_eq_some_iff.mp read
  cases same
  exact closes_codes read

theorem closes_word {value : Json} (read : parseWord text = some (value, rest)) : Closes text rest := by
  unfold parseWord at read
  split at read
  · rename_i word
    cases read
    obtain ⟨behind, rfl⟩ := List.isPrefixOf_iff_prefix.mp word
    exact ⟨['t', 'r', 'u'], 'e', rfl, by decide⟩
  · split at read
    · rename_i word
      cases read
      obtain ⟨behind, rfl⟩ := List.isPrefixOf_iff_prefix.mp word
      exact ⟨['f', 'a', 'l', 's'], 'e', rfl, by decide⟩
    · split at read
      · rename_i word
        cases read
        obtain ⟨behind, rfl⟩ := List.isPrefixOf_iff_prefix.mp word
        exact ⟨['n', 'u', 'l'], 'l', rfl, by decide⟩
      · cases read

/-- A bracket that closes at once. -/
theorem closes_mark {mark : Char} (ascii : mark.toNat < 0x80) (head : (skipBlank text).head? = some mark) :
    Closes text (skipBlank text).tail := by
  obtain ⟨behind, shape⟩ := List.head?_eq_some_iff.mp head
  have here := Closes.here ascii behind
  rw [← shape] at here
  rw [shape, List.tail_cons]
  exact .of_suffix (skipBlank_suffix text) here

/-- What stands behind the item: more of them, or the bracket. -/
theorem closes_later {c : Char} (whole : Closes text middle) (shape : skipBlank middle = c :: rest) : rest <:+ text := by
  have inner : c :: rest <:+ middle := shape ▸ skipBlank_suffix middle
  exact ((List.suffix_cons c rest).trans inner).trans whole.suffix

theorem closes_bracket {c : Char} (whole : Closes text middle) (shape : skipBlank middle = c :: rest) (ascii : c.toNat < 0x80) :
    Closes text rest := by
  have inner : c :: rest <:+ middle := shape ▸ skipBlank_suffix middle
  exact .of_suffix (inner.trans whole.suffix) (.here ascii rest)

theorem closes_values (fuel : Nat) : (∀ {text rest : List Char} {value : Json}, parseValue fuel text = some (value, rest) → Closes text rest) ∧
    (∀ {text rest : List Char} {items : List Json}, parseItems fuel text = some (items, rest) → Closes text rest) ∧
    (∀ {text rest : List Char} {members : List (List Char × Json)}, parseMembers fuel text = some (members, rest) → Closes text rest) := by
  induction fuel with
  | zero =>
    refine ⟨?_, ?_, ?_⟩
    all_goals
      intro _ _ _ read
      cases read
  | succ fuel ih =>
    obtain ⟨values, items, members⟩ := ih
    refine ⟨?_, ?_, ?_⟩
    · intro text rest value read
      rw [parseValue] at read
      have inner := skipBlank_suffix text
      split at read
      · cases read
      · rename_i c behind shape
        rw [shape] at inner
        have tail := (List.suffix_cons c behind).trans inner
        split at read
        · obtain ⟨⟨word, after⟩, read, same⟩ := Option.map_eq_some_iff.mp read
          cases same
          exact .of_suffix tail (closes_text read)
        · split at read
          · split at read
            · rename_i close
              cases read
              exact .of_suffix tail (closes_mark (by decide) close)
            · obtain ⟨⟨list, after⟩, read, same⟩ := Option.map_eq_some_iff.mp read
              cases same
              exact .of_suffix tail (members read)
          · split at read
            · split at read
              · rename_i close
                cases read
                exact .of_suffix tail (closes_mark (by decide) close)
              · obtain ⟨⟨list, after⟩, read, same⟩ := Option.map_eq_some_iff.mp read
                cases same
                exact .of_suffix tail (items read)
            · split at read
              · rename_i word
                cases read
                exact .of_suffix inner (closes_word word)
              · obtain ⟨⟨number, after⟩, read, same⟩ := Option.map_eq_some_iff.mp read
                cases same
                exact .of_suffix inner (closes_number read)
    · intro text rest list read
      rw [parseItems] at read
      obtain ⟨⟨item, middle⟩, first, more⟩ := Option.bind_eq_some_iff.mp read
      have whole := values first
      dsimp only at more
      split at more
      · cases more
      · rename_i c behind shape
        split at more
        · obtain ⟨⟨later, after⟩, others, same⟩ := Option.map_eq_some_iff.mp more
          cases same
          exact .of_suffix (closes_later whole shape) (items others)
        · split at more
          · rename_i close
            cases more
            exact closes_bracket whole shape (by rw [close]; decide)
          · cases more
    · intro text rest list read
      rw [parseMembers] at read
      split at read
      · obtain ⟨⟨name, middle⟩, quoted, more⟩ := Option.bind_eq_some_iff.mp read
        have named := Closes.of_suffix ((List.tail_suffix _).trans (skipBlank_suffix text)) (closes_text quoted)
        dsimp only at more
        split at more
        · obtain ⟨⟨value, middle'⟩, first, more⟩ := Option.bind_eq_some_iff.mp more
          have whole := Closes.of_suffix (((List.tail_suffix _).trans (skipBlank_suffix middle)).trans named.suffix) (values first)
          dsimp only at more
          split at more
          · cases more
          · rename_i c behind shape
            split at more
            · obtain ⟨⟨later, after⟩, others, same⟩ := Option.map_eq_some_iff.mp more
              cases same
              exact .of_suffix (closes_later whole shape) (members others)
            · split at more
              · rename_i close
                cases more
                exact closes_bracket whole shape (by rw [close]; decide)
              · cases more
        · cases more
      · cases read

/-- **No other character ends a JSON text.** -/
theorem parse_ends {text : List Char} {c : Char} (wide : 0x80 ≤ c.toNat) : parse (text ++ [c]) = none := by
  unfold parse
  split
  · rename_i value rest read
    split
    · rename_i blanks
      obtain ⟨used, last, shape, ascii⟩ := (closes_values _).1 read
      cases rest using List.reverseRecOn with
      | nil =>
        obtain ⟨-, same⟩ := List.append_inj' shape rfl
        cases same
        omega
      | append_singleton rest d =>
        have shape : text ++ [c] = used ++ last :: rest ++ [d] := by rw [shape]; simp
        obtain ⟨-, same⟩ := List.append_inj' shape rfl
        cases same
        have blank_ : blank c = true := by
          rw [skipBlank, List.dropWhile_eq_nil_iff] at blanks
          exact blanks c (by simp)
        simp only [blank, Bool.or_eq_true, decide_eq_true_eq] at blank_
        rcases blank_ with ((rfl | rfl) | rfl) | rfl <;> exact absurd wide (by decide)
    · rfl
  · rfl

end Json

end Foundation
