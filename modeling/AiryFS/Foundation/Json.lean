import Mathlib.Data.Int.Log
import Mathlib.Data.Rat.Floor
import Mathlib.Tactic.Common

/-! JSON text: what a reader makes of it, and how flat objects are written.

A number is the double nearest to what is written; one too large for a double has no value.
Half of a surrogate pair on its own becomes the replacement character, as it does in storage.
-/

set_option autoImplicit false

namespace Foundation

inductive Json where
  | null
  | bool (value : Bool)
  | number (value : Option Rat)
  | string (value : List Char)
  | array (items : List Json)
  | object (members : List (List Char × Json))

namespace Json

/-! ## Numbers -/

def roundHalfEven (value : Rat) : Int :=
  let below := ⌊value⌋
  let beyond := value - below
  if beyond < 1 / 2 ∨ beyond = 1 / 2 ∧ below % 2 = 0 then below else below + 1

/-- The nearest double: 53 bits of significand, and no step below 2^-1074. -/
def toDouble (value : Rat) : Option Rat :=
  if value = 0 then some 0
  else
    let step : Rat := 2 ^ max (Int.log 2 |value| - 52) (-1074)
    let nearest := roundHalfEven (value / step) * step
    if |nearest| < 2 ^ 1024 then some nearest else none

def parseExponent (text : List Char) : Option (Int × List Char) :=
  let negative := text.head? = some '-'
  let text := if negative ∨ text.head? = some '+' then text.tail else text
  let digits := text.takeWhile Char.isDigit
  if digits = [] then none
  else
    let size : Int := Nat.ofDigitChars 10 digits 0
    some (if negative then -size else size, text.dropWhile Char.isDigit)

/-- The digits after a point. -/
def parseFraction (text : List Char) : Option (List Char × List Char) :=
  if text.head? = some '.' then
    let digits := text.tail.takeWhile Char.isDigit
    if digits = [] then none else some (digits, text.tail.dropWhile Char.isDigit)
  else some ([], text)

def parseNumber (text : List Char) : Option (Rat × List Char) := do
  let negative := text.head? = some '-'
  let text := if negative then text.tail else text
  let whole := text.takeWhile Char.isDigit
  if whole = [] ∨ 1 < whole.length ∧ whole.head? = some '0' then none
  else
    let (fraction, text) ← parseFraction (text.dropWhile Char.isDigit)
    let (exponent, text) ←
      if text.head? = some 'e' ∨ text.head? = some 'E' then parseExponent text.tail else some (0, text)
    let digits : Rat := (Nat.ofDigitChars 10 (whole ++ fraction) 0 : Nat)
    let size := digits * 10 ^ (exponent - fraction.length)
    return (if negative then -size else size, text)

/-! ## Strings -/

def hexDigit (c : Char) : Option Nat :=
  if '0' ≤ c ∧ c ≤ '9' then some (c.toNat - 48)
  else if 'a' ≤ c ∧ c ≤ 'f' then some (c.toNat - 87)
  else if 'A' ≤ c ∧ c ≤ 'F' then some (c.toNat - 55)
  else none

def hexDigits (digits : List Char) : Option Nat :=
  digits.foldlM (fun code digit => (hexDigit digit).map (code * 16 + ·)) 0

/-- What a backslash and one more character stand for. -/
def unescape (c : Char) : Option Nat :=
  match c with
  | '"' => some 34
  | '\\' => some 92
  | '/' => some 47
  | 'b' => some 8
  | 'f' => some 12
  | 'n' => some 10
  | 'r' => some 13
  | 't' => some 9
  | _ => none

/-- The codes of a string, read after its opening quote. -/
def parseCodes : List Char → Option (List Nat × List Char)
  | [] => none
  | c :: rest =>
    if c = '"' then some ([], rest)
    else if c = '\\' then
      match rest with
      | [] => none
      | e :: rest =>
        if e = 'u' then
          match rest with
          | first :: second :: third :: fourth :: rest => do
            let code ← hexDigits [first, second, third, fourth]
            (parseCodes rest).map fun (codes, rest) => (code :: codes, rest)
          | _ => none
        else do
          let code ← unescape e
          (parseCodes rest).map fun (codes, rest) => (code :: codes, rest)
    else if c.toNat < 0x20 then none
    else (parseCodes rest).map fun (codes, rest) => (c.toNat :: codes, rest)

def highSurrogate (code : Nat) : Bool := 0xD800 ≤ code && code ≤ 0xDBFF

def lowSurrogate (code : Nat) : Bool := 0xDC00 ≤ code && code ≤ 0xDFFF

def single (code : Nat) : Char := if highSurrogate code || lowSurrogate code then Char.ofNat 0xFFFD else Char.ofNat code

/-- Two halves of a pair stand for one character. -/
def join : List Nat → List Char
  | [] => []
  | [code] => [single code]
  | high :: low :: rest =>
    if highSurrogate high && lowSurrogate low then
      Char.ofNat (0x10000 + (high - 0xD800) * 0x400 + (low - 0xDC00)) :: join rest
    else single high :: join (low :: rest)

def parseText (text : List Char) : Option (List Char × List Char) :=
  (parseCodes text).map fun (codes, rest) => (join codes, rest)

/-! ## Values -/

def blank (c : Char) : Bool := c = ' ' || c = '\t' || c = '\n' || c = '\r'

def skipBlank (text : List Char) : List Char := text.dropWhile blank

/-- The three words that are values. -/
def parseWord (text : List Char) : Option (Json × List Char) :=
  if "true".toList.isPrefixOf text then some (.bool true, text.drop 4)
  else if "false".toList.isPrefixOf text then some (.bool false, text.drop 5)
  else if "null".toList.isPrefixOf text then some (.null, text.drop 4)
  else none

mutual

def parseValue : Nat → List Char → Option (Json × List Char)
  | 0, _ => none
  | fuel + 1, text =>
    match skipBlank text with
    | [] => none
    | c :: rest =>
      if c = '"' then (parseText rest).map fun (value, rest) => (.string value, rest)
      else if c = '{' then
        if (skipBlank rest).head? = some '}' then some (.object [], (skipBlank rest).tail)
        else (parseMembers fuel rest).map fun (members, rest) => (.object members, rest)
      else if c = '[' then
        if (skipBlank rest).head? = some ']' then some (.array [], (skipBlank rest).tail)
        else (parseItems fuel rest).map fun (items, rest) => (.array items, rest)
      else match parseWord (c :: rest) with
        | some word => some word
        | none => (parseNumber (c :: rest)).map fun (value, rest) => (.number (toDouble value), rest)

def parseItems : Nat → List Char → Option (List Json × List Char)
  | 0, _ => none
  | fuel + 1, text => do
    let (item, rest) ← parseValue fuel text
    match skipBlank rest with
    | [] => none
    | c :: rest =>
      if c = ',' then (parseItems fuel rest).map fun (items, rest) => (item :: items, rest)
      else if c = ']' then some ([item], rest)
      else none

def parseMembers : Nat → List Char → Option (List (List Char × Json) × List Char)
  | 0, _ => none
  | fuel + 1, text => do
    if (skipBlank text).head? = some '"' then
      let (name, rest) ← parseText (skipBlank text).tail
      if (skipBlank rest).head? = some ':' then
        let (value, rest) ← parseValue fuel (skipBlank rest).tail
        match skipBlank rest with
        | [] => none
        | c :: rest =>
          if c = ',' then (parseMembers fuel rest).map fun (members, rest) => ((name, value) :: members, rest)
          else if c = '}' then some ([(name, value)], rest)
          else none
      else none
    else none

end

/-- Every level of nesting takes a character, and two calls. -/
def parse (text : List Char) : Option Json :=
  match parseValue (2 * text.length + 2) text with
  | some (value, rest) => if skipBlank rest = [] then some value else none
  | none => none

/-- A member of an object: of two with one name, the last. -/
def field (value : Json) (name : List Char) : Option Json :=
  match value with
  | object members => (members.reverse.find? fun entry => entry.1 = name).map Prod.snd
  | _ => none

/-! ## Writing -/

def escape (c : Char) : List Char :=
  if c = '"' then ['\\', '"']
  else if c = '\\' then ['\\', '\\']
  else if c.toNat = 8 then ['\\', 'b']
  else if c.toNat = 12 then ['\\', 'f']
  else if c.toNat = 10 then ['\\', 'n']
  else if c.toNat = 13 then ['\\', 'r']
  else if c.toNat = 9 then ['\\', 't']
  else if c.toNat < 0x20 then ['\\', 'u', '0', '0', Nat.digitChar (c.toNat / 16), Nat.digitChar (c.toNat % 16)]
  else [c]

def quote (text : List Char) : List Char := '"' :: text.flatMap escape ++ ['"']

/-- A member value that is text or a natural number. -/
inductive Scalar where
  | string (value : List Char)
  | natural (value : Nat)
  deriving DecidableEq, Repr

def Scalar.stringify : Scalar → List Char
  | string value => quote value
  | natural value => Nat.toDigits 10 value

def Scalar.json : Scalar → Json
  | string value => .string value
  | natural value => .number (some value)

def stringifyMember (entry : List Char × Scalar) : List Char := quote entry.1 ++ ':' :: entry.2.stringify

def stringify (members : List (List Char × Scalar)) : List Char :=
  '{' :: [','].intercalate (members.map stringifyMember) ++ ['}']

/-! ## Reading back what was written -/

theorem highSurrogate_char (c : Char) : highSurrogate c.toNat = false := by
  have valid : c.toNat < 0xD800 ∨ 0xDFFF < c.toNat ∧ c.toNat < 0x110000 := c.valid
  simp only [highSurrogate, Bool.and_eq_false_iff, decide_eq_false_iff_not]
  omega

theorem lowSurrogate_char (c : Char) : lowSurrogate c.toNat = false := by
  have valid : c.toNat < 0xD800 ∨ 0xDFFF < c.toNat ∧ c.toNat < 0x110000 := c.valid
  simp only [lowSurrogate, Bool.and_eq_false_iff, decide_eq_false_iff_not]
  omega

@[simp] theorem single_char (c : Char) : single c.toNat = c := by
  simp [single, highSurrogate_char, lowSurrogate_char]

theorem join_text (text : List Char) : join (text.map Char.toNat) = text := by
  induction text with
  | nil => rfl
  | cons first rest ih =>
    cases rest with
    | nil => simp [join]
    | cons second rest =>
      rw [List.map_cons, List.map_cons, join, highSurrogate_char, Bool.false_and, if_neg Bool.false_ne_true, single_char,
        ← List.map_cons, ih]

theorem hexDigits_control : ∀ code < 32,
    hexDigits ['0', '0', Nat.digitChar (code / 16), Nat.digitChar (code % 16)] = some code := by decide

theorem parseCodes_escape (c : Char) (rest : List Char) :
    parseCodes (escape c ++ rest) = (parseCodes rest).map fun (codes, rest) => (c.toNat :: codes, rest) := by
  -- A backslash and one more character.
  have escaped : ∀ {e : Char}, e ≠ 'u' → unescape e = some c.toNat →
      parseCodes (['\\', e] ++ rest) = (parseCodes rest).map fun (codes, rest) => (c.toNat :: codes, rest) := by
    intro e other stands
    rw [List.cons_append, List.singleton_append, parseCodes.eq_def]
    dsimp only
    rw [if_neg (by decide), if_pos rfl, if_neg other, stands]
    rfl
  unfold escape
  split
  · rename_i same
    exact escaped (by decide) (by rw [same]; rfl)
  · rename_i quote
    split
    · rename_i same
      exact escaped (by decide) (by rw [same]; rfl)
    · rename_i slash
      split
      · rename_i code
        exact escaped (by decide) (by rw [code]; rfl)
      · split
        · rename_i code
          exact escaped (by decide) (by rw [code]; rfl)
        · split
          · rename_i code
            exact escaped (by decide) (by rw [code]; rfl)
          · split
            · rename_i code
              exact escaped (by decide) (by rw [code]; rfl)
            · split
              · rename_i code
                exact escaped (by decide) (by rw [code]; rfl)
              · split
                · rename_i control
                  simp only [List.cons_append, List.nil_append]
                  rw [parseCodes.eq_def]
                  dsimp only
                  rw [if_neg (by decide), if_pos rfl, if_pos rfl, hexDigits_control c.toNat control]
                  rfl
                · rename_i printed
                  rw [List.singleton_append, parseCodes.eq_def]
                  dsimp only
                  rw [if_neg quote, if_neg slash, if_neg printed]

theorem parseCodes_quoted (text rest : List Char) :
    parseCodes (text.flatMap escape ++ '"' :: rest) = some (text.map Char.toNat, rest) := by
  induction text with
  | nil =>
    rw [List.flatMap_nil, List.nil_append, parseCodes.eq_def]
    rfl
  | cons c text ih =>
    rw [List.flatMap_cons, List.append_assoc, parseCodes_escape, ih]
    rfl

theorem parseText_quoted (text rest : List Char) : parseText (text.flatMap escape ++ '"' :: rest) = some (text, rest) := by
  rw [parseText, parseCodes_quoted, Option.map_some]
  dsimp only
  rw [join_text]

/-! ## Numbers read back -/

theorem roundHalfEven_intCast (value : Int) : roundHalfEven value = value := by
  simp [roundHalfEven]

/-- Naturals up to 2^53 are doubles. -/
theorem toDouble_natCast {value : Nat} (small : value < 2 ^ 53) : toDouble value = some (value : Rat) := by
  unfold toDouble
  split
  · rename_i zero
    rw [zero]
  · rename_i nonzero
    have positive : value ≠ 0 := fun zero => nonzero (by rw [zero]; rfl)
    have magnitude : |(value : Rat)| = value := abs_of_nonneg (Nat.cast_nonneg value)
    have short : Nat.log 2 value ≤ 52 := by
      have := Nat.log_lt_of_lt_pow positive small
      omega
    -- The step divides one.
    have step : (2 : Rat) ^ max (Int.log 2 |(value : Rat)| - 52) (-1074) = ((2 ^ (52 - Nat.log 2 value) : Nat) : Rat)⁻¹ := by
      rw [magnitude, Int.log_natCast]
      have exponent : max ((Nat.log 2 value : Int) - 52) (-1074) = -((52 - Nat.log 2 value : Nat) : Int) := by omega
      rw [exponent, zpow_neg, zpow_natCast, Nat.cast_pow, Nat.cast_ofNat]
    dsimp only
    rw [step, div_inv_eq_mul, ← Nat.cast_mul, ← Int.cast_natCast (value * _), roundHalfEven_intCast, Int.cast_natCast,
      Nat.cast_mul, mul_inv_cancel_right₀ (by positivity), magnitude, if_pos]
    calc (value : Rat) < ((2 ^ 53 : Nat) : Rat) := Nat.cast_lt.mpr small
      _ = 2 ^ 53 := by rw [Nat.cast_pow, Nat.cast_ofNat]
      _ ≤ 2 ^ 1024 := pow_le_pow_right₀ (by norm_num) (by norm_num)

theorem toDigits_head {value : Nat} (positive : 0 < value) : (Nat.toDigits 10 value).head? ≠ some '0' := by
  induction value using Nat.strongRecOn with
  | ind value ih =>
    by_cases small : value < 10
    · rw [Nat.toDigits_of_lt_base small]
      have nonzero : ∀ digit < 10, 0 < digit → [Nat.digitChar digit].head? ≠ some '0' := by decide
      exact nonzero value small positive
    · rw [Nat.toDigits_of_base_le (by decide) (by omega), List.head?_append_of_ne_nil _ Nat.toDigits_ne_nil]
      exact ih (value / 10) (by omega) (by omega)

/-- What follows a number in an object. -/
structure Ends (text : List Char) : Prop where
  digit : ∀ c ∈ text.head?, c.isDigit = false
  point : text.head? ≠ some '.'
  exponent : ¬(text.head? = some 'e' ∨ text.head? = some 'E')

theorem takeWhile_digits {digits rest : List Char} (all : ∀ c ∈ digits, c.isDigit = true)
    (ends : ∀ c ∈ rest.head?, c.isDigit = false) :
    (digits ++ rest).takeWhile Char.isDigit = digits ∧ (digits ++ rest).dropWhile Char.isDigit = rest := by
  rw [List.takeWhile_append_of_pos all, List.dropWhile_append_of_pos all]
  cases rest with
  | nil => exact ⟨List.append_nil _, rfl⟩
  | cons c rest =>
    have stops := ends c (by simp)
    simp [stops]

theorem parseNumber_natural (value : Nat) {rest : List Char} (ends : Ends rest) :
    parseNumber (Nat.toDigits 10 value ++ rest) = some ((value : Rat), rest) := by
  have all : ∀ c ∈ Nat.toDigits 10 value, c.isDigit = true := fun c member =>
    Nat.isDigit_of_mem_toDigits (by decide) (by decide) member
  obtain ⟨whole, beyond⟩ := takeWhile_digits all ends.digit
  have unsigned : (Nat.toDigits 10 value ++ rest).head? ≠ some '-' := by
    rw [List.head?_append_of_ne_nil _ Nat.toDigits_ne_nil]
    intro sign
    have digit := all '-' (List.mem_of_mem_head? sign)
    exact absurd digit (by decide)
  have leading : ¬(Nat.toDigits 10 value = [] ∨ 1 < (Nat.toDigits 10 value).length ∧
      (Nat.toDigits 10 value).head? = some '0') := by
    rintro (empty | ⟨long, zero⟩)
    · exact Nat.toDigits_ne_nil empty
    · rcases Nat.eq_zero_or_pos value with none | positive
      · rw [none] at long
        exact absurd long (by decide)
      · exact toDigits_head positive zero
  unfold parseNumber
  dsimp only
  rw [if_neg unsigned, whole, beyond, if_neg leading, parseFraction, if_neg ends.point]
  simp only [Option.bind_eq_bind, Option.bind_some]
  rw [if_neg ends.exponent, if_neg unsigned, List.append_nil, Nat.ofDigitChars_toDigits (by decide) (by decide)]
  simp

/-! ## Objects read back -/

@[simp] theorem skipBlank_cons {c : Char} {rest : List Char} (printed : blank c = false) :
    skipBlank (c :: rest) = c :: rest := by
  rw [skipBlank, List.dropWhile_cons_of_neg (by simp [printed])]

/-- A value ends where the next character starts. -/
theorem parseValue_scalar (fuel : Nat) (value : Scalar) (small : ∀ n, value = .natural n → n < 2 ^ 53)
    {rest : List Char} (ends : Ends rest) :
    parseValue (fuel + 1) (value.stringify ++ rest) = some (value.json, rest) := by
  cases value with
  | string text =>
    change parseValue (fuel + 1) ('"' :: (text.flatMap escape ++ ['"']) ++ rest) = _
    rw [List.cons_append, List.append_assoc, List.singleton_append, parseValue, skipBlank_cons (by decide)]
    dsimp only
    rw [if_pos rfl, parseText_quoted]
    rfl
  | natural value =>
    have parsed := parseNumber_natural value ends
    have digits : ∀ c ∈ Nat.toDigits 10 value, c.isDigit = true := fun c member =>
      Nat.isDigit_of_mem_toDigits (by decide) (by decide) member
    change parseValue (fuel + 1) (Nat.toDigits 10 value ++ rest) = _
    cases spelled : Nat.toDigits 10 value with
    | nil => exact absurd spelled Nat.toDigits_ne_nil
    | cons first others =>
      rw [spelled] at parsed digits
      have digit := digits first List.mem_cons_self
      have other : ∀ c : Char, c.isDigit = false → first ≠ c := by
        rintro c printed rfl
        rw [printed] at digit
        cases digit
      have printed : blank first = false := by
        simp [blank, other ' ' (by decide), other '\t' (by decide), other '\n' (by decide), other '\r' (by decide)]
      -- No word starts with a digit.
      have word : parseWord (first :: (others ++ rest)) = none := by
        simp [parseWord, Ne.symm (other 't' (by decide)), Ne.symm (other 'f' (by decide)), Ne.symm (other 'n' (by decide))]
      rw [List.cons_append, parseValue, skipBlank_cons printed]
      dsimp only
      rw [if_neg (other '"' (by decide)), if_neg (other '{' (by decide)), if_neg (other '[' (by decide)), word]
      dsimp only
      rw [← List.cons_append, parsed, Option.map_some]
      dsimp only
      rw [toDouble_natCast (small value rfl)]
      rfl

theorem ends_cons {c : Char} (stop : c = ',' ∨ c = '}') (rest : List Char) : Ends (c :: rest) := by
  rcases stop with rfl | rfl
  · exact ⟨by simp, by simp, by simp⟩
  · exact ⟨by simp, by simp, by simp⟩

/-- One member, up to the comma or brace after it. -/
theorem parseMembers_member (fuel : Nat) (entry : List Char × Scalar) (small : ∀ n, entry.2 = .natural n → n < 2 ^ 53)
    {c : Char} (stop : c = ',' ∨ c = '}') (rest : List Char) :
    parseMembers (fuel + 2) (stringifyMember entry ++ c :: rest) =
      if c = ',' then (parseMembers (fuel + 1) rest).map fun (members, rest) => ((entry.1, entry.2.json) :: members, rest)
      else some ([(entry.1, entry.2.json)], rest) := by
  have spelled : stringifyMember entry ++ c :: rest =
      '"' :: (entry.1.flatMap escape ++ '"' :: (':' :: (entry.2.stringify ++ c :: rest))) := by
    simp [stringifyMember, quote]
  rw [spelled, parseMembers, skipBlank_cons (by decide), List.head?_cons, if_pos rfl, List.tail_cons, parseText_quoted]
  simp only [Option.bind_eq_bind, Option.bind_some]
  rw [skipBlank_cons (by decide), List.head?_cons, if_pos rfl, List.tail_cons, parseValue_scalar fuel entry.2 small (ends_cons stop rest)]
  simp only [Option.bind_some]
  rcases stop with rfl | rfl
  · rw [skipBlank_cons (by decide)]
    rfl
  · rw [skipBlank_cons (by decide)]
    rfl

theorem parseMembers_stringify (entries : List (List Char × Scalar)) (some_ : entries ≠ [])
    (small : ∀ entry ∈ entries, ∀ n, entry.2 = .natural n → n < 2 ^ 53) (fuel : Nat) (enough : entries.length + 1 ≤ fuel) :
    parseMembers fuel ([','].intercalate (entries.map stringifyMember) ++ ['}']) =
      some (entries.map fun entry => (entry.1, entry.2.json), []) := by
  induction entries generalizing fuel with
  | nil => exact absurd rfl some_
  | cons entry rest ih =>
    obtain ⟨fuel, rfl⟩ := Nat.exists_eq_add_of_le' (show 2 ≤ fuel by simp at enough; omega)
    have own := small entry List.mem_cons_self
    cases rest with
    | nil =>
      have member := parseMembers_member fuel entry own (.inr rfl : '}' = ',' ∨ '}' = '}') []
      simpa [List.intercalate] using member
    | cons second rest =>
      have later := ih (by simp) (fun other listed => small other (List.mem_cons_of_mem _ listed)) (fuel + 1)
        (by simp at enough ⊢; omega)
      have member := parseMembers_member fuel entry own (.inl rfl : ',' = ',' ∨ ',' = '}')
        ([','].intercalate ((second :: rest).map stringifyMember) ++ ['}'])
      rw [later] at member
      simpa [List.intercalate, List.intersperse] using member

theorem length_members (entries : List (List Char × Scalar)) :
    entries.length ≤ ([','].intercalate (entries.map stringifyMember)).length := by
  induction entries with
  | nil => exact Nat.zero_le _
  | cons entry rest ih =>
    have spelled : stringifyMember entry ≠ [] := by simp [stringifyMember]
    have filled := List.length_pos_iff.mpr spelled
    cases rest with
    | nil =>
      simpa [List.intercalate, Nat.succ_le_iff] using filled
    | cons second rest =>
      simp only [List.intercalate, List.map_cons, List.intersperse, List.flatten_cons, List.length_append, List.length_cons] at ih ⊢
      omega

/-- An object with members reads back as itself. -/
theorem parse_stringify {entries : List (List Char × Scalar)} (some_ : entries ≠ [])
    (small : ∀ entry ∈ entries, ∀ n, entry.2 = .natural n → n < 2 ^ 53) :
    parse (stringify entries) = some (.object (entries.map fun entry => (entry.1, entry.2.json))) := by
  obtain ⟨body, named⟩ : ∃ body, [','].intercalate (entries.map stringifyMember) ++ ['}'] = body := ⟨_, rfl⟩
  have spelled : stringify entries = '{' :: body := by rw [stringify, ← named, List.cons_append]
  have bound : entries.length + 1 ≤ body.length := by
    have members := length_members entries
    rw [← named, List.length_append, List.length_singleton]
    omega
  -- The first member starts with a quote.
  have opens : (skipBlank body).head? = some '"' := by
    cases entries with
    | nil => exact absurd rfl some_
    | cons entry rest =>
      cases rest with
      | nil => simp [← named, List.intercalate, stringifyMember, quote, skipBlank, blank]
      | cons second rest => simp [← named, List.intercalate, stringifyMember, quote, skipBlank, blank]
  have members := parseMembers_stringify entries some_ small (2 * ('{' :: body).length + 1) (by simp; omega)
  rw [named] at members
  rw [parse, spelled, parseValue, skipBlank_cons (by decide)]
  dsimp only
  rw [if_neg (by decide), if_pos rfl, opens, if_neg (by decide), members]
  rfl

end Json

end Foundation
