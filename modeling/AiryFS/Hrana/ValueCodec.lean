import AiryFS.Foundation.Decimal
import AiryFS.Hrana.Notifying

/-! The values of a Hrana stream, on the wire and in JavaScript.

Numbers are told apart here as JavaScript does, with the sign of a zero and the infinities. The
wire writes an integer as text, so a number goes through the spelling of `String`.
-/

set_option autoImplicit false

namespace AiryFS

open Foundation

namespace Hrana

/-! ## Base64 -/

namespace Base64

/-- The six-bit digits of a list of bytes. -/
@[grind =]
def sixes : Bytes → List Nat
  | a :: b :: c :: rest => a.toNat / 4 :: (a.toNat % 4 * 16 + b.toNat / 16) :: (b.toNat % 16 * 4 + c.toNat / 64) ::
      c.toNat % 64 :: sixes rest
  | [a, b] => [a.toNat / 4, a.toNat % 4 * 16 + b.toNat / 16, b.toNat % 16 * 4]
  | [a] => [a.toNat / 4, a.toNat % 4 * 16]
  | [] => []

@[grind =]
def padding : Bytes → Nat
  | _ :: _ :: _ :: rest => padding rest
  | [_, _] => 1
  | [_] => 2
  | [] => 0

attribute [elab_as_elim] btoa.induct

theorem btoa_eq (bytes : Bytes) : btoa bytes = (sixes bytes).map btoa.digit ++ List.replicate (padding bytes) '=' := by
  induction bytes using btoa.induct with
  | case1 a b c rest ih => simp [btoa, sixes, padding, ih]
  | case2 a b => rfl
  | case3 a => rfl
  | case4 => rfl

theorem sextets_sixes (bytes : Bytes) : sextets (sixes bytes) = bytes := by
  have whole : ∀ (a : UInt8) (n : Nat), n = a.toNat → UInt8.ofNat n = a := by
    rintro a _ rfl
    exact UInt8.ofNat_toNat
  induction bytes using btoa.induct with
  | case1 a b c rest ih =>
    have bounds := And.intro a.toNat_lt (And.intro b.toNat_lt c.toNat_lt)
    simp only [sixes, sextets, ih]
    rw [whole a _ (by omega), whole b _ (by omega), whole c _ (by omega)]
  | case2 a b =>
    have bounds := And.intro a.toNat_lt b.toNat_lt
    simp only [sixes, sextets]
    rw [whole a _ (by omega), whole b _ (by omega)]
  | case3 a =>
    have bound := a.toNat_lt
    simp only [sixes, sextets]
    rw [whole a _ (by omega)]
  | case4 => rfl

theorem sixes_lt (bytes : Bytes) : ∀ value ∈ sixes bytes, value < 64 := by
  induction bytes using btoa.induct with
  | case1 a b c rest ih =>
    have bounds := And.intro a.toNat_lt (And.intro b.toNat_lt c.toNat_lt)
    intro value member
    simp only [sixes, List.mem_cons] at member
    rcases member with rfl | rfl | rfl | rfl | later
    · omega
    · omega
    · omega
    · omega
    · exact ih value later
  | case2 a b =>
    have bounds := And.intro a.toNat_lt b.toNat_lt
    intro value member
    simp only [sixes, List.mem_cons, List.not_mem_nil, or_false] at member
    rcases member with rfl | rfl | rfl <;> omega
  | case3 a =>
    have bound := a.toNat_lt
    intro value member
    simp only [sixes, List.mem_cons, List.not_mem_nil, or_false] at member
    rcases member with rfl | rfl <;> omega
  | case4 => simp [sixes]

theorem padding_fits (bytes : Bytes) :
    ((sixes bytes).length + padding bytes) % 4 = 0 ∧ padding bytes ≤ 2 := by
  induction bytes using btoa.induct with
  | case1 a b c rest ih =>
    simp only [sixes, padding, List.length_cons]
    omega
  | case2 a b => simp [sixes, padding]
  | case3 a => simp [sixes, padding]
  | case4 => simp [sixes, padding]

/-- A digit is a character of the alphabet, and the alphabet has no character twice. -/
theorem digit_found : ∀ value < 64, base64Alphabet.findIdx? (· = btoa.digit value) = some value ∧ btoa.digit value ≠ '=' ∧
    (btoa.digit value).toNat ∉ [9, 10, 12, 13, 32] := by
  decide +kernel

theorem withoutPadding_append {digits : Text} {count : Nat} (fits : (digits.length + count) % 4 = 0) (few : count ≤ 2)
    (clean : '=' ∉ digits) : withoutPadding (digits ++ List.replicate count '=') = digits := by
  unfold withoutPadding
  rw [if_neg (by simpa using fits), List.reverse_append, List.reverse_replicate]
  have clean' : '=' ∉ digits.reverse := by simpa using clean
  match count, few with
  | 0, _ =>
    cases back : digits.reverse with
    | nil => simp
    | cons last rest =>
      have other : last ≠ '=' := fun same => clean' (by rw [back, same]; exact List.mem_cons_self)
      simp [other]
  | 1, _ =>
    cases back : digits.reverse with
    | nil => simp [List.reverse_eq_nil_iff.mp back]
    | cons last rest =>
      have other : last ≠ '=' := fun same => clean' (by rw [back, same]; exact List.mem_cons_self)
      have front : digits = rest.reverse ++ [last] := by rw [← List.reverse_reverse digits, back, List.reverse_cons]
      simp [other, front]
  | 2, _ => simp

theorem mapM_digits {values : List Nat} (small : ∀ value ∈ values, value < 64) :
    (values.map btoa.digit).mapM (fun (c : Char) => base64Alphabet.findIdx? (· = c)) = some values := by
  induction values with
  | nil => rfl
  | cons value values ih =>
    have found := (digit_found value (small value List.mem_cons_self)).1
    have later := ih fun other member => small other (List.mem_cons_of_mem _ member)
    rw [List.map_cons, List.mapM_cons, found, later]
    rfl

/-- Bytes are read as they were written. -/
theorem atob_btoa (bytes : Bytes) : atob (btoa bytes) = some bytes := by
  obtain ⟨fits, few⟩ := padding_fits bytes
  have small := sixes_lt bytes
  have solid : (btoa bytes).filter (fun c => c.toNat ∉ [9, 10, 12, 13, 32]) = btoa bytes := by
    refine List.filter_eq_self.mpr ?_
    intro c member
    rw [btoa_eq, List.mem_append] at member
    rcases member with digit | pad
    · obtain ⟨value, listed, rfl⟩ := List.mem_map.mp digit
      exact decide_eq_true (digit_found value (small value listed)).2.2
    · rw [(List.mem_replicate.mp pad).2]
      decide
  have clean : '=' ∉ (sixes bytes).map btoa.digit := by
    intro member
    obtain ⟨value, listed, same⟩ := List.mem_map.mp member
    exact (digit_found value (small value listed)).2.1 same
  have data : withoutPadding (btoa bytes) = (sixes bytes).map btoa.digit := by
    rw [btoa_eq]
    exact withoutPadding_append (by rw [List.length_map]; exact fits) few clean
  unfold atob
  dsimp only
  rw [solid, data, List.length_map, if_neg (by omega), mapM_digits small, Option.map_some, sextets_sixes]

end Base64

/-! ## Decimal integers -/

theorem digits_decimal {text : Text} {value : Nat} (read : Decimal.readNatural text = some value) :
    digits 10 text = some value := by
  unfold Decimal.readNatural at read
  split at read
  · rename_i decimal
    obtain ⟨filled, all⟩ := decimal
    rw [digits, if_neg filled, ← Option.some.inj read]
    have step : ∀ (text : Text) (start : Nat), text.all Char.isDigit = true →
        text.foldlM (fun value character => do
          let digit ← digitValue character
          if digit < 10 then some (value * 10 + digit) else none) start = some (Nat.ofDigitChars 10 text start) := by
      intro text
      induction text with
      | nil => exact fun start _ => by simp
      | cons c rest ih =>
        intro start all
        simp only [List.all_cons, Bool.and_eq_true] at all
        have digit : digitValue c = some (c.toNat - '0'.toNat) := if_pos all.1
        have bound : c.toNat - '0'.toNat < 10 := by
          have range := all.1
          simp only [Char.isDigit, Bool.and_eq_true, decide_eq_true_eq] at range
          have upper : c.toNat ≤ 57 := range.2
          have zero : '0'.toNat = 48 := rfl
          omega
        rw [List.foldlM_cons, digit]
        rw [Option.bind_eq_bind, Option.bind_some, if_pos bound, Option.bind_some]
        refine (ih _ all.2).trans ?_
        rw [Nat.ofDigitChars_cons, Nat.mul_comm]
    exact step text 0 all
  · cases read

theorem digits_none {base : Nat} {text : Text} {c : Char} (member : c ∈ text)
    (other : ∀ digit, digitValue c = some digit → base ≤ digit) : digits base text = none := by
  have step : ∀ (text : Text) (start : Nat), c ∈ text →
      text.foldlM (fun value character => do
        let digit ← digitValue character
        if digit < base then some (value * base + digit) else none) start = none := by
    intro text
    induction text with
    | nil => exact fun _ nothing => by cases nothing
    | cons first rest ih =>
      intro start inside
      rw [List.foldlM_cons]
      cases digit : digitValue first with
      | none => rfl
      | some value =>
        simp only [Option.bind_eq_bind, Option.bind_some]
        by_cases small : value < base
        · rw [if_pos small, Option.bind_some]
          rcases List.mem_cons.mp inside with same | later
          · subst same
            exact absurd (other value digit) (by omega)
          · exact ih _ later
        · rw [if_neg small]
          rfl
  unfold digits
  rw [if_neg (List.ne_nil_of_mem member)]
  exact step text 0 member

/-- A text without blanks is trimmed. -/
theorem trim_solid {text : Text} (solid : ∀ c ∈ text, isSpace c = false) : trim text = text := by
  have keeps : ∀ text : Text, (∀ c ∈ text, isSpace c = false) → text.dropWhile isSpace = text := by
    intro text solid
    cases text with
    | nil => rfl
    | cons first rest => exact List.dropWhile_cons_of_neg (by simp [solid first List.mem_cons_self])
  unfold trim trimStart List.rdropWhile
  rw [keeps text solid, keeps text.reverse (fun c member => solid c (List.mem_reverse.mp member)), List.reverse_reverse]

theorem isSpace_digit {c : Char} (digit : c.isDigit = true) : isSpace c = false := by
  simp only [Char.isDigit, Bool.and_eq_true, decide_eq_true_eq] at digit
  have lower : 48 ≤ c.toNat := digit.1
  have upper : c.toNat ≤ 57 := digit.2
  simp only [isSpace, Bool.or_eq_false_iff, Bool.and_eq_false_iff, decide_eq_false_iff_not, List.mem_cons,
    List.not_mem_nil, or_false]
  omega

theorem isDigit_of_readNatural {text : Text} {value : Nat} (read : Decimal.readNatural text = some value) :
    text ≠ [] ∧ ∀ c ∈ text, c.isDigit = true := by
  unfold Decimal.readNatural at read
  split at read
  · rename_i decimal
    exact ⟨decimal.1, List.all_eq_true.mp decimal.2⟩
  · cases read

/-- `BigInt` reads every decimal integer, also with leading zeros. -/
theorem bigInt_decimal {text : Text} {value : Int} (read : Decimal.read text = some value) : bigInt text = some value := by
  unfold Decimal.read at read
  split at read
  · rename_i digits
    obtain ⟨size, natural, rfl⟩ := Option.map_eq_some_iff.mp read
    obtain ⟨-, all⟩ := isDigit_of_readNatural natural
    have solid : ∀ c ∈ '-' :: digits, isSpace c = false := by
      intro c member
      rcases List.mem_cons.mp member with rfl | later
      · decide
      · exact isSpace_digit (all c later)
    simp [bigInt, trim_solid solid, digits_decimal natural]
  · obtain ⟨size, natural, rfl⟩ := Option.map_eq_some_iff.mp read
    obtain ⟨filled, all⟩ := isDigit_of_readNatural natural
    have value := digits_decimal natural
    rw [bigInt, trim_solid fun c member => isSpace_digit (all c member)]
    split
    · exact absurd rfl filled
    · exact absurd (all '+' List.mem_cons_self) (by decide)
    · exact absurd (all '-' List.mem_cons_self) (by decide)
    · rename_i marker rest _
      have digit := all marker (by simp)
      have plain : ∀ other : Char, other.isDigit = false → marker ≠ other := by
        rintro _ different rfl
        rw [digit] at different
        cases different
      dsimp only
      rw [if_neg, if_neg, if_neg, value]
      · rfl
      · simp [plain 'b' (by decide), plain 'B' (by decide)]
      · simp [plain 'o' (by decide), plain 'O' (by decide)]
      · simp [plain 'x' (by decide), plain 'X' (by decide)]
    · rw [value]
      rfl

/-- It does not read a power of ten. -/
theorem bigInt_spell_large {value : Int} (long : 10 ^ 21 ≤ Decimal.shortest value.natAbs) :
    bigInt (Decimal.spell value) = none := by
  obtain ⟨lead, tail, whole, digit, nonzero, mark⟩ := @Decimal.scientific_cons (Decimal.shortest value.natAbs) (by omega)
  have solid : ∀ c ∈ Decimal.scientific (Decimal.shortest value.natAbs), isSpace c = false := by
    intro c member
    rcases Decimal.mem_scientific member with digit | rfl | rfl | rfl
    · exact isSpace_digit digit
    · decide
    · decide
    · decide
  have unreadable : digits 10 (lead :: tail) = none := digits_none (List.mem_cons_of_mem _ mark) (by decide)
  rw [Decimal.spell, if_neg (Nat.not_lt.mpr long), whole]
  rw [whole] at solid
  split
  · have signed : ∀ c ∈ '-' :: lead :: tail, isSpace c = false := by
      intro c member
      rcases List.mem_cons.mp member with rfl | later
      · decide
      · exact solid c later
    rw [List.singleton_append, bigInt, trim_solid signed]
    simp [unreadable]
  · rw [List.nil_append, bigInt, trim_solid solid]
    split
    · rename_i same
      cases same
    · rename_i same
      rw [(List.cons.inj same).1] at digit
      cases digit
    · rename_i same
      rw [(List.cons.inj same).1] at digit
      cases digit
    · rename_i same
      exact absurd (List.cons.inj same).1 nonzero
    · rw [unreadable]
      rfl

/-! ## Values with the sign of a zero -/

namespace ValueCodec

/-- A double. A rational stands for the double of that value, and for the positive zero. -/
inductive Double where
  | finite (value : Rat)
  | negativeZero
  | infinite (negative : Bool)
  deriving DecidableEq

/-- A value as a request or a response carries it. -/
inductive WireValue where
  | null
  | integer (value : Text)
  | float (value : Double)
  | text (value : Text)
  | blob (base64 : Text)
  deriving DecidableEq

/-- A value as the database takes and returns it. -/
inductive DatabaseValue where
  | null
  | number (value : Double)
  | text (value : Text)
  | blob (value : Bytes)
  deriving DecidableEq

@[grind =]
def hranaToJs : WireValue → Except Failure DatabaseValue
  | .null => return .null
  | .integer value => do
    let shown := String.ofList value
    let integer ← required (bigInt value) (.coded "SyntaxError" s!"Cannot convert {shown} to a BigInt")
    refuse (¬isSafeInteger integer) (.error s!"Integer is outside the supported safe range: {shown}")
    return .number (.finite integer)
  | .float value => return .number value
  | .text value => return .text value
  | .blob base64 => do
    let binary ← required (atob base64) (.coded "InvalidCharacterError" "")
    return .blob binary

/-- A negative zero is an integer, and `String` does not write its sign. -/
@[grind =]
def jsToHrana : Option DatabaseValue → WireValue
  | none => .null
  | some .null => .null
  | some (.number (.finite value)) => if value.den = 1 then .integer (Decimal.spell value.num) else .float (.finite value)
  | some (.number .negativeZero) => .integer "0".toList
  | some (.number (.infinite negative)) => .float (.infinite negative)
  | some (.text value) => .text value
  | some (.blob value) => .blob (btoa value)

/-! ## What a value of the wire denotes -/

/-- An integer is written in decimal and has 64 bits. -/
@[grind =]
def denotes : WireValue → Option DatabaseValue
  | .null => some .null
  | .integer value => do
    let integer ← Decimal.read value
    if -2 ^ 63 ≤ integer ∧ integer < 2 ^ 63 then some (.number (.finite integer)) else none
  | .float value => some (.number value)
  | .text value => some (.text value)
  | .blob base64 => (atob base64).map .blob

/-- Sent to the client and back, a value is the same. -/
def Returns (value : DatabaseValue) : Prop := hranaToJs (jsToHrana (some value)) = .ok value

/-- Taken in and sent back, a value denotes the same, or it is not taken in. -/
def Kept (wire : WireValue) : Prop :=
  (∃ failure, hranaToJs wire = .error failure) ∨
    ∃ value, hranaToJs wire = .ok value ∧ denotes (jsToHrana (some value)) = denotes wire

/-- An integral number is safe, and a zero is positive. -/
def ReturnsWhen : DatabaseValue → Prop
  | .number (.finite value) => value.den = 1 → isSafeInteger value.num = true
  | .number .negativeZero => False
  | _ => True

/-- An integral float has 64 bits and is its own shortest decimal, and a zero is positive. -/
def KeptWhen : WireValue → Prop
  | .float (.finite value) => value.den = 1 →
      -2 ^ 63 ≤ value.num ∧ value.num < 2 ^ 63 ∧ Decimal.shortest value.num.natAbs = value.num.natAbs
  | .float .negativeZero => False
  | _ => True

/-! ## Integers -/

theorem isSafeInteger_iff (value : Int) : isSafeInteger value = true ↔ value.natAbs < 2 ^ 53 := by
  unfold isSafeInteger maxSafeInteger
  rw [decide_eq_true_iff]
  omega

theorem hranaToJs_integer {text : Text} {value : Int} (read : bigInt text = some value) :
    hranaToJs (.integer text) = if isSafeInteger value then .ok (.number (.finite value))
      else .error (.error s!"Integer is outside the supported safe range: {String.ofList text}") := by
  simp only [hranaToJs, read, required]
  cases safe : isSafeInteger value with
  | false => simp [refuse, safe, bind, Except.bind]
  | true => simp [refuse, safe, bind, Except.bind, pure, Except.pure]

/-- A safe integer is written and read exactly. -/
theorem hranaToJs_spell {value : Int} (safe : isSafeInteger value = true) :
    hranaToJs (.integer (Decimal.spell value)) = .ok (.number (.finite value)) := by
  have read := Decimal.read_spell_small ((isSafeInteger_iff value).mp safe)
  rw [hranaToJs_integer (bigInt_decimal read), if_pos safe]

/-- An integer that is not safe is written in a way that is rejected. -/
theorem hranaToJs_spell_unsafe {value : Int} (unsafe_ : isSafeInteger value = false) :
    ∃ failure, hranaToJs (.integer (Decimal.spell value)) = .error failure := by
  have large : 2 ^ 53 ≤ value.natAbs := by
    by_contra small
    rw [(isSafeInteger_iff value).mpr (by omega)] at unsafe_
    cases unsafe_
  have bound := Decimal.le_shortest large
  by_cases short : Decimal.shortest value.natAbs < 10 ^ 21
  · have read := Decimal.read_spell short
    refine ⟨_, (hranaToJs_integer (bigInt_decimal read)).trans (if_neg ?_)⟩
    rw [isSafeInteger_iff]
    split <;> omega
  · simp only [hranaToJs, bigInt_spell_large (Nat.not_lt.mp short)]
    exact ⟨_, rfl⟩

theorem returns_iff (value : DatabaseValue) : Returns value ↔ ReturnsWhen value := by
  cases value with
  | null => exact iff_of_true rfl trivial
  | text value => exact iff_of_true rfl trivial
  | blob value =>
    refine iff_of_true ?_ trivial
    simp only [Returns, jsToHrana, hranaToJs, Base64.atob_btoa]
    rfl
  | number value =>
    cases value with
    | infinite negative => exact iff_of_true rfl trivial
    | negativeZero =>
      have read : hranaToJs (.integer "0".toList) = .ok (.number (.finite (0 : Int))) :=
        (hranaToJs_integer (by decide)).trans (if_pos (by decide))
      refine iff_of_false ?_ id
      intro returned
      rw [Returns, jsToHrana, read] at returned
      cases returned
    | finite value =>
      unfold Returns jsToHrana ReturnsWhen
      dsimp only
      split
      · rename_i integral
        have whole : value = value.num := (Rat.den_eq_one_iff value).mp integral |>.symm
        constructor
        · intro returned _
          by_contra unsafe_
          obtain ⟨failure, rejected⟩ := hranaToJs_spell_unsafe (by simpa using unsafe_)
          rw [rejected] at returned
          cases returned
        · intro safe
          rw [hranaToJs_spell (safe integral), ← whole]
      · rename_i fraction
        exact iff_of_true rfl (fun integral => absurd integral fraction)

theorem denotes_integer {text : Text} {value : Int} (read : Decimal.read text = some value) :
    denotes (.integer text) = if -2 ^ 63 ≤ value ∧ value < 2 ^ 63 then some (.number (.finite value)) else none := by
  simp [denotes, read]

/-- What a written integer denotes. -/
theorem denotes_spell (value : Int) :
    denotes (.integer (Decimal.spell value)) = some (.number (.finite value)) ↔
      -2 ^ 63 ≤ value ∧ value < 2 ^ 63 ∧ Decimal.shortest value.natAbs = value.natAbs := by
  by_cases short : Decimal.shortest value.natAbs < 10 ^ 21
  · obtain ⟨written, read, exact_⟩ : ∃ written, Decimal.read (Decimal.spell value) = some written ∧
        (written = value ↔ Decimal.shortest value.natAbs = value.natAbs) := by
      refine ⟨_, Decimal.read_spell short, ?_⟩
      split <;> omega
    rw [denotes_integer read]
    constructor
    · intro same
      by_cases bounds : -2 ^ 63 ≤ written ∧ written < 2 ^ 63
      · rw [if_pos bounds] at same
        simp only [Option.some.injEq, DatabaseValue.number.injEq, Double.finite.injEq, Int.cast_inj] at same
        rw [same] at bounds
        exact ⟨bounds.1, bounds.2, exact_.mp same⟩
      · rw [if_neg bounds] at same
        cases same
    · rintro ⟨low, high, shortest⟩
      have same := exact_.mpr shortest
      rw [same, if_pos ⟨low, high⟩]
  · have unreadable : denotes (.integer (Decimal.spell value)) = none := by
      simp [denotes, Decimal.read_spell_large (Nat.not_lt.mp short)]
    rw [unreadable]
    refine iff_of_false (by simp) ?_
    rintro ⟨low, high, exact_⟩
    omega

theorem kept_iff {wire : WireValue} (wellFormed : (denotes wire).isSome = true) : Kept wire ↔ KeptWhen wire := by
  cases wire with
  | null => exact iff_of_true (.inr ⟨.null, rfl, rfl⟩) trivial
  | text value => exact iff_of_true (.inr ⟨.text value, rfl, rfl⟩) trivial
  | blob base64 =>
    refine iff_of_true (.inr ?_) trivial
    cases read : atob base64 with
    | none => simp [denotes, read] at wellFormed
    | some bytes => exact ⟨.blob bytes, by simp only [hranaToJs, read]; rfl, by simp [jsToHrana, denotes, read, Base64.atob_btoa]⟩
  | integer value =>
    refine iff_of_true ?_ trivial
    cases read : Decimal.read value with
    | none => simp [denotes, read] at wellFormed
    | some integer =>
      cases safe : isSafeInteger integer with
      | false => exact .inl ⟨_, (hranaToJs_integer (bigInt_decimal read)).trans (if_neg (by simp [safe]))⟩
      | true =>
        refine .inr ⟨.number (.finite integer), (hranaToJs_integer (bigInt_decimal read)).trans (if_pos safe), ?_⟩
        have small := (isSafeInteger_iff integer).mp safe
        have written : denotes (.integer (Decimal.spell integer)) = some (.number (.finite integer)) :=
          (denotes_spell integer).mpr ⟨by omega, by omega, Decimal.shortest_of_small small⟩
        have bounds : -2 ^ 63 ≤ integer ∧ integer < 2 ^ 63 := by omega
        have sent : jsToHrana (some (.number (.finite integer))) = .integer (Decimal.spell integer) := by simp [jsToHrana]
        rw [sent, written, denotes_integer read, if_pos bounds]
  | float value =>
    have taken : Kept (.float value) ↔ denotes (jsToHrana (some (.number value))) = some (.number value) := by
      constructor
      · rintro (⟨failure, rejected⟩ | ⟨value', accepted, same⟩)
        · cases rejected
        · cases accepted
          exact same
      · exact fun same => .inr ⟨_, rfl, same⟩
    rw [taken]
    cases value with
    | infinite negative => exact iff_of_true rfl trivial
    | negativeZero => exact iff_of_false (by decide) id
    | finite value =>
      unfold jsToHrana KeptWhen
      dsimp only
      split
      · rename_i integral
        have whole : value = value.num := (Rat.den_eq_one_iff value).mp integral |>.symm
        have written := denotes_spell value.num
        rw [← whole] at written
        rw [written]
        exact ⟨fun bounds _ => bounds, fun bounds => bounds integral⟩
      · rename_i fraction
        exact iff_of_true rfl (fun integral => absurd integral fraction)

/-- Both directions of the codec, and exactly when they lose nothing. -/
theorem codec_roundTrip_iff (value : DatabaseValue) (wire : WireValue) :
    (Returns value ↔ ReturnsWhen value) ∧ ((denotes wire).isSome = true → (Kept wire ↔ KeptWhen wire)) :=
  ⟨returns_iff value, kept_iff⟩

theorem codec_roundTrip_sample :
    (Returns (.number (.finite (1 / 2))) ↔ ReturnsWhen (.number (.finite (1 / 2)))) ∧
      (Kept (.blob "YQ".toList) ↔ KeptWhen (.blob "YQ".toList)) :=
  ⟨(codec_roundTrip_iff _ (.blob "YQ".toList)).1, (codec_roundTrip_iff .null _).2 (by decide +kernel)⟩

/-- The first integer that is not safe is sent as an integer and not taken back. -/
theorem codec_large : ¬Returns (.number (.finite ((2 ^ 53 : Int) : Rat))) := by
  rw [returns_iff]
  intro safe
  have small := safe rfl
  exact absurd small (by decide +kernel)

end ValueCodec

end Hrana

end AiryFS
