import AiryFS.Foundation.Json
import Mathlib.Data.List.DropRight

/-! Decimal spellings of integral doubles.

A double is spelled with the fewest digits that are read as it. Below 2^53 every integer is a
double of its own, so the spelling is exact there; beyond, the digits that are left out are
written as zeros, and from 10^21 on as a power of ten.
-/

set_option autoImplicit false

namespace Foundation

namespace Decimal

/-! ## Spelling -/

/-- Whether a decimal is read as the number. -/
def reads (x m : Nat) : Bool := Json.toDouble m = some (x : Rat)

/-- The multiple of a power of ten next to a number that is read as it: the nearer one if
both are, and the even one if they are equally near. -/
def shortened (x zeros : Nat) : Option Nat :=
  let below := x / 10 ^ zeros * 10 ^ zeros
  let above := below + 10 ^ zeros
  if x - below < above - x ∨ x - below = above - x ∧ x / 10 ^ zeros % 2 = 0 then [below, above].find? (reads x)
  else [above, below].find? (reads x)

/-- The shortest decimal that is read as the number. -/
def shortest (x : Nat) : Nat :=
  ((List.range ((Nat.toDigits 10 x).length + 1)).reverse.findSome? (shortened x)).getD x

/-- One digit, the others behind a point, and the power of ten. -/
def scientific (m : Nat) : List Char :=
  let digits := Nat.toDigits 10 m
  let kept := digits.rdropWhile (· = '0')
  kept.take 1 ++ (if kept.length = 1 then [] else '.' :: kept.drop 1) ++ 'e' :: '+' :: Nat.toDigits 10 (digits.length - 1)

/-- `String(value)` -/
def spell (value : Int) : List Char :=
  let size := shortest value.natAbs
  (if value < 0 then ['-'] else []) ++ if size < 10 ^ 21 then Nat.toDigits 10 size else scientific size

/-! ## Reading -/

def readNatural (digits : List Char) : Option Nat :=
  if digits ≠ [] ∧ digits.all Char.isDigit = true then some (Nat.ofDigitChars 10 digits 0) else none

/-- The integer that is written in decimal. -/
def read : List Char → Option Int
  | '-' :: digits => (readNatural digits).map fun value : Nat => -(value : Int)
  | digits => (readNatural digits).map fun value : Nat => (value : Int)

/-! ## Exact spellings -/

theorem le_roundHalfEven {value : Rat} {bound : Int} (below : (bound : Rat) ≤ value) : bound ≤ Json.roundHalfEven value := by
  have floor : bound ≤ ⌊value⌋ := Int.le_floor.mpr below
  unfold Json.roundHalfEven
  dsimp only
  split_ifs <;> omega

/-- Nothing from 2^53 on is rounded below it. -/
theorem le_toDouble {m : Nat} {value : Rat} (large : 2 ^ 53 ≤ m) (read : Json.toDouble m = some value) :
    (2 ^ 53 : Rat) ≤ value := by
  unfold Json.toDouble at read
  have positive : 0 < m := lt_of_lt_of_le (by norm_num) large
  rw [if_neg (by exact_mod_cast positive.ne')] at read
  dsimp only at read
  split at read
  · have magnitude : |(m : Rat)| = m := abs_of_nonneg (Nat.cast_nonneg m)
    have long : 53 ≤ Nat.log 2 m := Nat.le_log_of_pow_le (by norm_num) large
    rw [magnitude, Int.log_natCast, max_eq_left (by omega)] at read
    rw [← Option.some.inj read]
    generalize exponent : Nat.log 2 m = e at long
    have step : (0 : Rat) < 2 ^ ((e : Int) - 52) := zpow_pos (by norm_num) _
    have log : (2 : Rat) ^ e ≤ m := by exact_mod_cast exponent ▸ Nat.pow_log_le_self 2 positive.ne'
    have split : (2 : Rat) ^ e = 2 ^ 52 * 2 ^ ((e : Int) - 52) := by
      rw [← zpow_natCast, ← zpow_natCast, ← zpow_add₀ (by norm_num)]
      congr 1
      omega
    have scaled : ((2 ^ 52 : Int) : Rat) ≤ (m : Rat) / 2 ^ ((e : Int) - 52) := by
      rw [le_div_iff₀ step, Int.cast_pow, Int.cast_ofNat, ← split]
      exact log
    have rounded : ((2 ^ 52 : Int) : Rat) ≤ (Json.roundHalfEven ((m : Rat) / 2 ^ ((e : Int) - 52)) : Int) := by
      exact_mod_cast le_roundHalfEven scaled
    calc (2 ^ 53 : Rat) ≤ 2 ^ e := pow_le_pow_right₀ (by norm_num) long
      _ = ((2 ^ 52 : Int) : Rat) * 2 ^ ((e : Int) - 52) := by rw [split, Int.cast_pow, Int.cast_ofNat]
      _ ≤ _ := mul_le_mul_of_nonneg_right rounded step.le
  · cases read

theorem eq_of_reads {x m : Nat} (small : x < 2 ^ 53) (read : reads x m = true) : m = x := by
  have same : Json.toDouble m = some (x : Rat) := of_decide_eq_true read
  by_cases below : m < 2 ^ 53
  · rw [Json.toDouble_natCast below] at same
    exact_mod_cast Option.some.inj same
  · have bound := le_toDouble (by omega) same
    have : (2 ^ 53 : Nat) ≤ x := by exact_mod_cast bound
    omega

theorem reads_of_shortened {x zeros m : Nat} (found : shortened x zeros = some m) : reads x m = true := by
  unfold shortened at found
  dsimp only at found
  split at found <;> exact List.find?_some found

/-- What is found at all is read as the number. -/
theorem shortest_reads (x : Nat) : reads x (shortest x) = true ∨ shortest x = x := by
  unfold shortest
  cases found : (List.range ((Nat.toDigits 10 x).length + 1)).reverse.findSome? (shortened x) with
  | none => exact .inr rfl
  | some m =>
    obtain ⟨zeros, -, here⟩ := List.exists_of_findSome?_eq_some found
    exact .inl (reads_of_shortened here)

theorem shortest_of_small {x : Nat} (small : x < 2 ^ 53) : shortest x = x := by
  rcases shortest_reads x with read | same
  · exact eq_of_reads small read
  · exact same

theorem le_shortest {x : Nat} (large : 2 ^ 53 ≤ x) : 2 ^ 53 ≤ shortest x := by
  rcases shortest_reads x with read | same
  · by_contra below
    have exact_ := of_decide_eq_true read
    rw [Json.toDouble_natCast (by omega)] at exact_
    have equal : shortest x = x := by exact_mod_cast Option.some.inj exact_
    omega
  · rw [same]
    exact large

/-! ## Spellings read back -/

theorem readNatural_toDigits (n : Nat) : readNatural (Nat.toDigits 10 n) = some n := by
  have all : (Nat.toDigits 10 n).all Char.isDigit = true :=
    List.all_eq_true.mpr fun c member => Nat.isDigit_of_mem_toDigits (by decide) (by decide) member
  rw [readNatural, if_pos ⟨Nat.toDigits_ne_nil, all⟩, Nat.ofDigitChars_toDigits (by decide) (by decide)]

theorem toDigits_ne_sign (n : Nat) (rest : List Char) : Nat.toDigits 10 n ≠ '-' :: rest := by
  intro same
  have digit : '-'.isDigit = true :=
    Nat.isDigit_of_mem_toDigits (by decide) (by decide) (same ▸ List.mem_cons_self : '-' ∈ Nat.toDigits 10 n)
  cases digit

theorem read_signed (value : Int) (size : Nat) :
    read ((if value < 0 then ['-'] else []) ++ Nat.toDigits 10 size) = some (if value < 0 then -(size : Int) else size) := by
  split
  · simp [read, readNatural_toDigits]
  · rw [List.nil_append]
    unfold read
    split
    · rename_i same
      exact absurd same (toDigits_ne_sign size _)
    · rw [readNatural_toDigits]
      rfl

/-- What a spelling below 10^21 is read as. -/
theorem read_spell {value : Int} (short : shortest value.natAbs < 10 ^ 21) :
    read (spell value) = some (if value < 0 then -(shortest value.natAbs : Int) else shortest value.natAbs) := by
  rw [spell, if_pos short, read_signed]

theorem read_spell_small {value : Int} (small : value.natAbs < 2 ^ 53) : read (spell value) = some value := by
  rw [read_spell (by rw [shortest_of_small small]; omega), shortest_of_small small]
  congr 1
  split <;> omega

/-- A power of ten is written from its first digit on, and that is not zero. -/
theorem scientific_cons {m : Nat} (positive : 0 < m) :
    ∃ lead tail, scientific m = lead :: tail ∧ lead.isDigit = true ∧ lead ≠ '0' ∧ 'e' ∈ tail := by
  have first := Json.toDigits_head positive
  have all : ∀ c ∈ Nat.toDigits 10 m, c.isDigit = true := fun c member =>
    Nat.isDigit_of_mem_toDigits (by decide) (by decide) member
  unfold scientific
  dsimp only
  cases digits : Nat.toDigits 10 m with
  | nil => exact absurd digits Nat.toDigits_ne_nil
  | cons lead rest =>
    rw [digits] at first all
    have nonzero : lead ≠ '0' := fun zero => first (by rw [zero]; rfl)
    obtain ⟨kept, back⟩ : ∃ kept, (lead :: rest).rdropWhile (· = '0') = lead :: kept := by
      cases back : (lead :: rest).rdropWhile (· = '0') with
      | nil =>
        rw [List.rdropWhile_eq_nil_iff] at back
        exact absurd (by simpa using back lead List.mem_cons_self) nonzero
      | cons other kept =>
        have whole := List.rdropWhile_prefix (fun c => decide (c = '0')) (lead :: rest)
        rw [back] at whole
        exact ⟨kept, by rw [(List.cons_prefix_cons.mp whole).1]⟩
    rw [back]
    refine ⟨lead, _, rfl, all lead List.mem_cons_self, nonzero, ?_⟩
    simp

theorem mem_scientific {m : Nat} {c : Char} (member : c ∈ scientific m) : c.isDigit = true ∨ c = '.' ∨ c = 'e' ∨ c = '+' := by
  have all : ∀ n c, c ∈ Nat.toDigits 10 n → c.isDigit = true := fun n c inside =>
    Nat.isDigit_of_mem_toDigits (by decide) (by decide) inside
  have kept : ∀ c, c ∈ (Nat.toDigits 10 m).rdropWhile (· = '0') → c.isDigit = true := fun c inside =>
    all m c ((List.rdropWhile_prefix _ _).subset inside)
  unfold scientific at member
  dsimp only at member
  rw [List.mem_append, List.mem_append] at member
  rcases member with (first | others) | power
  · exact .inl (kept c (List.mem_of_mem_take first))
  · split at others
    · cases others
    · rcases List.mem_cons.mp others with point | later
      · exact .inr (.inl point)
      · exact .inl (kept c (List.mem_of_mem_drop later))
  · rcases List.mem_cons.mp power with mark | later
    · exact .inr (.inr (.inl mark))
    · rcases List.mem_cons.mp later with plus | exponent
      · exact .inr (.inr (.inr plus))
      · exact .inl (all _ c exponent)

theorem readNatural_none {digits : List Char} {c : Char} (member : c ∈ digits) (other : c.isDigit = false) :
    readNatural digits = none := by
  refine if_neg ?_
  rintro ⟨-, all⟩
  rw [List.all_eq_true.mp all c member] at other
  cases other

/-- A power of ten is not a decimal. -/
theorem read_spell_large {value : Int} (long : 10 ^ 21 ≤ shortest value.natAbs) : read (spell value) = none := by
  obtain ⟨lead, tail, whole, digit, -, mark⟩ := @scientific_cons (shortest value.natAbs) (by omega)
  rw [spell, if_neg (Nat.not_lt.mpr long), whole]
  have unreadable : readNatural (lead :: tail) = none := readNatural_none (List.mem_cons_of_mem _ mark) (by decide)
  split
  · simp [read, unreadable]
  · rw [List.nil_append]
    unfold read
    split
    · rename_i same
      rw [(List.cons.inj same).1] at digit
      cases digit
    · rw [unreadable]
      rfl

end Decimal

end Foundation
