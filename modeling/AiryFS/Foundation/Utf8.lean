import Mathlib.Tactic.Common

/-! Text as UTF-8 bytes, and the decoder that replaces what is not UTF-8.

The decoder reads one byte at a time. What it has read of a character is the code so far, the
number of bytes still to come and the range the next one must lie in; a byte outside the range
ends the character with a replacement and is read again as the first of another one.
-/

set_option autoImplicit false

namespace Foundation

namespace Utf8

def encode (text : List Char) : List UInt8 := text.flatMap String.utf8EncodeChar

/-- A character of which some bytes are still to come. -/
structure Pending where
  code : Nat
  needed : Nat
  lower : Nat
  upper : Nat
  deriving DecidableEq, Repr

def replacement : Char := Char.ofNat 0xFFFD

/-- The first byte of a character. -/
def lead (byte : Nat) : List Char × Option Pending :=
  if byte < 0x80 then ([Char.ofNat byte], none)
  else if 0xC2 ≤ byte ∧ byte ≤ 0xDF then ([], some ⟨byte - 0xC0, 1, 0x80, 0xBF⟩)
  else if 0xE0 ≤ byte ∧ byte ≤ 0xEF then
    ([], some ⟨byte - 0xE0, 2, if byte = 0xE0 then 0xA0 else 0x80, if byte = 0xED then 0x9F else 0xBF⟩)
  else if 0xF0 ≤ byte ∧ byte ≤ 0xF4 then
    ([], some ⟨byte - 0xF0, 3, if byte = 0xF0 then 0x90 else 0x80, if byte = 0xF4 then 0x8F else 0xBF⟩)
  else ([replacement], none)

def next (pending : Option Pending) (byte : Nat) : List Char × Option Pending :=
  match pending with
  | none => lead byte
  | some pending =>
    if pending.lower ≤ byte ∧ byte ≤ pending.upper then
      let code := pending.code * 64 + byte % 64
      if pending.needed = 1 then ([Char.ofNat code], none) else ([], some ⟨code, pending.needed - 1, 0x80, 0xBF⟩)
    else (replacement :: (lead byte).1, (lead byte).2)

def decodeFrom (pending : Option Pending) : List UInt8 → List Char
  | [] => if pending.isSome then [replacement] else []
  | byte :: bytes => (next pending byte.toNat).1 ++ decodeFrom (next pending byte.toNat).2 bytes

/-- A byte order mark at the start is dropped. -/
def decode (bytes : List UInt8) : List Char :=
  match decodeFrom none bytes with
  | first :: rest => if first = Char.ofNat 0xFEFF then rest else first :: rest
  | [] => []

theorem toNat_ofNat {n : Nat} (small : n < 256) : (UInt8.ofNat n).toNat = n := by
  rw [UInt8.toNat_ofNat', Nat.mod_eq_of_lt small]

/-- A code point is below the surrogates or above them. -/
theorem code_valid (c : Char) : c.toNat < 0xD800 ∨ 0xDFFF < c.toNat ∧ c.toNat < 0x110000 := c.valid

theorem decodeFrom_cons (pending : Option Pending) {byte : Nat} (small : byte < 256) (bytes : List UInt8) :
    decodeFrom pending (UInt8.ofNat byte :: bytes) = (next pending byte).1 ++ decodeFrom (next pending byte).2 bytes := by
  rw [decodeFrom, toNat_ofNat small]

/-- A byte in the range of a character that is not its last. -/
theorem decodeFrom_continue {pending : Pending} {byte : Nat} (within : pending.lower ≤ byte ∧ byte ≤ pending.upper)
    (small : byte < 256) (more : pending.needed ≠ 1) (bytes : List UInt8) :
    decodeFrom (some pending) (UInt8.ofNat byte :: bytes) =
      decodeFrom (some ⟨pending.code * 64 + byte % 64, pending.needed - 1, 0x80, 0xBF⟩) bytes := by
  rw [decodeFrom_cons _ small, next]
  dsimp only
  rw [if_pos within, if_neg more]
  rfl

theorem decodeFrom_last {pending : Pending} {byte : Nat} (within : pending.lower ≤ byte ∧ byte ≤ pending.upper)
    (small : byte < 256) (last : pending.needed = 1) (bytes : List UInt8) :
    decodeFrom (some pending) (UInt8.ofNat byte :: bytes) =
      Char.ofNat (pending.code * 64 + byte % 64) :: decodeFrom none bytes := by
  rw [decodeFrom_cons _ small, next]
  dsimp only
  rw [if_pos within, if_pos last]
  rfl

theorem decodeFrom_char (c : Char) (rest : List UInt8) :
    decodeFrom none (String.utf8EncodeChar c ++ rest) = c :: decodeFrom none rest := by
  have valid := code_valid c
  have spelled : Char.ofNat c.toNat = c := c.ofNat_toNat
  unfold String.utf8EncodeChar
  dsimp only
  have known : c.val.toNat = c.toNat := rfl
  simp only [known]
  generalize c.toNat = n at valid spelled
  split
  · rw [List.singleton_append, decodeFrom_cons none (by omega), next, lead, if_pos (by omega), ← spelled]
    rfl
  · split
    · have first : n / 64 % 32 = n / 64 := by omega
      simp only [List.cons_append, List.nil_append, first]
      rw [decodeFrom_cons none (by omega), next, lead, if_neg (by omega), if_pos (by omega), List.nil_append,
        decodeFrom_last (by dsimp only; omega) (by omega) rfl, ← spelled]
      congr 2
      dsimp only
      omega
    · split
      · have first : n / 4096 % 16 = n / 4096 := by omega
        simp only [List.cons_append, List.nil_append, first]
        rw [decodeFrom_cons none (by omega), next, lead, if_neg (by omega), if_neg (by omega), if_pos (by omega),
          List.nil_append, decodeFrom_continue ?_ (by omega) (by simp), decodeFrom_last (by dsimp only; omega) (by omega) rfl,
          ← spelled]
        · congr 2
          dsimp only
          omega
        · -- The bounds on the second byte exclude long spellings and surrogates.
          dsimp only
          split <;> split <;> omega
      · have first : n / 262144 % 8 = n / 262144 := by omega
        simp only [List.cons_append, List.nil_append, first]
        rw [decodeFrom_cons none (by omega), next, lead, if_neg (by omega), if_neg (by omega), if_neg (by omega),
          if_pos (by omega), List.nil_append, decodeFrom_continue ?_ (by omega) (by simp),
          decodeFrom_continue (by dsimp only; omega) (by omega) (by simp),
          decodeFrom_last (by dsimp only; omega) (by omega) rfl, ← spelled]
        · congr 2
          dsimp only
          omega
        · dsimp only
          split <;> split <;> omega

theorem decodeFrom_encode (text : List Char) : decodeFrom none (encode text) = text := by
  induction text with
  | nil => rfl
  | cons c text ih =>
    rw [encode, List.flatMap_cons, decodeFrom_char, ← encode, ih]

theorem decode_encode {text : List Char} (plain : text.head? ≠ some (Char.ofNat 0xFEFF)) : decode (encode text) = text := by
  unfold decode
  rw [decodeFrom_encode]
  cases text with
  | nil => rfl
  | cons first rest => exact if_neg fun mark => plain (by rw [List.head?_cons, mark])

end Utf8

end Foundation
