import AiryFS.Foundation.Utf8

/-! Percent-encoded text.

A character that is not kept is written as its UTF-8 bytes, each behind a percent sign. The
decoder gives back what was encoded as long as the percent sign itself is not kept.
-/

set_option autoImplicit false

namespace Foundation

namespace Percent

def digit (n : Nat) : Char := Char.ofNat (if n < 10 then 0x30 + n else 0x37 + n)

def digitValue (character : Char) : Option Nat :=
  let code := character.toNat
  if 0x30 ≤ code ∧ code ≤ 0x39 then some (code - 0x30)
  else if 0x41 ≤ code ∧ code ≤ 0x46 then some (code - 0x37)
  else if 0x61 ≤ code ∧ code ≤ 0x66 then some (code - 0x57)
  else none

def encodeByte (byte : UInt8) : List Char := ['%', digit (byte.toNat / 16), digit (byte.toNat % 16)]

def encode (kept : Char → Bool) (text : List Char) : List Char :=
  text.flatMap fun character =>
    if kept character then [character] else (String.utf8EncodeChar character).flatMap encodeByte

/-- The bytes that the text stands for, unless a percent sign has no two digits behind it. -/
def bytes : List Char → Option (List UInt8)
  | [] => some []
  | '%' :: high :: low :: rest => do
    let high ← digitValue high
    let low ← digitValue low
    return UInt8.ofNat (high * 16 + low) :: (← bytes rest)
  | character :: rest => if character = '%' then none else do return String.utf8EncodeChar character ++ (← bytes rest)

/-- The text, unless its bytes are not UTF-8. -/
def decode (text : List Char) : Option (List Char) := do
  let bytes ← bytes text
  if Utf8.encode (Utf8.decodeFrom none bytes) = bytes then return Utf8.decodeFrom none bytes else none

/-! ## Round trip -/

theorem digitValue_digit : ∀ n < 16, digitValue (digit n) = some n := by decide

theorem digit_hex : ∀ n < 16, digit n ∈ "0123456789ABCDEF".toList := by decide

theorem bytes_encodeByte (byte : UInt8) (rest : List Char) :
    bytes (encodeByte byte ++ rest) = (bytes rest).map (byte :: ·) := by
  have small := byte.toNat_lt
  have whole : UInt8.ofNat (byte.toNat / 16 * 16 + byte.toNat % 16) = byte := by
    rw [show byte.toNat / 16 * 16 + byte.toNat % 16 = byte.toNat by omega, UInt8.ofNat_toNat]
  simp only [encodeByte, List.cons_append, List.nil_append, bytes, digitValue_digit _ (show byte.toNat / 16 < 16 by omega),
    digitValue_digit _ (show byte.toNat % 16 < 16 by omega)]
  cases bytes rest with
  | none => rfl
  | some rest =>
    change some (_ :: rest) = some (byte :: rest)
    rw [whole]

theorem bytes_encodeBytes (listed : List UInt8) (rest : List Char) :
    bytes (listed.flatMap encodeByte ++ rest) = (bytes rest).map (listed ++ ·) := by
  induction listed with
  | nil => simp
  | cons byte listed ih =>
    rw [List.flatMap_cons, List.append_assoc, bytes_encodeByte, ih, Option.map_map]
    rfl

theorem bytes_kept {character : Char} (plain : character ≠ '%') (rest : List Char) :
    bytes (character :: rest) = (bytes rest).map (String.utf8EncodeChar character ++ ·) := by
  rw [bytes]
  · rw [if_neg plain]
    cases bytes rest <;> rfl
  · intro high low after same
    exact absurd same plain

variable {kept : Char → Bool}

theorem bytes_encode (percent : kept '%' = false) (text : List Char) : bytes (encode kept text) = some (Utf8.encode text) := by
  induction text with
  | nil => rfl
  | cons character text ih =>
    have tail : bytes (encode kept text) = some (Utf8.encode text) := ih
    change bytes ((if kept character then [character] else _) ++ encode kept text) = _
    split
    · rename_i own
      have plain : character ≠ '%' := by
        rintro rfl
        simp [percent] at own
      rw [List.singleton_append, bytes_kept plain, tail]
      rfl
    · rw [bytes_encodeBytes, tail]
      rfl

/-- What was encoded is what is decoded. -/
theorem decode_encode (percent : kept '%' = false) (text : List Char) : decode (encode kept text) = some text := by
  rw [decode, bytes_encode percent]
  simp [Utf8.decodeFrom_encode]

theorem encode_injective (percent : kept '%' = false) {first second : List Char}
    (same : encode kept first = encode kept second) : first = second := by
  have decoded := decode_encode percent first
  rw [same, decode_encode percent] at decoded
  exact (Option.some.inj decoded).symm

/-! ## Characters of encoded text -/

theorem mem_encode {text : List Char} {character : Char} (member : character ∈ encode kept text) :
    kept character = true ∨ character ∈ "%0123456789ABCDEF".toList := by
  obtain ⟨source, _, inside⟩ := List.mem_flatMap.mp member
  split at inside
  · rename_i own
    rw [List.mem_singleton.mp inside]
    exact .inl own
  · obtain ⟨byte, _, spelled⟩ := List.mem_flatMap.mp inside
    have small := byte.toNat_lt
    have high := digit_hex (byte.toNat / 16) (by omega)
    have low := digit_hex (byte.toNat % 16) (by omega)
    right
    simp only [encodeByte, List.mem_cons, List.not_mem_nil, or_false] at spelled
    rcases spelled with rfl | rfl | rfl
    · decide
    · exact List.mem_cons_of_mem _ high
    · exact List.mem_cons_of_mem _ low

theorem encode_eq_nil (percent : kept '%' = false) {text : List Char} : encode kept text = [] ↔ text = [] := by
  constructor
  · intro empty
    exact encode_injective percent (empty.trans rfl)
  · rintro rfl
    rfl

theorem encode_of_kept {text : List Char} (all : ∀ character ∈ text, kept character = true) : encode kept text = text := by
  induction text with
  | nil => rfl
  | cons character text ih =>
    have rest := ih (fun other member => all other (List.mem_cons_of_mem _ member))
    change (if kept character then [character] else _) ++ encode kept text = _
    rw [if_pos (all character List.mem_cons_self), rest, List.singleton_append]

end Percent

end Foundation
