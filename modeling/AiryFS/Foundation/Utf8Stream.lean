import AiryFS.Foundation.Utf8

/-! The decoder of a stream: bytes come in chunks that may end inside a character. -/

set_option autoImplicit false

namespace Foundation

namespace Utf8

/-- What the bytes complete, and the character they leave unfinished. -/
def feed : Option Pending → List UInt8 → List Char × Option Pending
  | pending, [] => ([], pending)
  | pending, byte :: bytes =>
    ((next pending byte.toNat).1 ++ (feed (next pending byte.toNat).2 bytes).1, (feed (next pending byte.toNat).2 bytes).2)

/-- A byte order mark at the start is dropped. -/
def dropMark : List Char → List Char
  | [] => []
  | first :: rest => if first = Char.ofNat 0xFEFF then rest else first :: rest

/-- The state of a `TextDecoder`: `begun` once it has seen a character. -/
structure Decoder where
  pending : Option Pending
  begun : Bool
  deriving DecidableEq

namespace Decoder

def fresh : Decoder := ⟨none, false⟩

/-- `decode(chunk, { stream: true })`. -/
def decode (decoder : Decoder) (chunk : List UInt8) : List Char × Decoder :=
  let (text, pending) := feed decoder.pending chunk
  (if decoder.begun then text else dropMark text, { pending, begun := decoder.begun || !text.isEmpty })

/-- `decode()`. -/
def finish (decoder : Decoder) : List Char := if decoder.pending.isSome then [replacement] else []

/-- The texts of the chunks, and the decoder after them. -/
def decodeAll : Decoder → List (List UInt8) → List (List Char) × Decoder
  | decoder, [] => ([], decoder)
  | decoder, chunk :: chunks =>
    ((decoder.decode chunk).1 :: (decodeAll (decoder.decode chunk).2 chunks).1, (decodeAll (decoder.decode chunk).2 chunks).2)

end Decoder

theorem feed_append (pending : Option Pending) (first second : List UInt8) :
    feed pending (first ++ second) =
      ((feed pending first).1 ++ (feed (feed pending first).2 second).1, (feed (feed pending first).2 second).2) := by
  induction first generalizing pending with
  | nil => rfl
  | cons byte bytes ih =>
    rw [List.cons_append, feed, feed, ih, List.append_assoc]

theorem dropMark_append {text : List Char} (some_ : text ≠ []) (rest : List Char) :
    dropMark (text ++ rest) = dropMark text ++ rest := by
  cases text with
  | nil => exact absurd rfl some_
  | cons first text =>
    unfold dropMark
    dsimp only [List.cons_append]
    split
    · rfl
    · rfl

/-- One byte completes at most a replacement before its last character. -/
theorem next_dropLast (pending : Option Pending) (byte : Nat) {c : Char} (member : c ∈ (next pending byte).1.dropLast) :
    c = replacement := by
  have short (byte : Nat) : (lead byte).1.dropLast = [] := by
    unfold lead
    split
    · rfl
    · split
      · rfl
      · split
        · rfl
        · split
          · rfl
          · rfl
  have single (byte : Nat) : (lead byte).1.length ≤ 1 := by
    have none_ := congrArg List.length (short byte)
    rw [List.length_dropLast, List.length_nil] at none_
    omega
  unfold next at member
  split at member
  · rw [short] at member
    cases member
  · split at member
    · dsimp only at member
      split at member
      · cases member
      · cases member
    · dsimp only at member
      cases led : (lead byte).1 with
      | nil =>
        rw [led] at member
        cases member
      | cons first rest =>
        have bounded := single byte
        rw [led, List.length_cons] at bounded
        have nothing : rest = [] := List.eq_nil_of_length_eq_zero (by omega)
        rw [led, nothing] at member
        exact List.mem_singleton.mp member

namespace Decoder

theorem decode_append (decoder : Decoder) (first second : List UInt8) :
    decoder.decode (first ++ second) =
      ((decoder.decode first).1 ++ ((decoder.decode first).2.decode second).1, ((decoder.decode first).2.decode second).2) := by
  obtain ⟨pending, begun⟩ := decoder
  unfold decode
  rw [feed_append]
  cases begun with
  | true => simp
  | false =>
    by_cases nothing : (feed pending first).1 = []
    · simp [nothing, dropMark]
    · have grows (rest : List Char) : ((feed pending first).1 ++ rest).isEmpty = false := by simp [nothing]
      have some_ : (feed pending first).1.isEmpty = false := by simp [nothing]
      simp [nothing, dropMark_append, grows, some_]

@[simp] theorem decode_nil (decoder : Decoder) : decoder.decode [] = ([], decoder) := by
  obtain ⟨pending, begun⟩ := decoder
  cases begun with
  | true => rfl
  | false => rfl

/-- A text does not depend on the chunks it comes in. -/
theorem decodeAll_spec (decoder : Decoder) (chunks : List (List UInt8)) :
    (decoder.decodeAll chunks).1.flatten = (decoder.decode chunks.flatten).1 ∧
      (decoder.decodeAll chunks).2 = (decoder.decode chunks.flatten).2 := by
  induction chunks generalizing decoder with
  | nil => simp [decodeAll]
  | cons chunk chunks ih =>
    obtain ⟨text, last⟩ := ih (decoder.decode chunk).2
    rw [decodeAll, List.flatten_cons, List.flatten_cons, decode_append, text, last]
    exact ⟨rfl, rfl⟩

theorem decode_byte (decoder : Decoder) (byte : UInt8) : '\n' ∉ (decoder.decode [byte]).1.dropLast := by
  have ends : '\n' ∉ (next decoder.pending byte.toNat).1.dropLast := by
    intro member
    exact absurd (next_dropLast _ _ member) (by decide)
  unfold decode
  dsimp only [feed]
  rw [List.append_nil]
  split
  · exact ends
  · intro member
    apply ends
    cases text : (next decoder.pending byte.toNat).1 with
    | nil =>
      rw [text] at member
      cases member
    | cons first rest =>
      rw [text] at member
      unfold dropMark at member
      dsimp only at member
      split at member
      · cases rest with
        | nil => cases member
        | cons second rest => exact List.mem_cons_of_mem _ member
      · exact member

/-- A chunk of one byte ends at most one line, and with its last character. -/
theorem decodeAll_bytes (decoder : Decoder) {chunks : List (List UInt8)} (bytes : ∀ chunk ∈ chunks, chunk.length = 1) :
    ∀ text ∈ (decoder.decodeAll chunks).1, '\n' ∉ text.dropLast := by
  induction chunks generalizing decoder with
  | nil =>
    intro text member
    cases member
  | cons chunk chunks ih =>
    intro text member
    rcases List.mem_cons.mp member with rfl | later
    · obtain ⟨byte, rfl⟩ := List.length_eq_one_iff.mp (bytes chunk List.mem_cons_self)
      exact decode_byte decoder byte
    · exact ih _ (fun chunk member => bytes chunk (List.mem_cons_of_mem _ member)) text later

end Decoder

end Utf8

end Foundation
