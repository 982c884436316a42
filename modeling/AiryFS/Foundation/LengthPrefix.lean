import Mathlib.Algebra.Order.Ring.Int
import Mathlib.Data.List.Induction
import Mathlib.Tactic.Common

/-! Frames of bytes, each behind its length, in a stream that arrives in pieces. -/

set_option autoImplicit false

namespace Foundation

namespace LengthPrefix

/-- Four bytes, the highest first. -/
def writeUInt32BE (value : Nat) : List UInt8 :=
  [UInt8.ofNat (value / 2 ^ 24), UInt8.ofNat (value / 2 ^ 16), UInt8.ofNat (value / 2 ^ 8), UInt8.ofNat value]

def readUInt32BE (bytes : List UInt8) : Nat := (bytes.take 4).foldl (fun value byte => value * 256 + byte.toNat) 0

def frame (payload : List UInt8) : List UInt8 := writeUInt32BE payload.length ++ payload

/-- The frames that the bytes begin with. -/
def readFrames (limit : Nat) : Nat → List UInt8 → List (List UInt8)
  | 0, _ => []
  | rounds + 1, bytes =>
    if bytes.length < 4 ∨ limit < readUInt32BE bytes ∨ bytes.length < 4 + readUInt32BE bytes then []
    else (bytes.drop 4).take (readUInt32BE bytes) :: readFrames limit rounds (bytes.drop (4 + readUInt32BE bytes))

variable {limit : Nat} {payload : List UInt8} {payloads : List (List UInt8)}

@[simp] theorem length_writeUInt32BE (value : Nat) : (writeUInt32BE value).length = 4 := rfl

@[simp] theorem length_frame (payload : List UInt8) : (frame payload).length = 4 + payload.length := by
  rw [frame, List.length_append, length_writeUInt32BE]

theorem readUInt32BE_write {value : Nat} (small : value < 2 ^ 32) (rest : List UInt8) :
    readUInt32BE (writeUInt32BE value ++ rest) = value := by
  have front : (writeUInt32BE value ++ rest).take 4 = writeUInt32BE value :=
    List.take_left' (length_writeUInt32BE value)
  rw [readUInt32BE, front, writeUInt32BE]
  simp only [List.foldl_cons, List.foldl_nil, UInt8.toNat_ofNat']
  omega

theorem readUInt32BE_frame (small : payload.length < 2 ^ 32) (rest : List UInt8) :
    readUInt32BE (frame payload ++ rest) = payload.length := by
  rw [frame, List.append_assoc, readUInt32BE_write small]

/-- Four bytes of a frame say how long it is. -/
theorem readUInt32BE_part {part rest : List UInt8} (small : payload.length < 2 ^ 32) (begins : part <+: frame payload ++ rest)
    (enough : 4 ≤ part.length) : readUInt32BE part = payload.length := by
  rw [← readUInt32BE_frame small rest]
  obtain ⟨behind, whole⟩ := begins
  rw [← whole, readUInt32BE, readUInt32BE, List.take_append_of_le_length enough]

theorem drop_frame (payload rest : List UInt8) : (frame payload ++ rest).drop (4 + payload.length) = rest :=
  List.drop_left' (length_frame payload)

theorem payload_frame (payload rest : List UInt8) : ((frame payload ++ rest).drop 4).take payload.length = payload := by
  rw [frame, List.append_assoc, List.drop_left' (length_writeUInt32BE _), List.take_left]

/-- **Frames read back.** -/
theorem readFrames_frames (bounded : limit < 2 ^ 32) (within : ∀ payload ∈ payloads, payload.length ≤ limit) {rounds : Nat}
    (enough : payloads.length ≤ rounds) : readFrames limit rounds (payloads.flatMap frame) = payloads := by
  induction payloads generalizing rounds with
  | nil =>
    cases rounds with
    | zero => rfl
    | succ rounds => rfl
  | cons payload payloads ih =>
    obtain ⟨here, later⟩ := List.forall_mem_cons.mp within
    cases rounds with
    | zero => cases enough
    | succ rounds =>
      have size := readUInt32BE_frame (Nat.lt_of_le_of_lt here bounded) (payloads.flatMap frame)
      rw [List.flatMap_cons, readFrames, size, drop_frame, payload_frame, ih later (Nat.le_of_succ_le_succ enough), if_neg]
      rw [List.length_append, length_frame]
      omega

/-- Frames that a piece completes, and the bytes of the next that it brings. -/
theorem cut_frames {front back : List UInt8} (whole : front ++ back = payloads.flatMap frame) :
    ∃ done later part, payloads = done ++ later ∧ front = done.flatMap frame ++ part ∧ part ++ back = later.flatMap frame ∧
      ∀ payload ∈ later.head?, part.length < 4 + payload.length := by
  induction payloads generalizing front with
  | nil =>
    obtain ⟨rfl, rfl⟩ := List.append_eq_nil_iff.mp whole
    exact ⟨[], [], [], rfl, rfl, rfl, by simp⟩
  | cons payload payloads ih =>
    by_cases short : front.length < 4 + payload.length
    · refine ⟨[], payload :: payloads, front, rfl, rfl, whole, ?_⟩
      intro first head
      rw [← Option.some.inj head]
      exact short
    · rw [List.flatMap_cons] at whole
      obtain ⟨behind, rfl⟩ : ∃ behind, front = frame payload ++ behind := by
        have begins : frame payload <+: front :=
          List.prefix_of_prefix_length_le (whole ▸ List.prefix_append _ _) (List.prefix_append front back)
            (by rw [length_frame]; omega)
        obtain ⟨behind, same⟩ := begins
        exact ⟨behind, same.symm⟩
      rw [List.append_assoc] at whole
      obtain ⟨done, later, part, rfl, rfl, rest, shorter⟩ := ih (List.append_cancel_left whole)
      exact ⟨payload :: done, later, part, rfl, by rw [List.flatMap_cons, List.append_assoc], rest, shorter⟩

end LengthPrefix

end Foundation
