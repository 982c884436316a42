import AiryFS.Foundation.Utf8
import Mathlib.Data.List.Infix

/-! Bytes as the decoder takes them apart: characters, and what is broken off.

Every byte belongs to a unit, which the decoder reads as one character. A unit is the spelling of its
character, or at most three bytes that spell none and are read as the replacement.
-/

set_option autoImplicit false

namespace Foundation

namespace Utf8

/-- A byte that does not start a character. -/
def Continuation (byte : UInt8) : Prop := 0x80 ≤ byte.toNat ∧ byte.toNat ≤ 0xBF

/-- Bytes that spell no character. -/
structure Broken (bytes : List UInt8) : Prop where
  filled : bytes ≠ []
  short : bytes.length ≤ 3
  trailing : ∀ byte ∈ bytes.tail, Continuation byte
  led : bytes.length ≠ 1 → ∀ byte ∈ bytes.head?, ¬Continuation byte
  unlike : ∀ c, bytes ≠ String.utf8EncodeChar c
  alone : ∀ rest, (∀ byte ∈ rest.head?, ¬Continuation byte) → decodeFrom none (bytes ++ rest) = replacement :: decodeFrom none rest

/-- The bytes are read as these units. -/
inductive Reads : List UInt8 → List (Char × List UInt8) → Prop where
  | nil : Reads [] []
  | char {rest : List UInt8} {units : List (Char × List UInt8)} (c : Char) (later : Reads rest units) :
      Reads (String.utf8EncodeChar c ++ rest) ((c, String.utf8EncodeChar c) :: units)
  | broken {bytes rest : List UInt8} {units : List (Char × List UInt8)} (broken : Broken bytes)
      (none_ : ∀ c, ¬String.utf8EncodeChar c <+: bytes ++ rest)
      (decoded : decodeFrom none (bytes ++ rest) = replacement :: decodeFrom none rest) (later : Reads rest units) :
      Reads (bytes ++ rest) ((replacement, bytes) :: units)

/-! ## Characters -/

theorem toNat_char {n : Nat} (valid : n < 0xD800 ∨ 0xDFFF < n ∧ n < 0x110000) : (Char.ofNat n).toNat = n := by
  rw [Char.ofNat, dif_pos valid]
  rfl

theorem utf8EncodeChar_cases (c : Char) : (∃ first, String.utf8EncodeChar c = [first] ∧ first.toNat < 0x80) ∨
    ∃ first tail, String.utf8EncodeChar c = first :: tail ∧ 0xC2 ≤ first.toNat ∧ tail ≠ [] ∧ tail.length ≤ 3 ∧
      ∀ byte ∈ tail, Continuation byte := by
  have valid := code_valid c
  unfold String.utf8EncodeChar
  dsimp only
  have known : c.val.toNat = c.toNat := rfl
  simp only [known]
  generalize c.toNat = n at valid
  have trailing : ∀ m, Continuation (UInt8.ofNat (m % 64 + 128)) := by
    intro m
    rw [Continuation, toNat_ofNat (by omega)]
    omega
  split
  · exact .inl ⟨_, rfl, by rw [toNat_ofNat (by omega)]; omega⟩
  · right
    split
    · exact ⟨_, _, rfl, by rw [toNat_ofNat (by omega)]; omega, List.cons_ne_nil _ _, by simp,
        List.forall_mem_singleton.mpr (trailing _)⟩
    · split
      · exact ⟨_, _, rfl, by rw [toNat_ofNat (by omega)]; omega, List.cons_ne_nil _ _, by simp,
          List.forall_mem_cons.mpr ⟨trailing _, List.forall_mem_singleton.mpr (trailing _)⟩⟩
      · exact ⟨_, _, rfl, by rw [toNat_ofNat (by omega)]; omega, List.cons_ne_nil _ _, by simp,
          List.forall_mem_cons.mpr ⟨trailing _, List.forall_mem_cons.mpr ⟨trailing _, List.forall_mem_singleton.mpr (trailing _)⟩⟩⟩

/-- A character starts with a byte that is no continuation. -/
theorem head_char (c : Char) : ∀ byte ∈ (String.utf8EncodeChar c).head?, ¬Continuation byte := by
  intro byte head
  rcases utf8EncodeChar_cases c with ⟨first, spelled, low⟩ | ⟨first, tail, spelled, high, _⟩ <;>
    · rw [spelled, List.head?_cons, Option.mem_some_iff] at head
      rw [Continuation, ← head]
      omega

theorem tail_char (c : Char) : ∀ byte ∈ (String.utf8EncodeChar c).tail, Continuation byte := by
  intro byte member
  rcases utf8EncodeChar_cases c with ⟨first, spelled, _⟩ | ⟨first, tail, spelled, _, _, _, trailing⟩
  · rw [spelled] at member
    cases member
  · rw [spelled] at member
    exact trailing byte member

theorem char_ne_nil (c : Char) : String.utf8EncodeChar c ≠ [] := String.utf8EncodeChar_ne_nil

/-- A spelling is not the start of another text than one with its character. -/
theorem char_inj {c d : Char} {first second : List UInt8}
    (same : String.utf8EncodeChar c ++ first = String.utf8EncodeChar d ++ second) : c = d ∧ first = second := by
  have read := congrArg (decodeFrom none) same
  rw [decodeFrom_char, decodeFrom_char, List.cons.injEq] at read
  obtain ⟨rfl, _⟩ := read
  exact ⟨rfl, List.append_cancel_left same⟩

/-! ## Spellings by their bytes -/

theorem spells_one {byte : UInt8} (low : byte.toNat < 0x80) : String.utf8EncodeChar (Char.ofNat byte.toNat) = [byte] := by
  unfold String.utf8EncodeChar
  dsimp only
  have known : (Char.ofNat byte.toNat).val.toNat = byte.toNat := toNat_char (by omega)
  rw [known, if_pos (by omega), UInt8.ofNat_toNat]

theorem spells_two {first second : UInt8} (lead : 0xC2 ≤ first.toNat ∧ first.toNat ≤ 0xDF) (next : Continuation second) :
    String.utf8EncodeChar (Char.ofNat ((first.toNat - 0xC0) * 64 + second.toNat % 64)) = [first, second] := by
  unfold Continuation at next
  unfold String.utf8EncodeChar
  dsimp only
  have known : (Char.ofNat ((first.toNat - 0xC0) * 64 + second.toNat % 64)).val.toNat =
      (first.toNat - 0xC0) * 64 + second.toNat % 64 := toNat_char (by omega)
  rw [known, if_neg (by omega), if_pos (by omega)]
  congr 1
  · rw [← UInt8.toNat_inj, toNat_ofNat (by omega)]
    omega
  · congr 1
    rw [← UInt8.toNat_inj, toNat_ofNat (by omega)]
    omega

theorem spells_three {first second third : UInt8} (lead : 0xE0 ≤ first.toNat ∧ first.toNat ≤ 0xEF)
    (next : (if first.toNat = 0xE0 then 0xA0 else 0x80) ≤ second.toNat ∧
      second.toNat ≤ if first.toNat = 0xED then 0x9F else 0xBF) (last : Continuation third) :
    String.utf8EncodeChar (Char.ofNat (((first.toNat - 0xE0) * 64 + second.toNat % 64) * 64 + third.toNat % 64)) =
      [first, second, third] := by
  unfold Continuation at last
  have bounds : 0x80 ≤ second.toNat ∧ second.toNat ≤ 0xBF ∧ (first.toNat = 0xE0 → 0xA0 ≤ second.toNat) ∧
      (first.toNat = 0xED → second.toNat ≤ 0x9F) := by
    refine ⟨?_, ?_, ?_, ?_⟩ <;> split at next <;> split at next <;> omega
  unfold String.utf8EncodeChar
  dsimp only
  have known : (Char.ofNat (((first.toNat - 0xE0) * 64 + second.toNat % 64) * 64 + third.toNat % 64)).val.toNat =
      ((first.toNat - 0xE0) * 64 + second.toNat % 64) * 64 + third.toNat % 64 := toNat_char (by omega)
  rw [known, if_neg (by omega), if_neg (by omega), if_pos (by omega)]
  congr 1
  · rw [← UInt8.toNat_inj, toNat_ofNat (by omega)]
    omega
  · congr 1
    · rw [← UInt8.toNat_inj, toNat_ofNat (by omega)]
      omega
    · congr 1
      rw [← UInt8.toNat_inj, toNat_ofNat (by omega)]
      omega

theorem spells_four {first second third fourth : UInt8} (lead : 0xF0 ≤ first.toNat ∧ first.toNat ≤ 0xF4)
    (next : (if first.toNat = 0xF0 then 0x90 else 0x80) ≤ second.toNat ∧
      second.toNat ≤ if first.toNat = 0xF4 then 0x8F else 0xBF) (third_ : Continuation third) (last : Continuation fourth) :
    String.utf8EncodeChar (Char.ofNat
        ((((first.toNat - 0xF0) * 64 + second.toNat % 64) * 64 + third.toNat % 64) * 64 + fourth.toNat % 64)) =
      [first, second, third, fourth] := by
  unfold Continuation at third_ last
  have bounds : 0x80 ≤ second.toNat ∧ second.toNat ≤ 0xBF ∧ (first.toNat = 0xF0 → 0x90 ≤ second.toNat) ∧
      (first.toNat = 0xF4 → second.toNat ≤ 0x8F) := by
    refine ⟨?_, ?_, ?_, ?_⟩ <;> split at next <;> split at next <;> omega
  unfold String.utf8EncodeChar
  dsimp only
  have known : (Char.ofNat
      ((((first.toNat - 0xF0) * 64 + second.toNat % 64) * 64 + third.toNat % 64) * 64 + fourth.toNat % 64)).val.toNat =
      (((first.toNat - 0xF0) * 64 + second.toNat % 64) * 64 + third.toNat % 64) * 64 + fourth.toNat % 64 :=
    toNat_char (by omega)
  rw [known, if_neg (by omega), if_neg (by omega), if_neg (by omega)]
  congr 1
  · rw [← UInt8.toNat_inj, toNat_ofNat (by omega)]
    omega
  · congr 1
    · rw [← UInt8.toNat_inj, toNat_ofNat (by omega)]
      omega
    · congr 1
      · rw [← UInt8.toNat_inj, toNat_ofNat (by omega)]
        omega
      · congr 1
        rw [← UInt8.toNat_inj, toNat_ofNat (by omega)]
        omega

/-! ## Units -/

/-- A character is given up at a byte that cannot go on with it. -/
theorem decodeFrom_stop {pending : Pending} {rest : List UInt8}
    (stopped : ∀ byte ∈ rest.head?, ¬(pending.lower ≤ byte.toNat ∧ byte.toNat ≤ pending.upper)) :
    decodeFrom (some pending) rest = replacement :: decodeFrom none rest := by
  cases rest with
  | nil => rfl
  | cons byte rest => rw [decodeFrom, next, if_neg (stopped byte rfl), decodeFrom, next, List.cons_append]

/-- What has been read of a character that is given up. -/
theorem broken_off {bytes rest : List UInt8} {pending : Pending}
    (reads : ∀ rest, decodeFrom none (bytes ++ rest) = decodeFrom (some pending) rest)
    (bounds : 0x80 ≤ pending.lower ∧ pending.upper ≤ 0xBF) (filled : bytes ≠ []) (short : bytes.length ≤ 3)
    (trailing : ∀ byte ∈ bytes.tail, Continuation byte) (led : ∀ byte ∈ bytes.head?, ¬Continuation byte)
    (none_ : ∀ c, ¬String.utf8EncodeChar c <+: bytes ++ rest)
    (stopped : ∀ byte ∈ rest.head?, ¬(pending.lower ≤ byte.toNat ∧ byte.toNat ≤ pending.upper)) :
    Broken bytes ∧ decodeFrom none (bytes ++ rest) = replacement :: decodeFrom none rest := by
  refine ⟨⟨filled, short, trailing, fun _ => led, fun c same => none_ c ?_, fun rest apart => ?_⟩, ?_⟩
  · rw [same]
    exact List.prefix_append _ _
  · rw [reads, decodeFrom_stop]
    intro byte head within
    apply apart byte head
    unfold Continuation
    omega
  · rw [reads, decodeFrom_stop stopped]

/-- Bytes that start with no character start with something broken. -/
theorem broken_first {byte : UInt8} {bytes : List UInt8} (none_ : ∀ c, ¬String.utf8EncodeChar c <+: byte :: bytes) :
    ∃ first rest, byte :: bytes = first ++ rest ∧ Broken first ∧
      decodeFrom none (byte :: bytes) = replacement :: decodeFrom none rest := by
  have absent : ∀ {c first rest}, String.utf8EncodeChar c = first → byte :: bytes = first ++ rest → False := by
    intro c first rest spelled whole
    exact none_ c ⟨rest, by rw [spelled, whole]⟩
  by_cases one : byte.toNat < 0x80
  · exact (absent (spells_one one) rfl).elim
  by_cases two : 0xC2 ≤ byte.toNat ∧ byte.toNat ≤ 0xDF
  · have reads : ∀ rest, decodeFrom none ([byte] ++ rest) = decodeFrom (some ⟨byte.toNat - 0xC0, 1, 0x80, 0xBF⟩) rest := by
      intro rest
      rw [List.singleton_append, decodeFrom, next, lead, if_neg one, if_pos two]
      rfl
    refine ⟨[byte], bytes, rfl, broken_off reads (by simp) (by simp) (by simp) (by simp) ?_ none_ ?_⟩
    · simp [Continuation]
      omega
    · intro second head within
      obtain ⟨rest, rfl⟩ := List.head?_eq_some_iff.mp head
      exact absent (spells_two two within) rfl
  by_cases three : 0xE0 ≤ byte.toNat ∧ byte.toNat ≤ 0xEF
  · have reads : ∀ rest, decodeFrom none ([byte] ++ rest) = decodeFrom (some ⟨byte.toNat - 0xE0, 2,
        if byte.toNat = 0xE0 then 0xA0 else 0x80, if byte.toNat = 0xED then 0x9F else 0xBF⟩) rest := by
      intro rest
      rw [List.singleton_append, decodeFrom, next, lead, if_neg one, if_neg two, if_pos three]
      rfl
    by_cases further : ∃ second rest, bytes = second :: rest ∧ (if byte.toNat = 0xE0 then 0xA0 else 0x80) ≤ second.toNat ∧
        second.toNat ≤ if byte.toNat = 0xED then 0x9F else 0xBF
    · obtain ⟨second, rest, rfl, within⟩ := further
      have after : ∀ rest, decodeFrom none ([byte, second] ++ rest) =
          decodeFrom (some ⟨(byte.toNat - 0xE0) * 64 + second.toNat % 64, 1, 0x80, 0xBF⟩) rest := by
        intro rest
        rw [List.cons_append, ← List.singleton_append, reads, List.singleton_append, decodeFrom, next]
        dsimp only
        rw [if_pos within]
        rfl
      refine ⟨[byte, second], rest, rfl, broken_off after (by simp) (by simp) (by simp) ?_ ?_ none_ ?_⟩
      · simp [Continuation]
        split at within <;> split at within <;> omega
      · simp [Continuation]
        omega
      · intro third head last
        obtain ⟨rest, rfl⟩ := List.head?_eq_some_iff.mp head
        exact absent (spells_three three within last) rfl
    · refine ⟨[byte], bytes, rfl, broken_off reads ?_ (by simp) (by simp) (by simp) ?_ none_ ?_⟩
      · dsimp only
        split <;> split <;> omega
      · simp [Continuation]
        omega
      · intro second head within
        obtain ⟨rest, rfl⟩ := List.head?_eq_some_iff.mp head
        exact further ⟨second, rest, rfl, within⟩
  by_cases four : 0xF0 ≤ byte.toNat ∧ byte.toNat ≤ 0xF4
  · have reads : ∀ rest, decodeFrom none ([byte] ++ rest) = decodeFrom (some ⟨byte.toNat - 0xF0, 3,
        if byte.toNat = 0xF0 then 0x90 else 0x80, if byte.toNat = 0xF4 then 0x8F else 0xBF⟩) rest := by
      intro rest
      rw [List.singleton_append, decodeFrom, next, lead, if_neg one, if_neg two, if_neg three, if_pos four]
      rfl
    by_cases further : ∃ second rest, bytes = second :: rest ∧ (if byte.toNat = 0xF0 then 0x90 else 0x80) ≤ second.toNat ∧
        second.toNat ≤ if byte.toNat = 0xF4 then 0x8F else 0xBF
    · obtain ⟨second, rest, rfl, within⟩ := further
      have after : ∀ rest, decodeFrom none ([byte, second] ++ rest) =
          decodeFrom (some ⟨(byte.toNat - 0xF0) * 64 + second.toNat % 64, 2, 0x80, 0xBF⟩) rest := by
        intro rest
        rw [List.cons_append, ← List.singleton_append, reads, List.singleton_append, decodeFrom, next]
        dsimp only
        rw [if_pos within]
        rfl
      have second_ : Continuation second := by
        unfold Continuation
        split at within <;> split at within <;> omega
      by_cases third_ : ∃ third later, rest = third :: later ∧ Continuation third
      · obtain ⟨third, later, rfl, middle⟩ := third_
        have almost : ∀ rest, decodeFrom none ([byte, second, third] ++ rest) =
            decodeFrom (some ⟨((byte.toNat - 0xF0) * 64 + second.toNat % 64) * 64 + third.toNat % 64, 1, 0x80, 0xBF⟩) rest := by
          intro rest
          change decodeFrom none ([byte, second] ++ third :: rest) = _
          rw [after, decodeFrom, next]
          dsimp only
          rw [if_pos (show 0x80 ≤ third.toNat ∧ third.toNat ≤ 0xBF from middle)]
          rfl
        refine ⟨[byte, second, third], later, rfl, broken_off almost (by simp) (by simp) (by simp) ?_ ?_ none_ ?_⟩
        · exact List.forall_mem_cons.mpr ⟨second_, List.forall_mem_singleton.mpr middle⟩
        · simp [Continuation]
          omega
        · intro fourth head last
          obtain ⟨rest, rfl⟩ := List.head?_eq_some_iff.mp head
          exact absent (spells_four four within middle last) rfl
      · refine ⟨[byte, second], rest, rfl, broken_off after (by simp) (by simp) (by simp) ?_ ?_ none_ ?_⟩
        · exact List.forall_mem_singleton.mpr second_
        · simp [Continuation]
          omega
        · intro third head middle
          obtain ⟨rest, rfl⟩ := List.head?_eq_some_iff.mp head
          exact third_ ⟨third, rest, rfl, middle⟩
    · refine ⟨[byte], bytes, rfl, broken_off reads ?_ (by simp) (by simp) (by simp) ?_ none_ ?_⟩
      · dsimp only
        split <;> split <;> omega
      · simp [Continuation]
        omega
      · intro second head within
        obtain ⟨rest, rfl⟩ := List.head?_eq_some_iff.mp head
        exact further ⟨second, rest, rfl, within⟩
  -- No character starts with the byte.
  have reads : ∀ rest, decodeFrom none (byte :: rest) = replacement :: decodeFrom none rest := by
    intro rest
    rw [decodeFrom, next, lead, if_neg one, if_neg two, if_neg three, if_neg four]
    rfl
  exact ⟨[byte], bytes, rfl, ⟨by simp, by simp, by simp, by simp, fun c same => none_ c ⟨bytes, by rw [← same]; rfl⟩,
    fun rest _ => reads rest⟩, reads bytes⟩

theorem exists_reads (bytes : List UInt8) : ∃ units, Reads bytes units := by
  induction length : bytes.length using Nat.strong_induction_on generalizing bytes with
  | _ length ih =>
    cases bytes with
    | nil => exact ⟨[], .nil⟩
    | cons byte bytes =>
      by_cases some_ : ∃ c, String.utf8EncodeChar c <+: byte :: bytes
      · obtain ⟨c, rest, whole⟩ := some_
        have shorter := congrArg List.length whole
        rw [List.length_append, length] at shorter
        have filled := List.length_pos_iff.mpr (char_ne_nil c)
        obtain ⟨units, later⟩ := ih rest.length (by omega) rest rfl
        rw [← whole]
        exact ⟨_, .char c later⟩
      · have none_ := not_exists.mp some_
        obtain ⟨first, rest, whole, broken, decoded⟩ := broken_first none_
        have shorter := congrArg List.length whole
        rw [List.length_append, length] at shorter
        have filled := List.length_pos_iff.mpr broken.filled
        obtain ⟨units, later⟩ := ih rest.length (by omega) rest rfl
        rw [whole] at none_ decoded ⊢
        exact ⟨_, .broken broken none_ decoded later⟩

namespace Reads

variable {bytes : List UInt8} {units : List (Char × List UInt8)}

theorem bytes_eq (reads : Reads bytes units) : bytes = units.flatMap Prod.snd := by
  induction reads with
  | nil => rfl
  | char c later ih => rw [List.flatMap_cons, ← ih]
  | broken broken none_ decoded later ih => rw [List.flatMap_cons, ← ih]

/-- A unit spells its character or is broken. -/
theorem cases_of_mem (reads : Reads bytes units) {unit : Char × List UInt8} (member : unit ∈ units) :
    unit.2 = String.utf8EncodeChar unit.1 ∨ unit.1 = replacement ∧ Broken unit.2 := by
  induction reads with
  | nil => cases member
  | char c later ih =>
    rcases List.mem_cons.mp member with rfl | member
    · exact .inl rfl
    · exact ih member
  | broken broken none_ decoded later ih =>
    rcases List.mem_cons.mp member with rfl | member
    · exact .inr ⟨rfl, broken⟩
    · exact ih member

theorem suffix (reads : Reads bytes units) {last : List (Char × List UInt8)} (within : last <:+ units) :
    Reads (last.flatMap Prod.snd) last := by
  induction reads with
  | nil =>
    rw [List.suffix_nil.mp within]
    exact .nil
  | char c later ih =>
    rcases List.suffix_cons_iff.mp within with rfl | within
    · rw [List.flatMap_cons, ← later.bytes_eq]
      exact .char c later
    · exact ih within
  | broken broken none_ decoded later ih =>
    rcases List.suffix_cons_iff.mp within with rfl | within
    · rw [List.flatMap_cons, ← later.bytes_eq]
      exact .broken broken none_ decoded later
    · exact ih within

/-- Inside a unit no character starts. -/
theorem inside (reads : Reads bytes units) {unit : Char × List UInt8} (member : unit ∈ units) {behind : List UInt8}
    (within : behind <:+ unit.2) (proper : behind ≠ unit.2) : ∀ byte ∈ behind.head?, Continuation byte := by
  have trailing : ∀ byte ∈ unit.2.tail, Continuation byte := by
    rcases reads.cases_of_mem member with spelled | ⟨_, broken⟩
    · rw [spelled]
      exact tail_char unit.1
    · exact broken.trailing
  intro byte head
  cases shape : unit.2 with
  | nil =>
    rw [shape] at within proper
    exact absurd (List.suffix_nil.mp within) proper
  | cons first tail =>
    rw [shape] at within proper trailing
    rcases List.suffix_cons_iff.mp within with whole | later
    · exact absurd whole proper
    · exact trailing byte (later.mem (List.mem_of_mem_head? head))

theorem decode_eq (reads : Reads bytes units) : decodeFrom none bytes = units.map Prod.fst := by
  induction reads with
  | nil => rfl
  | char c later ih => rw [decodeFrom_char, ih, List.map_cons]
  | broken broken none_ decoded later ih => rw [decoded, ih, List.map_cons]

end Reads

end Utf8

end Foundation
