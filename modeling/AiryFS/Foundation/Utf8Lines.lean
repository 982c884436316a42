import AiryFS.Foundation.MeteredLines
import AiryFS.Foundation.Utf8Stream
import AiryFS.Foundation.Utf8Words

/-! Lines of bytes and lines of text: a decoder of a stream keeps them apart in the same places. -/

set_option autoImplicit false

namespace Foundation

namespace Utf8

open LineReader

variable {bytes line : List UInt8}

/-! ## Sizes -/

theorem decodeFrom_feed (pending : Option Pending) (bytes : List UInt8) :
    decodeFrom pending bytes = (feed pending bytes).1 ++ if (feed pending bytes).2.isSome then [replacement] else [] := by
  induction bytes generalizing pending with
  | nil => rfl
  | cons byte bytes ih => rw [decodeFrom, ih, feed, List.append_assoc]

theorem decodeFrom_append (pending : Option Pending) (first second : List UInt8) :
    decodeFrom pending (first ++ second) = (feed pending first).1 ++ decodeFrom (feed pending first).2 second := by
  rw [decodeFrom_feed, feed_append, decodeFrom_feed, List.append_assoc]

/-- No text is shorter than the bytes it was read from. -/
theorem length_le_decode (bytes : List UInt8) : bytes.length ≤ (encode (decodeFrom none bytes)).length := by
  obtain ⟨units, reads⟩ := exists_reads bytes
  have short := reads.short
  rw [reads.decode_eq, reads.bytes_eq, encode_flatMap]
  clear reads
  induction units with
  | nil => exact Nat.le_refl 0
  | cons unit units ih =>
    have later := ih fun piece member => short piece (List.mem_cons_of_mem _ member)
    have here := short unit List.mem_cons_self
    rw [List.flatMap_cons, List.flatMap_cons, List.length_append, List.length_append]
    omega

theorem lead_cases (byte : Nat) : (lead byte).1 = [] ∨ (lead byte).2 = none := by
  unfold lead
  split
  · exact .inr rfl
  · split
    · exact .inl rfl
    · split
      · exact .inl rfl
      · split
        · exact .inl rfl
        · exact .inr rfl

/-- A byte is held with those before it, or the first that is held, or none is. -/
theorem next_cases (pending : Option Pending) (byte : Nat) : (next pending byte).1 = [] ∨ (next pending byte).2 = none ∨
    next none byte = ([], (next pending byte).2) := by
  cases pending with
  | none => exact (lead_cases byte).imp_right .inl
  | some pending =>
    unfold next
    dsimp only
    split
    · split
      · exact .inr (.inl rfl)
      · exact .inl rfl
    · rcases lead_cases byte with held | none_
      · exact .inr (.inr (Prod.ext held rfl))
      · exact .inr (.inl none_)

/-- What a decoder holds is what it holds of some bytes that complete nothing. -/
theorem exists_held (bytes : List UInt8) : ∃ held, feed none held = ([], (feed none bytes).2) := by
  induction bytes using List.reverseRecOn with
  | nil => exact ⟨[], rfl⟩
  | append_singleton bytes byte ih =>
    obtain ⟨held, fed⟩ := ih
    have last : (feed none (bytes ++ [byte])).2 = (next (feed none bytes).2 byte.toNat).2 := by
      rw [feed_append]
      rfl
    rw [last]
    rcases next_cases (feed none bytes).2 byte.toNat with more | none_ | alone
    · refine ⟨held ++ [byte], ?_⟩
      rw [feed_append, fed]
      exact Prod.ext (by rw [feed, more]; rfl) rfl
    · exact ⟨[], by rw [none_]; rfl⟩
    · refine ⟨[byte], ?_⟩
      rw [feed, alone]
      rfl

/-- Bytes that are still to come count for no more than what they will be read as. -/
theorem length_le_of_split (first second : List UInt8) :
    (encode (feed none first).1).length + second.length ≤ (encode (decodeFrom none (first ++ second))).length := by
  obtain ⟨held, fed⟩ := exists_held first
  have whole := length_le_decode (held ++ second)
  rw [decodeFrom_append, fed, List.length_append] at whole
  dsimp only at whole
  rw [List.nil_append] at whole
  have parts : encode (decodeFrom none (first ++ second)) =
      encode (feed none first).1 ++ encode (decodeFrom (feed none first).2 second) := by
    rw [decodeFrom_append, encode, List.flatMap_append]
    rfl
  rw [parts, List.length_append]
  omega

/-! ## Line ends -/

def newline : UInt8 := 10

theorem feed_newline (pending : Option Pending) (proper : ∀ held ∈ pending, 10 < held.lower) :
    feed pending [newline] = ((if pending.isSome then [replacement] else []) ++ ['\n'], none) := by
  cases pending with
  | none => rfl
  | some held =>
    have outside : ¬(held.lower ≤ 10 ∧ 10 ≤ held.upper) := fun both => absurd (proper held rfl) (by omega)
    have next_ : next (some held) 10 = ([replacement, '\n'], none) := by
      unfold next
      dsimp only
      rw [if_neg outside]
      rfl
    rw [feed, show newline.toNat = 10 from rfl, next_]
    rfl

theorem lead_lower (byte : Nat) : ∀ held ∈ (lead byte).2, 10 < held.lower := by
  intro held member
  unfold lead at member
  split at member
  · cases member
  · split at member
    · rw [← Option.some.inj member]
      exact show 10 < 0x80 by decide
    · split at member
      · rw [← Option.some.inj member]
        dsimp only
        split <;> omega
      · split at member
        · rw [← Option.some.inj member]
          dsimp only
          split <;> omega
        · cases member

/-- A line end is never the byte that is awaited. -/
theorem feed_lower (bytes : List UInt8) : ∀ held ∈ (feed none bytes).2, 10 < held.lower := by
  induction bytes using List.reverseRecOn with
  | nil =>
    intro held member
    cases member
  | append_singleton bytes byte ih =>
    intro held member
    rw [feed_append] at member
    have member : held ∈ (next (feed none bytes).2 byte.toNat).2 := member
    cases state : (feed none bytes).2 with
    | none =>
      rw [state] at member
      exact lead_lower byte.toNat held member
    | some pending =>
      rw [state] at member
      unfold next at member
      dsimp only at member
      split at member
      · split at member
        · cases member
        · cases member
          show 10 < 0x80
          decide
      · exact lead_lower byte.toNat held member

/-- A text has line ends where its bytes have. -/
theorem newline_decodeFrom (unmarked : newline ∉ line) : '\n' ∉ decodeFrom none line := by
  obtain ⟨units, reads⟩ := exists_reads line
  rw [reads.decode_eq]
  intro member
  obtain ⟨unit, inside, same⟩ := List.mem_map.mp member
  rcases reads.cases_of_mem inside with spelled | ⟨broken, -⟩
  · apply unmarked
    rw [reads.bytes_eq]
    refine List.mem_flatMap.mpr ⟨unit, inside, ?_⟩
    rw [spelled, same]
    exact List.mem_singleton.mpr rfl
  · rw [same] at broken
    cases broken

/-! ## Lines -/

/-- A line by itself; a mark stands at the start of the first alone. -/
def lineText (begun : Bool) (line : List UInt8) : List Char := if begun then decodeFrom none line else dropMark (decodeFrom none line)

/-- The decoder at the start of a line. -/
def Decoder.start (begun : Bool) : Decoder := ⟨none, begun⟩

theorem dropMark_snoc (text : List Char) {c : Char} (other : c ≠ Char.ofNat 0xFEFF) : dropMark (text ++ [c]) = dropMark text ++ [c] := by
  cases text with
  | nil => exact if_neg other
  | cons first text => exact dropMark_append (List.cons_ne_nil _ _) [c]

variable (begun : Bool)

theorem decode_text (bytes : List UInt8) : ((Decoder.start begun).decode bytes).1 =
    if begun then (feed none bytes).1 else dropMark (feed none bytes).1 := rfl

/-- The last line, ended by the end of the stream. -/
theorem decode_finish (bytes : List UInt8) :
    ((Decoder.start begun).decode bytes).1 ++ ((Decoder.start begun).decode bytes).2.finish = lineText begun bytes := by
  have finish : ((Decoder.start begun).decode bytes).2.finish = if (feed none bytes).2.isSome then [replacement] else [] := rfl
  rw [finish, decode_text, lineText, decodeFrom_feed]
  cases begun with
  | true => rfl
  | false =>
    cases (feed none bytes).2 with
    | none => simp
    | some held => exact (dropMark_snoc _ (by decide)).symm

/-- A line, ended by a line end. -/
theorem decode_line (line : List UInt8) :
    (Decoder.start begun).decode (line ++ [newline]) = (lineText begun line ++ ['\n'], Decoder.start true) := by
  have fed : feed none (line ++ [newline]) = (decodeFrom none line ++ ['\n'], none) := by
    rw [feed_append, feed_newline _ (feed_lower line), decodeFrom_feed, List.append_assoc]
  unfold Decoder.decode Decoder.start
  dsimp only
  rw [fed, lineText]
  cases begun with
  | true => rfl
  | false =>
    dsimp only
    rw [if_neg Bool.false_ne_true, if_neg Bool.false_ne_true, dropMark_snoc _ (by decide)]
    simp

theorem mem_of_dropMark {text : List Char} {c : Char} (member : c ∈ dropMark text) : c ∈ text := by
  cases text with
  | nil => cases member
  | cons first rest =>
    unfold dropMark at member
    dsimp only at member
    split at member
    · exact List.mem_cons_of_mem _ member
    · exact member

theorem newline_lineText (unmarked : newline ∉ line) : '\n' ∉ lineText begun line := by
  have clean := newline_decodeFrom unmarked
  rw [lineText]
  split
  · exact clean
  · exact fun member => clean (mem_of_dropMark member)

theorem newline_decode (unmarked : newline ∉ line) : '\n' ∉ ((Decoder.start begun).decode line).1 := by
  have whole := newline_lineText begun unmarked
  rw [← decode_finish, List.mem_append, not_or] at whole
  exact whole.1

/-- **Lines of a stream.** -/
theorem decode_lines (bytes : List UInt8) :
    let lines := linesFrom newline [] bytes
    let last := (Decoder.start (begun || !lines.1.isEmpty)).decode lines.2
    linesFrom '\n' [] ((Decoder.start begun).decode bytes).1 = (texts lineText begun lines.1, last.1) ∧
      ((Decoder.start begun).decode bytes).2 = last.2 := by
  induction bytes using List.reverseRecOn with
  | nil =>
    cases begun with
    | true => exact ⟨rfl, rfl⟩
    | false => exact ⟨rfl, rfl⟩
  | append_singleton bytes byte ih =>
    dsimp only at ih ⊢
    obtain ⟨texts, decoder⟩ := ih
    have unmarked : newline ∉ (linesFrom newline [] bytes).2 := open_unmarked List.not_mem_nil bytes
    rw [linesFrom_append, Decoder.decode_append, linesFrom_append, texts, decoder]
    dsimp only
    by_cases ends : byte = newline
    · subst ends
      have line := decode_line (begun || !(linesFrom newline [] bytes).1.isEmpty) (linesFrom newline [] bytes).2
      rw [Decoder.decode_append] at line
      have text := congrArg Prod.fst line
      have next := congrArg Prod.snd line
      dsimp only at text next
      rw [linesFrom_mark, next, ← linesFrom_nil (newline_decode _ unmarked), text, linesFrom_line _ _ (newline_lineText _ unmarked),
        texts_append]
      have started : (begun || !((linesFrom newline [] bytes).1 ++ [(linesFrom newline [] bytes).2]).isEmpty) = true := by simp
      dsimp only [linesFrom]
      rw [started]
      exact ⟨rfl, rfl⟩
    · have other := linesFrom_other ends (linesFrom newline [] bytes).2 []
      have longer : newline ∉ (linesFrom newline [] bytes).2 ++ [byte] := by
        rw [List.mem_append, List.mem_singleton]
        exact not_or.mpr ⟨unmarked, Ne.symm ends⟩
      have clean := newline_decode (begun || !(linesFrom newline [] bytes).1.isEmpty) longer
      rw [Decoder.decode_append] at clean
      dsimp only at clean
      rw [List.mem_append, not_or] at clean
      rw [other, linesFrom_open _ clean.2]
      dsimp only [linesFrom]
      rw [List.append_nil, List.append_nil, Decoder.decode_append]
      exact ⟨rfl, rfl⟩

end Utf8

end Foundation
