import AiryFS.Foundation.Occurrences
import AiryFS.Foundation.Utf8Units

/-! Words in texts and their bytes in the bytes of texts.

The spelling of a word occurs in bytes where the decoder reads the word, so a replacement in the text is one
in the bytes. That is so of what is UTF-8: where the decoder puts replacement characters, they stay.
-/

set_option autoImplicit false

namespace Foundation

namespace Utf8

/-- A character with its bytes. -/
def unit (c : Char) : Char × List UInt8 := (c, String.utf8EncodeChar c)

theorem flatMap_unit (word : List Char) : (word.map unit).flatMap Prod.snd = encode word := by
  rw [List.flatMap_map]
  rfl

theorem encode_ne_nil {word : List Char} (some_ : word ≠ []) : encode word ≠ [] := by
  obtain ⟨first, tail, rfl⟩ := List.exists_cons_of_ne_nil some_
  rw [encode, List.flatMap_cons]
  exact List.append_ne_nil_of_left_ne_nil (char_ne_nil first) _

theorem head_encode (word : List Char) : ∀ byte ∈ (encode word).head?, ¬Continuation byte := by
  cases word with
  | nil => simp [encode]
  | cons first tail =>
    rw [encode, List.flatMap_cons, List.head?_append_of_ne_nil _ (char_ne_nil first)]
    exact head_char first

namespace Reads

variable {bytes : List UInt8} {units : List (Char × List UInt8)} {word : List Char}

/-- Bytes start with a word where its characters are the first that are read. -/
theorem starts_iff (reads : Reads bytes units) (word : List Char) : encode word <+: bytes ↔ word.map unit <+: units := by
  induction word generalizing bytes units with
  | nil => simp [encode]
  | cons c word ih =>
    rw [encode, List.flatMap_cons, ← encode, List.map_cons]
    cases reads with
    | nil => simp
    | char d later =>
      rw [List.cons_prefix_cons, ← ih later]
      constructor
      · rintro ⟨behind, whole⟩
        rw [List.append_assoc] at whole
        obtain ⟨rfl, same⟩ := char_inj whole
        exact ⟨rfl, behind, same⟩
      · rintro ⟨same, behind, whole⟩
        obtain rfl : c = d := congrArg Prod.fst same
        exact ⟨behind, by rw [← whole, List.append_assoc]⟩
    | broken broken none_ decoded later =>
      rw [List.cons_prefix_cons]
      constructor
      · intro present
        exact absurd ((List.prefix_append _ _).trans present) (none_ c)
      · rintro ⟨same, _⟩
        exact absurd (congrArg Prod.snd same).symm (broken.unlike c)

theorem alike (reads : Reads bytes units) (some_ : word ≠ []) : SpelledAlike Prod.snd (word.map unit) units where
  starts last within := by
    rw [flatMap_unit]
    exact (reads.suffix within).starts_iff word
  inside first rest within behind inner filled proper := by
    rw [flatMap_unit]
    intro present
    have member : first ∈ units := within.mem List.mem_cons_self
    obtain ⟨byte, tail, shape⟩ := List.exists_cons_of_ne_nil filled
    have trailing := reads.inside member inner proper byte (by rw [shape]; rfl)
    refine head_encode word byte ?_ trailing
    obtain ⟨letter, letters, spelled⟩ := List.exists_cons_of_ne_nil (encode_ne_nil some_)
    rw [spelled, shape, List.cons_append, List.cons_prefix_cons] at present
    rw [spelled, present.1]
    rfl

theorem tokens_eq (reads : Reads bytes units) (some_ : word ≠ []) :
    tokens (encode word) bytes = spelledTokens Prod.snd (tokens (word.map unit) units) := by
  have found := tokens_flatMap (by simpa using some_) (by rw [flatMap_unit]; exact encode_ne_nil some_) (reads.alike some_)
  rw [flatMap_unit, ← reads.bytes_eq] at found
  exact found

/-- The word is read where its bytes are, unless it may be one of what was not UTF-8. -/
theorem tokens_text (reads : Reads bytes units) (some_ : word ≠ [])
    (clear : replacement ∉ word ∨ ∀ piece ∈ units, piece = unit piece.1) :
    tokens word (units.map Prod.fst) = (tokens (word.map unit) units).map (Option.map Prod.fst) := by
  refine tokens_map (by simpa using some_) (by simp) ?_
  intro last within
  have whole : ∀ (part : List Char) (tail : List (Char × List UInt8)), (∀ c ∈ part, c ∈ word) → (∀ piece ∈ tail, piece ∈ units) →
      (part <+: tail.map Prod.fst ↔ part.map unit <+: tail) := by
    intro part
    induction part with
    | nil => simp
    | cons c part ih =>
      intro tail letters members
      cases tail with
      | nil => simp
      | cons piece tail =>
        rw [List.map_cons, List.map_cons, List.cons_prefix_cons, List.cons_prefix_cons,
          ih tail (fun c member => letters c (List.mem_cons_of_mem _ member))
            (fun piece member => members piece (List.mem_cons_of_mem _ member))]
        refine and_congr_left fun _ => ⟨fun same => ?_, fun same => by rw [← same]; rfl⟩
        rcases clear with absent | plain
        · rcases reads.cases_of_mem (members piece List.mem_cons_self) with spelled | ⟨read, _⟩
          · rw [same, unit, ← spelled]
          · rw [same, read] at letters
            exact absurd (letters _ List.mem_cons_self) absent
        · rw [same]
          exact (plain piece (members piece List.mem_cons_self)).symm
  exact whole word last (fun _ member => member) fun piece member => within.mem member

end Reads

/-! ## Replacing -/

section Replacing

variable {word other : List Char} {bytes : List UInt8}

/-- The bytes of texts. -/
def Valid (bytes : List UInt8) : Prop := encode (decodeFrom none bytes) = bytes

instance (bytes : List UInt8) : Decidable (Valid bytes) := inferInstanceAs (Decidable (_ = _))

theorem valid_encode (text : List Char) : Valid (encode text) := by rw [Valid, decodeFrom_encode]

theorem encode_inj {first second : List Char} (same : encode first = encode second) : first = second := by
  rw [← decodeFrom_encode first, same, decodeFrom_encode]

theorem encode_flatMap (units : List (Char × List UInt8)) :
    encode (units.map Prod.fst) = units.flatMap fun piece => String.utf8EncodeChar piece.1 := by
  rw [encode, List.flatMap_map]

/-- Where all pieces are as long as those of another list, equal lists have equal pieces. -/
theorem flatMap_inj {α β : Type} {first second : α → List β} {list : List α}
    (sized : ∀ element ∈ list, (first element).length = (second element).length)
    (same : list.flatMap first = list.flatMap second) : ∀ element ∈ list, first element = second element := by
  induction list with
  | nil => simp
  | cons element list ih =>
    rw [List.flatMap_cons, List.flatMap_cons] at same
    obtain ⟨here, later⟩ := List.append_inj same (sized element List.mem_cons_self)
    exact List.forall_mem_cons.mpr ⟨here, ih (fun element member => sized element (List.mem_cons_of_mem _ member)) later⟩

/-- No piece is longer, so equal lengths are equal piece by piece. -/
theorem flatMap_sized {α β : Type} {first second : α → List β} {list : List α}
    (short : ∀ element ∈ list, (first element).length ≤ (second element).length)
    (sized : (list.flatMap first).length = (list.flatMap second).length) :
    ∀ element ∈ list, (first element).length = (second element).length := by
  have sum : ∀ rest : List α, (∀ element ∈ rest, (first element).length ≤ (second element).length) →
      (rest.flatMap first).length ≤ (rest.flatMap second).length := by
    intro rest bounds
    induction rest with
    | nil => simp
    | cons element rest ih =>
      have here := bounds element List.mem_cons_self
      have later := ih fun element member => bounds element (List.mem_cons_of_mem _ member)
      rw [List.flatMap_cons, List.flatMap_cons, List.length_append, List.length_append]
      omega
  induction list with
  | nil => simp
  | cons element list ih =>
    have here := short element List.mem_cons_self
    have later := sum list fun element member => short element (List.mem_cons_of_mem _ member)
    rw [List.flatMap_cons, List.flatMap_cons, List.length_append, List.length_append] at sized
    exact List.forall_mem_cons.mpr ⟨by omega,
      ih (fun element member => short element (List.mem_cons_of_mem _ member)) (by omega)⟩

namespace Reads

variable {units : List (Char × List UInt8)}

theorem short (reads : Reads bytes units) : ∀ piece ∈ units, piece.2.length ≤ (String.utf8EncodeChar piece.1).length := by
  intro piece member
  rcases reads.cases_of_mem member with spelled | ⟨read, broken⟩
  · rw [spelled]
  · rw [read]
    exact broken.short

theorem valid_iff (reads : Reads bytes units) : Valid bytes ↔ ∀ piece ∈ units, piece = unit piece.1 := by
  rw [Valid, reads.decode_eq, encode_flatMap]
  constructor
  · intro same piece member
    have equal := same.trans reads.bytes_eq
    have sized := flatMap_sized reads.short (congrArg List.length equal.symm)
    rw [unit, ← flatMap_inj sized equal.symm piece member]
  · intro plain
    rw [reads.bytes_eq]
    refine List.flatMap_congr fun piece member => ?_
    rw [plain piece member, unit]

/-- What is put for the word, and what is kept, unit by unit. -/
theorem replaceAll_eq (reads : Reads bytes units) (some_ : word ≠ []) :
    replaceAll (encode word) (encode other) bytes = (filled (other.map unit) (tokens (word.map unit) units)).flatMap Prod.snd := by
  rw [replaceAll, reads.tokens_eq some_, ← flatMap_unit other, filled_spelledTokens]

theorem occurrences_eq (reads : Reads bytes units) (some_ : word ≠ []) :
    occurrences (encode word) bytes = (tokens (word.map unit) units).countP Option.isNone := by
  rw [occurrences, reads.tokens_eq some_, count_spelledTokens]

end Reads

/-- A word is read as often as its bytes occur, unless it may be one of what was not UTF-8. -/
theorem occurrences_decode (some_ : word ≠ []) (clear : replacement ∉ word ∨ Valid bytes) :
    occurrences word (decodeFrom none bytes) = occurrences (encode word) bytes := by
  obtain ⟨units, reads⟩ := exists_reads bytes
  rw [reads.valid_iff] at clear
  rw [reads.occurrences_eq some_, occurrences, reads.decode_eq, reads.tokens_text some_ clear, List.countP_map]
  congr 1
  funext token
  cases token <;> rfl

theorem replaceAll_encode (some_ : word ≠ []) (text : List Char) :
    encode (replaceAll word other text) = replaceAll (encode word) (encode other) (encode text) := by
  obtain ⟨units, reads⟩ := exists_reads (encode text)
  have plain := reads.valid_iff.mp (valid_encode text)
  have read := reads.decode_eq
  rw [decodeFrom_encode] at read
  rw [reads.replaceAll_eq some_, replaceAll, read, reads.tokens_text some_ (.inr plain)]
  have spelled : (other.map unit).map Prod.fst = other := by
    rw [List.map_map]
    exact List.map_id _
  conv => lhs; rw [← spelled]
  rw [filled_map, encode_flatMap]
  refine List.flatMap_congr fun piece member => ?_
  rcases mem_filled member with put | kept
  · obtain ⟨c, _, rfl⟩ := List.mem_map.mp put
    rfl
  · have inside : piece ∈ units := by
      rw [← filled_tokens (List.map_eq_nil_iff.not.mpr some_) units]
      exact filled_of_mem kept
    rw [plain piece inside, unit]

/-- Units of three bytes are read as they are wherever they stand. -/
theorem decode_units {units : List (Char × List UInt8)}
    (framed : ∀ piece ∈ units, piece.2 = String.utf8EncodeChar piece.1 ∨
      piece.1 = replacement ∧ Broken piece.2 ∧ piece.2.length = 3) :
    decodeFrom none (units.flatMap Prod.snd) = units.map Prod.fst := by
  induction units with
  | nil => rfl
  | cons piece units ih =>
    obtain ⟨here, later⟩ := List.forall_mem_cons.mp framed
    rw [List.flatMap_cons, List.map_cons, ← ih later]
    rcases here with spelled | ⟨read, broken, _⟩
    · rw [spelled, decodeFrom_char]
    · rw [read]
      refine broken.alone _ fun byte head => ?_
      cases units with
      | nil => cases head
      | cons following units =>
        rcases later following List.mem_cons_self with spelled | ⟨_, started, whole⟩
        · rw [List.flatMap_cons, spelled, List.head?_append_of_ne_nil _ (char_ne_nil _)] at head
          exact head_char following.1 byte head
        · rw [List.flatMap_cons, List.head?_append_of_ne_nil _ started.filled] at head
          exact started.led (by omega) byte head

/-- A replacement in the text gives the bytes of one in the bytes only where these are UTF-8. -/
theorem valid_of_replaceAll (some_ : word ≠ [])
    (agree : occurrences word (decodeFrom none bytes) = occurrences (encode word) bytes)
    (same : encode (replaceAll word other (decodeFrom none bytes)) = replaceAll (encode word) (encode other) bytes) :
    Valid bytes := by
  obtain ⟨units, reads⟩ := exists_reads bytes
  have wordSome := encode_ne_nil some_
  -- The replacement characters make the text no longer than the bytes.
  have lengths : (units.flatMap Prod.snd).length = (units.flatMap fun piece => String.utf8EncodeChar piece.1).length := by
    have inBytes := length_replaceAll wordSome (encode other) bytes
    have inText := length_replaceAll wordSome (encode other) (encode (decodeFrom none bytes))
    rw [← occurrences_decode some_ (.inr (valid_encode _)), decodeFrom_encode, agree, ← replaceAll_encode some_, same] at inText
    rw [← reads.bytes_eq, ← encode_flatMap, ← reads.decode_eq]
    omega
  have sized := flatMap_sized reads.short lengths
  have wordUnits : word.map unit ≠ [] := List.map_eq_nil_iff.not.mpr some_
  have kept : ∀ piece, some piece ∈ tokens (word.map unit) units → piece ∈ units := by
    intro piece member
    rw [← filled_tokens wordUnits units]
    exact filled_of_mem member
  have framed : ∀ piece ∈ filled (other.map unit) (tokens (word.map unit) units), piece.2 = String.utf8EncodeChar piece.1 ∨
      piece.1 = replacement ∧ Broken piece.2 ∧ piece.2.length = 3 := by
    intro piece member
    rcases mem_filled member with put | member
    · obtain ⟨c, _, rfl⟩ := List.mem_map.mp put
      exact .inl rfl
    · rcases reads.cases_of_mem (kept piece member) with spelled | ⟨read, broken⟩
      · exact .inl spelled
      · exact .inr ⟨read, broken, by rw [sized piece (kept piece member), read]; rfl⟩
  have valid : Valid (replaceAll (encode word) (encode other) bytes) := same ▸ valid_encode _
  rw [reads.replaceAll_eq some_, Valid, decode_units framed, encode_flatMap] at valid
  have spelled := flatMap_inj (fun piece member => by
    rcases framed piece member with spelled | ⟨read, _, whole⟩
    · rw [spelled]
    · rw [whole, read]
      rfl) valid
  rw [reads.valid_iff]
  intro piece member
  rw [← filled_tokens wordUnits units] at member
  rcases mem_filled member with found | member
  · obtain ⟨c, _, rfl⟩ := List.mem_map.mp found
    rfl
  · rw [unit, spelled piece (filled_of_mem member)]

end Replacing

end Utf8

end Foundation
