import AiryFS.Transfer.ArchiveFormat
import AiryFS.Direct.Listing

/-! What a reader gives depends on the bytes of the stream, not on how they are cut.

The entries of an archive are what its bytes say when they are held in one buffer.
-/

set_option autoImplicit false

namespace AiryFS

open Foundation

namespace Archive

/-! ## The entries of an archive -/

/-- What one header describes, with the body that follows it. -/
def readNode (type : EntryType) (header : Json) (reader : ByteStreamReader) :
    Except Failure (TreeNode × ByteStreamReader) :=
  match type with
  | .directory => return (.directory, reader)
  | .symlink =>
    match header.field ['l'] with
    | some (.string target) => return (.symlink target, reader)
    | _ => throw (archiveError "Symlink entry missing target")
  | .file => do
    let size ← validateSize (header.field ['s'])
    let (body, reader) ← reader.readExact size
    return (.file body, reader)

def readEntries : Nat → ByteStreamReader → Except Failure (List (Text × TreeNode) × ByteStreamReader)
  | 0, reader => return ([], reader)
  | rounds + 1, reader => do
    let (header, reader) ← readHeader reader
    match header with
    | none => return ([], reader)
    | some (type, header) =>
      let rel ← validateRelativePath (header.field ['p'])
      let (node, reader) ← readNode type header reader
      let (entries, reader) ← readEntries rounds reader
      return ((rel, node) :: entries, reader)

/-- The paths and nodes that an archive holds, in its order. -/
def contents (bytes : Bytes) : Except Failure (List (Text × TreeNode)) := do
  let reader : ByteStreamReader := { buffer := bytes, chunks := [], failure := none }
  let (magic, reader) ← reader.readExact MAGIC.length
  refuse (magic ≠ MAGIC) (archiveError "Not a AiryFS archive (bad magic or version)")
  let (entries, reader) ← readEntries (bytes.length + 1) reader
  let ended ← reader.atEnd
  refuse (ended = false) (archiveError "Trailing bytes after archive end marker")
  return entries

/-! ## Chunks -/

theorem fillTo_ok {count : Nat} {failure : Option Failure} {buffer buffer' : Bytes} {chunks chunks' : List Bytes}
    (filled : fillTo count failure buffer chunks = .ok (buffer', chunks')) :
    count ≤ buffer'.length ∧ buffer' ++ chunks'.flatten = buffer ++ chunks.flatten := by
  induction chunks generalizing buffer with
  | nil =>
    unfold fillTo at filled
    split at filled
    · rename_i enough
      rw [pure_eq_ok, Prod.mk.injEq] at filled
      rw [← filled.1, ← filled.2]
      exact ⟨enough, rfl⟩
    · cases filled
  | cons chunk chunks ih =>
    unfold fillTo at filled
    split at filled
    · rename_i enough
      rw [pure_eq_ok, Prod.mk.injEq] at filled
      rw [← filled.1, ← filled.2]
      exact ⟨enough, rfl⟩
    · obtain ⟨enough, same⟩ := ih filled
      refine ⟨enough, same.trans ?_⟩
      rw [List.flatten_cons, List.append_assoc]

theorem fillTo_of_length {count : Nat} {failure : Option Failure} {buffer : Bytes} {chunks : List Bytes}
    (enough : count ≤ (buffer ++ chunks.flatten).length) :
    ∃ buffer' chunks', fillTo count failure buffer chunks = .ok (buffer', chunks') := by
  induction chunks generalizing buffer with
  | nil =>
    rw [List.flatten_nil, List.append_nil] at enough
    unfold fillTo
    rw [if_pos enough]
    exact ⟨_, _, rfl⟩
  | cons chunk chunks ih =>
    unfold fillTo
    split
    · exact ⟨_, _, rfl⟩
    · apply ih
      rw [List.append_assoc, ← List.flatten_cons]
      exact enough

namespace ByteStreamReader

/-- The bytes that are still to be read. -/
def rest (reader : ByteStreamReader) : Bytes := reader.buffer ++ reader.chunks.flatten

variable {reader reader' : ByteStreamReader} {count : Nat} {bytes more : Bytes}

theorem readExact_ok (read : reader.readExact count = .ok (bytes, reader')) :
    bytes.length = count ∧ reader.rest = bytes ++ reader'.rest ∧ reader'.failure = reader.failure := by
  obtain ⟨⟨buffer, chunks⟩, filled, read⟩ := bind_eq_ok.mp read
  rw [pure_eq_ok, Prod.mk.injEq] at read
  obtain ⟨enough, same⟩ := fillTo_ok filled
  rw [← read.1, ← read.2]
  refine ⟨by rw [List.length_take]; omega, ?_, rfl⟩
  unfold rest
  rw [← same, ← List.append_assoc, List.take_append_drop]

/-- However the bytes are cut, so many are read. -/
theorem readExact_of_rest (spelled : reader.rest = bytes ++ more) :
    ∃ reader', reader.readExact bytes.length = .ok (bytes, reader') ∧ reader'.rest = more ∧
      reader'.failure = reader.failure := by
  have enough : bytes.length ≤ (reader.buffer ++ reader.chunks.flatten).length := by
    change _ ≤ reader.rest.length
    rw [spelled, List.length_append]
    omega
  obtain ⟨buffer, chunks, filled⟩ := @fillTo_of_length _ reader.failure _ _ enough
  have ran : reader.readExact bytes.length =
      .ok (buffer.take bytes.length, { reader with buffer := buffer.drop bytes.length, chunks }) := by
    unfold readExact
    rw [filled]
    rfl
  obtain ⟨length, same, _⟩ := readExact_ok ran
  rw [spelled] at same
  obtain ⟨front, back⟩ := List.append_inj same length.symm
  exact ⟨_, by rw [ran, ← front], back.symm, rfl⟩

theorem readSome_ok (positive : 0 < count) (read : reader.readSome count = .ok (bytes, reader')) :
    bytes ≠ [] ∧ bytes.length ≤ count ∧ reader.rest = bytes ++ reader'.rest ∧ reader'.failure = reader.failure := by
  obtain ⟨⟨buffer, chunks⟩, filled, read⟩ := bind_eq_ok.mp read
  rw [pure_eq_ok, Prod.mk.injEq] at read
  obtain ⟨enough, same⟩ := fillTo_ok filled
  rw [← read.1, ← read.2]
  refine ⟨?_, by rw [List.length_take]; omega, ?_, rfl⟩
  · rw [← List.length_pos_iff, List.length_take]
    omega
  · unfold rest
    rw [← same, ← List.append_assoc, List.take_append_drop]

theorem readSome_of_rest (some : reader.rest ≠ []) (count : Nat) :
    ∃ bytes reader', reader.readSome count = .ok (bytes, reader') := by
  obtain ⟨buffer, chunks, filled⟩ := @fillTo_of_length 1 reader.failure _ _ (List.length_pos_iff.mpr some)
  unfold readSome
  rw [filled]
  exact ⟨_, _, rfl⟩

theorem atEnd_eq (reader : ByteStreamReader) : reader.atEnd =
    if reader.rest = [] then (match reader.failure with | none => .ok true | some failure => .error failure) else .ok false := by
  unfold atEnd rest
  simp only [List.length_eq_zero_iff]
  cases reader.failure <;> rfl

end ByteStreamReader

/-! ## Headers -/

variable {first second first' second' : ByteStreamReader}

/-- A reader that has the same bytes to read does as well. -/
theorem readExact_same {count : Nat} {bytes : Bytes} (same : first.rest = second.rest)
    (read : first.readExact count = .ok (bytes, first')) :
    ∃ second', second.readExact count = .ok (bytes, second') ∧ first'.rest = second'.rest ∧
      first'.failure = first.failure ∧ second'.failure = second.failure := by
  obtain ⟨length, spelled, kept⟩ := ByteStreamReader.readExact_ok read
  rw [same] at spelled
  obtain ⟨second', read', rest, kept'⟩ := ByteStreamReader.readExact_of_rest spelled
  rw [length] at read'
  exact ⟨second', read', rest.symm, kept, kept'⟩

theorem readHeader_same {header : Option (EntryType × Json)} (same : first.rest = second.rest)
    (read : readHeader first = .ok (header, first')) :
    ∃ second', readHeader second = .ok (header, second') ∧ first'.rest = second'.rest ∧
      first'.failure = first.failure ∧ second'.failure = second.failure := by
  obtain ⟨⟨lengthBytes, middle⟩, lengthRead, read⟩ := bind_eq_ok.mp read
  obtain ⟨middle', lengthRead', same, kept, kept'⟩ := readExact_same same lengthRead
  dsimp only at read
  unfold readHeader
  rw [lengthRead']
  simp only [bind, Except.bind]
  split at read
  · rename_i ended
    rw [pure_eq_ok, Prod.mk.injEq] at read
    rw [if_pos ended, ← read.1, ← read.2]
    exact ⟨middle', rfl, same, kept, kept'⟩
  · rename_i long
    obtain ⟨_, passed, read⟩ := bind_eq_ok.mp read
    obtain ⟨⟨bytes, last⟩, bytesRead, read⟩ := bind_eq_ok.mp read
    obtain ⟨parsed, known, read⟩ := bind_eq_ok.mp read
    obtain ⟨last', bytesRead', same, later, later'⟩ := readExact_same same bytesRead
    rw [pure_eq_ok, Prod.mk.injEq] at read
    rw [if_neg long, passed, bytesRead', ← read.1, ← read.2]
    dsimp only
    rw [known]
    exact ⟨last', rfl, same, later.trans kept, later'.trans kept'⟩

end Archive

end AiryFS
