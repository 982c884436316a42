import AiryFS.Transfer.Reading

/-! The bytes of an archive in order, and that they read back as its entries. -/

set_option autoImplicit false

namespace AiryFS

open Foundation

namespace Archive

/-- The type under which an entry is registered. -/
def typeOf : TreeNode → EntryType
  | .directory => .directory
  | .file _ => .file
  | .symlink _ => .symlink

/-- The header of an entry. -/
def headerOf (rel : Text) : TreeNode → EntryHeader
  | .directory => { t := .directory, p := rel, s := none, l := none }
  | .file content => { t := .file, p := rel, s := some content.length, l := none }
  | .symlink target => { t := .symlink, p := rel, s := none, l := some target }

/-- The bytes that follow the header. -/
def bodyOf : TreeNode → Bytes
  | .file content => content
  | _ => []

def frame (entry : Text × TreeNode) : Bytes :=
  uint32 (headerBytes (headerOf entry.1 entry.2)).length ++ headerBytes (headerOf entry.1 entry.2) ++ bodyOf entry.2

/-- The header fits its limit, and the body its own. -/
structure Fits (rel : Text) (node : TreeNode) : Prop where
  header : (headerBytes (headerOf rel node)).length ≤ MAX_HEADER_BYTES
  body : (bodyOf node).length ≤ MAX_FILE_SIZE

/-- A name that an archive can carry. -/
structure ValidName (name : Text) : Prop where
  safe : unsafeSegment name = false
  plain : '\x00' ∉ name
  whole : '/' ∉ name

variable {rel : Text} {node : TreeNode} {reader : ByteStreamReader} {more : Bytes}

/-! ## Numbers -/

@[simp] theorem length_uint32 (value : Nat) : (uint32 value).length = 4 := rfl

theorem getUint32_uint32 {value : Nat} (small : value < 2 ^ 32) : getUint32 (uint32 value) = value := by
  simp only [getUint32, uint32, List.foldl_cons, List.foldl_nil, UInt8.toNat_ofNat']
  omega

/-! ## Paths -/

theorem ValidName.separable {path : List Text} (valid : ∀ name ∈ path, ValidName name) : Separable '/' path := by
  intro name member
  refine ⟨?_, (valid name member).whole⟩
  rintro rfl
  have safe := (valid [] member).safe
  simp [unsafeSegment] at safe

theorem validateRelativePath_join {path : List Text} (valid : ∀ name ∈ path, ValidName name) :
    validateRelativePath (some (.string (['/'].intercalate path))) = .ok (['/'].intercalate path) := by
  have separable := ValidName.separable valid
  unfold validateRelativePath
  dsimp only
  split
  · rename_i root
    rw [root]
    rfl
  · rename_i below
    have filled : path ≠ [] := by
      rintro rfl
      exact below rfl
    have split : (['/'].intercalate path).splitOn '/' = path :=
      List.splitOn_intercalate '/' (fun name member => (separable name member).2) filled
    have relative : ¬(['/'].intercalate path).head? = some '/' := by
      cases path with
      | nil => exact absurd rfl filled
      | cons first rest =>
        obtain ⟨filled, whole⟩ := separable first List.mem_cons_self
        cases first with
        | nil => exact absurd rfl filled
        | cons letter letters =>
          intro slash
          apply whole
          cases rest with
          | nil =>
            rw [List.intercalate_singleton, List.head?_cons, Option.some.injEq] at slash
            rw [slash]
            exact List.mem_cons_self
          | cons second others =>
            rw [List.intercalate_cons_cons, List.cons_append, List.cons_append, List.head?_cons, Option.some.injEq] at slash
            rw [slash]
            exact List.mem_cons_self
    have plain : '\x00' ∉ ['/'].intercalate path := by
      intro inside
      have pieces : '\x00' ∈ absolute '/' path := List.mem_cons_of_mem _ inside
      rcases mem_absolute pieces with slash | ⟨name, member, letter⟩
      · cases slash
      · exact (valid name member).plain letter
    have safe : ¬∃ segment ∈ (['/'].intercalate path).splitOn '/', unsafeSegment segment = true := by
      rw [split]
      rintro ⟨name, member, unsafe_⟩
      rw [(valid name member).safe] at unsafe_
      cases unsafe_
    rw [refuse_of_not relative, refuse_of_not plain, refuse_of_not safe]
    rfl

/-! ## Headers -/

theorem members_ne_nil (header : EntryHeader) : header.members ≠ [] := by
  simp [EntryHeader.members]

theorem field_type (rel : Text) (node : TreeNode) : Json.field
    (.object ((headerOf rel node).members.map fun entry => (entry.1, entry.2.json))) ['t'] =
      some (.string (typeOf node).letter) := by
  cases node <;> simp [headerOf, EntryHeader.members, Json.field, Json.Scalar.json, typeOf]

theorem field_path (rel : Text) (node : TreeNode) : Json.field
    (.object ((headerOf rel node).members.map fun entry => (entry.1, entry.2.json))) ['p'] = some (.string rel) := by
  cases node <;> simp [headerOf, EntryHeader.members, Json.field, Json.Scalar.json]

/-- The JSON of a header reads back. -/
theorem parse_header (fits : Fits rel node) : Json.parse (Utf8.decode (headerBytes (headerOf rel node))) =
    some (.object ((headerOf rel node).members.map fun entry => (entry.1, entry.2.json))) := by
  unfold headerBytes
  rw [Utf8.decode_encode (by simp [Json.stringify])]
  apply Json.parse_stringify (members_ne_nil _)
  intro entry member number natural
  have bound := fits.body
  cases node with
  | directory => simp [headerOf, EntryHeader.members] at member; rcases member with rfl | rfl <;> cases natural
  | symlink target => simp [headerOf, EntryHeader.members] at member; rcases member with rfl | rfl | rfl <;> cases natural
  | file content =>
    simp [headerOf, EntryHeader.members] at member
    rcases member with rfl | rfl | rfl
    · cases natural
    · cases natural
    · cases natural
      simp only [bodyOf, MAX_FILE_SIZE] at bound
      omega

theorem find_letter (type : EntryType) :
    ([EntryType.directory, .file, .symlink].find? fun other => other.letter = type.letter) = some type := by
  cases type <;> decide

theorem parseHeader_frame (fits : Fits rel node) : parseHeader (headerBytes (headerOf rel node)) =
    .ok (typeOf node, .object ((headerOf rel node).members.map fun entry => (entry.1, entry.2.json))) := by
  unfold parseHeader
  rw [parse_header fits]
  simp only [required, bind, Except.bind]
  rw [field_type]
  simp only [find_letter]
  rfl

theorem headerBytes_pos (header : EntryHeader) : 0 < (headerBytes header).length := by
  unfold headerBytes Json.stringify
  rw [List.cons_append, Utf8.encode, List.flatMap_cons, List.length_append]
  have first : (String.utf8EncodeChar '{').length = 1 := by decide
  omega

theorem readHeader_frame (fits : Fits rel node) (spelled : reader.rest = frame (rel, node) ++ more) :
    ∃ reader', readHeader reader = .ok (some (typeOf node,
      .object ((headerOf rel node).members.map fun entry => (entry.1, entry.2.json))), reader') ∧
      reader'.rest = bodyOf node ++ more ∧ reader'.failure = reader.failure := by
  have limit := fits.header
  have positive := headerBytes_pos (headerOf rel node)
  unfold frame at spelled
  rw [List.append_assoc, List.append_assoc] at spelled
  obtain ⟨middle, lengthRead, rest, kept⟩ := ByteStreamReader.readExact_of_rest spelled
  obtain ⟨last, bytesRead, rest, lastKept⟩ := ByteStreamReader.readExact_of_rest rest
  rw [length_uint32] at lengthRead
  unfold MAX_HEADER_BYTES at limit
  refine ⟨last, ?_, rest, lastKept.trans kept⟩
  unfold readHeader
  simp only [bind, Except.bind, lengthRead]
  rw [getUint32_uint32 (by omega), if_neg (by omega), refuse_of_not (by unfold MAX_HEADER_BYTES; omega)]
  dsimp only
  rw [bytesRead]
  dsimp only
  rw [parseHeader_frame fits]
  rfl

theorem validateSize_natural {size : Nat} (small : size ≤ MAX_FILE_SIZE) :
    validateSize (some (Json.Scalar.natural size).json) = .ok size := by
  have bound : (size : Rat) ≤ MAX_FILE_SIZE := by exact_mod_cast small
  unfold validateSize Json.Scalar.json
  dsimp only
  rw [if_pos]
  · rfl
  · simp [Rat.isInt, bound]

theorem readNode_frame (fits : Fits rel node) (spelled : reader.rest = bodyOf node ++ more) :
    ∃ reader', readNode (typeOf node)
      (.object ((headerOf rel node).members.map fun entry => (entry.1, entry.2.json))) reader = .ok (node, reader') ∧
      reader'.rest = more ∧ reader'.failure = reader.failure := by
  cases node with
  | directory => exact ⟨reader, rfl, spelled, rfl⟩
  | symlink target =>
    refine ⟨reader, ?_, spelled, rfl⟩
    simp [readNode, typeOf, headerOf, EntryHeader.members, Json.field, Json.Scalar.json, pure, Except.pure]
  | file content =>
    obtain ⟨reader', read, rest, kept⟩ := ByteStreamReader.readExact_of_rest spelled
    refine ⟨reader', ?_, rest, kept⟩
    have sized : Json.field (.object ((headerOf rel (.file content)).members.map fun entry => (entry.1, entry.2.json))) ['s'] =
        some (Json.Scalar.natural content.length).json := by
      simp [headerOf, EntryHeader.members, Json.field]
    unfold readNode typeOf
    dsimp only
    have small : content.length ≤ MAX_FILE_SIZE := fits.body
    change reader.readExact content.length = .ok (content, reader') at read
    rw [sized, validateSize_natural small]
    simp only [bind, Except.bind, read]
    rfl

/-! ## Archives -/

/-- An entry whose path consists of names that an archive can carry, within the limits. -/
def Carried (entry : Text × TreeNode) : Prop :=
  (∃ path, (∀ name ∈ path, ValidName name) ∧ entry.1 = ['/'].intercalate path) ∧ Fits entry.1 entry.2

theorem readEntries_frames {entries : List (Text × TreeNode)} (carried : ∀ entry ∈ entries, Carried entry) {rounds : Nat}
    (enough : entries.length < rounds) (spelled : reader.rest = entries.flatMap frame ++ endMarker ++ more) :
    ∃ reader', readEntries rounds reader = .ok (entries, reader') ∧ reader'.rest = more ∧
      reader'.failure = reader.failure := by
  induction entries generalizing reader rounds with
  | nil =>
    cases rounds with
    | zero => simp at enough
    | succ rounds =>
      rw [List.flatMap_nil, List.nil_append] at spelled
      obtain ⟨last, read, rest, kept⟩ := ByteStreamReader.readExact_of_rest spelled
      have length : endMarker.length = 4 := rfl
      have ended : getUint32 endMarker = 0 := getUint32_uint32 (by decide)
      rw [length] at read
      refine ⟨last, ?_, rest, kept⟩
      unfold readEntries readHeader
      simp only [bind, Except.bind, read, if_pos ended]
      rfl
  | cons entry entries ih =>
    obtain ⟨rel, node⟩ := entry
    cases rounds with
    | zero => simp at enough
    | succ rounds =>
      obtain ⟨⟨path, valid, joined⟩, fits⟩ := carried (rel, node) List.mem_cons_self
      dsimp only at joined fits
      rw [List.flatMap_cons, List.append_assoc, List.append_assoc] at spelled
      obtain ⟨middle, headerRead, rest, kept⟩ := readHeader_frame fits spelled
      obtain ⟨after, nodeRead, rest, afterKept⟩ := readNode_frame fits rest
      rw [← List.append_assoc] at rest
      obtain ⟨last, entriesRead, rest, lastKept⟩ := ih (fun other member => carried other (List.mem_cons_of_mem _ member))
        (by simpa using enough) rest
      refine ⟨last, ?_, rest, lastKept.trans (afterKept.trans kept)⟩
      unfold readEntries
      simp only [bind, Except.bind, headerRead]
      rw [field_path, joined, validateRelativePath_join valid, ← joined]
      dsimp only
      rw [nodeRead]
      dsimp only
      rw [entriesRead]
      rfl

theorem length_le_frames (entries : List (Text × TreeNode)) : entries.length ≤ (entries.flatMap frame).length := by
  induction entries with
  | nil => exact Nat.zero_le _
  | cons entry entries ih =>
    rw [List.flatMap_cons, List.length_append, List.length_cons, frame, List.length_append, List.length_append, length_uint32]
    omega

/-- The bytes of an archive in order are read as its entries. -/
theorem contents_frames {entries : List (Text × TreeNode)} (carried : ∀ entry ∈ entries, Carried entry) :
    contents (MAGIC ++ entries.flatMap frame ++ endMarker) = .ok entries := by
  have few := length_le_frames entries
  obtain ⟨reader, magicRead, rest, kept⟩ := @ByteStreamReader.readExact_of_rest
    { buffer := MAGIC ++ entries.flatMap frame ++ endMarker, chunks := [], failure := none } MAGIC
    (entries.flatMap frame ++ endMarker) (by unfold ByteStreamReader.rest; simp)
  rw [← List.append_nil (entries.flatMap frame ++ endMarker)] at rest
  obtain ⟨last, entriesRead, rest, lastKept⟩ := readEntries_frames carried
    (by rw [List.length_append, List.length_append]; omega : _ < (MAGIC ++ entries.flatMap frame ++ endMarker).length + 1) rest
  have ended : last.atEnd = .ok true := by
    rw [ByteStreamReader.atEnd_eq, if_pos rest, lastKept, kept]
  unfold contents
  simp only [bind, Except.bind, magicRead]
  rw [refuse_of_not (by simp), entriesRead]
  dsimp only
  rw [ended]
  rfl

end Archive

end AiryFS
