import AiryFS.Storage.Values
import AiryFS.Foundation.Fallible
import AiryFS.Foundation.Json
import AiryFS.Foundation.Utf8

/-! The wire format of tree archives: entry headers, and a reader over chunks of bytes.

An entry is a length, a header in JSON of that many bytes, and for a file the body. A length
of zero ends the archive.
-/

set_option autoImplicit false

namespace AiryFS

open Foundation

namespace Archive

def MAGIC : Bytes := [65, 73, 82, 89, 70, 83, 1]

def MAX_HEADER_BYTES : Nat := 64 * 1024

def MAX_FILE_SIZE : Nat := 2 ^ 50

def READ_CHUNK_SIZE : Nat := 256 * 1024

def archiveError (message : String) : Failure := .coded "ArchiveError" message

inductive EntryType where
  | directory | file | symlink
  deriving DecidableEq, Repr

/-- The letter that stands for the type in a header. -/
def EntryType.letter : EntryType → Text
  | directory => ['d']
  | file => ['f']
  | symlink => ['l']

/-! ## Paths -/

def unsafeSegment (segment : Text) : Bool := segment = [] || segment = ['.'] || segment = ['.', '.']

def validateRelativePath (path : Option Json) : Except Failure Text :=
  match path with
  | some (.string path) =>
    if path = [] then return []
    else do
      let shown := String.ofList path
      refuse (path.head? = some '/') (archiveError s!"Absolute path not allowed: {shown}")
      refuse ('\x00' ∈ path) (archiveError "Path contains a null byte")
      refuse (∃ segment ∈ path.splitOn '/', unsafeSegment segment = true)
        (archiveError s!"Unsafe path segment in: {shown}")
      return path
  | _ => throw (archiveError "Entry path must be a string")

/-- The paths of an archive so far, with their types. -/
abbrev PathRegistry := List (Text × EntryType)

def PathRegistry.type? (registry : PathRegistry) (path : Text) : Option EntryType :=
  (registry.find? fun entry => entry.1 = path).map Prod.snd

/-- The paths above this one: `parts.slice(0, i).join('/')`. -/
def ancestorPaths (path : Text) : List Text :=
  let parts := path.splitOn '/'
  (List.range' 1 (parts.length - 1)).map fun count => ['/'].intercalate (parts.take count)

def PathRegistry.add (registry : PathRegistry) (path : Text) (type : EntryType) : Except Failure PathRegistry := do
  let shown := String.ofList path
  refuse (registry.type? path).isSome (archiveError s!"Duplicate path: {shown}")
  refuse (∃ ancestor ∈ ancestorPaths path, ∃ other ∈ registry.type? ancestor, other ≠ .directory)
    (archiveError s!"Path conflicts with a non-directory ancestor: {shown}")
  return (path, type) :: registry

/-! ## Headers -/

/-- The members of an `EntryHeader`, in the order the encoder names them. -/
structure EntryHeader where
  t : EntryType
  p : Text
  s : Option Nat
  l : Option Text
  deriving DecidableEq, Repr

def EntryHeader.members (header : EntryHeader) : List (Text × Json.Scalar) :=
  [(['t'], .string header.t.letter), (['p'], .string header.p)] ++
    (header.s.map fun size => (['s'], .natural size)).toList ++
    (header.l.map fun target => (['l'], .string target)).toList

/-- `setUint32`, big-endian. -/
def uint32 (value : Nat) : Bytes :=
  [UInt8.ofNat (value / 2 ^ 24), UInt8.ofNat (value / 2 ^ 16), UInt8.ofNat (value / 2 ^ 8), UInt8.ofNat value]

def getUint32 (bytes : Bytes) : Nat := bytes.foldl (fun value byte => value * 256 + byte.toNat) 0

def headerBytes (header : EntryHeader) : Bytes := Utf8.encode (Json.stringify header.members)

def encodeHeader (header : EntryHeader) : Except Failure Bytes := do
  let json := headerBytes header
  refuse (json.length > MAX_HEADER_BYTES) (archiveError "Entry header exceeds the maximum header length")
  return uint32 json.length ++ json

def endMarker : Bytes := uint32 0

/-! ## Reading -/

/-- `ByteStreamReader`, with the chunks that are still to come and how the stream ends. -/
structure ByteStreamReader where
  buffer : Bytes
  chunks : List Bytes
  failure : Option Failure

/-- What a read past the last chunk meets. -/
def exhausted (failure : Option Failure) : Failure :=
  failure.getD (archiveError "Truncated archive: unexpected end of stream")

/-- The loops that fill the buffer up to `count` bytes. -/
def fillTo (count : Nat) (failure : Option Failure) (buffer : Bytes) :
    List Bytes → Except Failure (Bytes × List Bytes)
  | [] => if count ≤ buffer.length then return (buffer, []) else throw (exhausted failure)
  | chunk :: chunks =>
    if count ≤ buffer.length then return (buffer, chunk :: chunks)
    else fillTo count failure (buffer ++ chunk) chunks

namespace ByteStreamReader

variable (reader : ByteStreamReader)

def readExact (count : Nat) : Except Failure (Bytes × ByteStreamReader) := do
  let (buffer, chunks) ← fillTo count reader.failure reader.buffer reader.chunks
  return (buffer.take count, { reader with buffer := buffer.drop count, chunks })

def readSome (max : Nat) : Except Failure (Bytes × ByteStreamReader) := do
  let (buffer, chunks) ← fillTo 1 reader.failure reader.buffer reader.chunks
  return (buffer.take max, { reader with buffer := buffer.drop max, chunks })

/-- Whether nothing follows: a stream that fails here fails the call. -/
def atEnd : Except Failure Bool :=
  if (reader.buffer ++ reader.chunks.flatten).length = 0 then
    match reader.failure with
    | none => return true
    | some failure => throw failure
  else return false

end ByteStreamReader

/-- The part of `readHeader` after the header's bytes have been read. -/
def parseHeader (bytes : Bytes) : Except Failure (EntryType × Json) := do
  let parsed ← required (Json.parse (Utf8.decode bytes)) (archiveError "Malformed entry header JSON")
  match parsed with
  | .object _ | .array _ =>
    match parsed.field ['t'] with
    | some (.string letter) =>
      let type ← required ([EntryType.directory, .file, .symlink].find? fun type => type.letter = letter)
        (archiveError "Unknown entry type")
      return (type, parsed)
    | _ => throw (archiveError "Unknown entry type")
  | _ => throw (archiveError "Malformed entry header")

/-- A header of a known type, or none at the end marker. -/
def readHeader (reader : ByteStreamReader) : Except Failure (Option (EntryType × Json) × ByteStreamReader) := do
  let (lengthBytes, reader) ← reader.readExact 4
  let length := getUint32 lengthBytes
  if length = 0 then return (none, reader)
  else
    refuse (length > MAX_HEADER_BYTES) (archiveError "Entry header exceeds the maximum header length")
    let (bytes, reader) ← reader.readExact length
    let header ← parseHeader bytes
    return (some header, reader)

/-- A double that is a natural number up to the largest size. -/
def validateSize (value : Option Json) : Except Failure Nat :=
  match value with
  | some (.number (some size)) =>
    if size.isInt && 0 ≤ size && size ≤ MAX_FILE_SIZE then return size.num.toNat
    else throw (archiveError "Unsafe or invalid file size")
  | _ => throw (archiveError "Unsafe or invalid file size")

end Archive

end AiryFS
