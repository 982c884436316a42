import AiryFS.Transfer.ArchiveFormat
import AiryFS.Direct.Directories
import AiryFS.Foundation.Attempt
import Mathlib.Order.Lex
import Mathlib.Data.List.Lex

/-! Writing a directory tree as an archive, and extracting an archive into a directory.

The encoder reads a tree that nothing changes meanwhile. The decoder is a sequence of calls
on the filesystem, and a call that fails leaves what the calls before it did.
-/

set_option autoImplicit false

namespace AiryFS

open Foundation

/-! ## Calls on the filesystem -/

/-- A volume, the call that is to fail (after so many others, with that failure), and whether
a call has failed that nobody waits for. -/
structure Disk where
  volume : Volume
  fault : Option (Nat × Failure)
  abandoned : Bool

abbrev Transfer (α : Type) : Type := Attempt Failure Disk α

namespace Disk

variable {α : Type}

/-- One call: it fails on its own, or because it is the one to fail. -/
def call (operation : Volume → Except Failure (α × Volume)) : Transfer α := fun disk =>
  match disk.fault with
  | some (0, failure) => .error failure { disk with fault := none }
  | fault =>
    let later := fault.map fun due => (due.1 - 1, due.2)
    match operation disk.volume with
    | .ok (value, volume) => .ok value { disk with volume, fault := later }
    | .error failure => .error failure { disk with fault := later }

def mutate (operation : Volume → Except Failure Volume) : Transfer Unit :=
  call fun volume => (operation volume).map fun volume => ((), volume)

def inspect (operation : Volume → Except Failure α) : Transfer α :=
  call fun volume => (operation volume).map fun value => (value, volume)

end Disk

namespace Archive

/-! ## Encoding -/

section Encoding

variable (volume : Volume) (chunkSize : Nat)

def joinAbsolute (dir name : Text) : Text := if dir = ['/'] then '/' :: name else dir ++ '/' :: name

/-- The UTF-16 code units of a text, which JavaScript compares. -/
def utf16 (text : Text) : List Nat :=
  text.flatMap fun c =>
    if c.toNat > 0xFFFF then [0xD800 + (c.toNat - 0x10000) / 0x400, 0xDC00 + (c.toNat - 0x10000) % 0x400]
    else [c.toNat]

def Sorted (first second : Text × InodeRow) : Prop := utf16 first.1 ≤ utf16 second.1

instance : DecidableRel Sorted := fun first second => inferInstanceAs (Decidable (utf16 first.1 ≤ utf16 second.1))

/-- The loop of `fileBytes`, from the offset on. -/
def readFrom (file : AgentFSFile) (path : Text) (size : Nat) : Nat → Nat → Except Failure (List Bytes)
  | 0, _ => return []
  | rounds + 1, offset =>
    if offset < size then do
      let chunk := file.pread volume offset (min READ_CHUNK_SIZE (size - offset))
      let shown := String.ofList path
      refuse (chunk.length = 0) (archiveError s!"File shrank while it was being archived: {shown}")
      let rest ← readFrom file path size rounds (offset + chunk.length)
      return chunk :: rest
    else return []

def fileBytes (path : Text) (size : Nat) : Except Failure (List Bytes) :=
  if size = 0 then return []
  else do
    let file ← AgentFS.openFile volume chunkSize path
    readFrom volume file path size size 0

/-- The frames of one entry, with those below it when it is a directory. -/
def entryFrames (below : Text → Text → Except Failure (List Bytes)) (dirAbs above : Text) (entry : Text × InodeRow) :
    Except Failure (List Bytes) :=
  let rel := if above = [] then entry.1 else above ++ '/' :: entry.1
  let abs := joinAbsolute dirAbs entry.1
  if isDirectory entry.2.mode then do
    let header ← encodeHeader { t := .directory, p := rel, s := none, l := none }
    let frames ← below abs rel
    return header :: frames
  else if isSymlink entry.2.mode then do
    let target ← AgentFS.readlink volume abs
    let header ← encodeHeader { t := .symlink, p := rel, s := none, l := some target }
    return [header]
  else if isRegular entry.2.mode then do
    let header ← encodeHeader { t := .file, p := rel, s := some entry.2.size, l := none }
    let frames ← fileBytes volume chunkSize abs entry.2.size
    return header :: frames
  -- Devices and fifos are skipped.
  else return []

/-- The recursion goes no deeper than there are entries, unless they form a cycle. -/
def walk : Nat → Text → Text → Except Failure (List Bytes)
  | 0, _, _ => throw (.error "Maximum call stack size exceeded")
  | depth + 1, dirAbs, above => do
    let entries ← AgentFS.readdirPlus volume dirAbs
    let frames ← (entries.insertionSort Sorted).mapM (entryFrames volume chunkSize (walk depth) dirAbs above)
    return frames.flatten

def encodeTree (root : Text) : Except Failure (List Bytes) := do
  let stats ← AgentFS.stat volume root
  let shown := String.ofList root
  refuse (¬isDirectory stats.mode) (archiveError s!"Export target is not a directory: {shown}")
  let header ← encodeHeader { t := .directory, p := [], s := none, l := none }
  let frames ← walk volume chunkSize (volume.dentry.rows.length + 1) root []
  return MAGIC :: header :: frames ++ [endMarker]

end Encoding

/-! ## Extraction -/

/-- The chunks of an upload, and the failure it ends with unless it is complete. -/
structure Stream where
  chunks : List Bytes
  failure : Option Failure

structure TreeSummary where
  files : Nat
  directories : Nat
  symlinks : Nat
  bytes : Nat
  deriving DecidableEq, Repr

section Extraction

variable (chunkSize : Nat)

/-- The loop of `writeFileBody`. -/
def writeFrom (file : AgentFSFile) : Nat → ByteStreamReader → Nat → Nat → Transfer ByteStreamReader
  | 0, reader, _, _ => return reader
  | rounds + 1, reader, offset, remaining =>
    if remaining > 0 then do
      let (chunk, reader) ← Attempt.lift (reader.readSome remaining)
      Disk.mutate fun volume => file.pwrite volume offset chunk
      writeFrom file rounds reader (offset + chunk.length) (remaining - chunk.length)
    else return reader

def writeFileBody (path : Text) (reader : ByteStreamReader) (size : Nat) : Transfer ByteStreamReader := do
  Disk.mutate fun volume => AgentFS.writeFile volume chunkSize path []
  if size = 0 then return reader
  else
    let file ← Disk.inspect fun volume => AgentFS.openFile volume chunkSize path
    let reader ← writeFrom file size reader 0 size
    -- `fsync` does nothing.
    Disk.inspect fun _ => .ok ()
    return reader

/-- What one header asks for. -/
def extractEntry (abs rel : Text) (type : EntryType) (header : Json) (reader : ByteStreamReader) (summary : TreeSummary) :
    Transfer (ByteStreamReader × TreeSummary) :=
  match type with
  | .directory =>
    if rel = [] then return (reader, summary)
    else do
      Disk.mutate fun volume => AgentFS.mkdir volume abs
      return (reader, { summary with directories := summary.directories + 1 })
  | .symlink =>
    match header.field ['l'] with
    | some (.string target) => do
      Disk.mutate fun volume => AgentFS.symlink volume target abs
      return (reader, { summary with symlinks := summary.symlinks + 1 })
    | _ => Attempt.lift (.error (archiveError "Symlink entry missing target"))
  | .file => do
    let size ← Attempt.lift (validateSize (header.field ['s']))
    let reader ← writeFileBody chunkSize abs reader size
    return (reader, { summary with files := summary.files + 1, bytes := summary.bytes + size })

/-- The loop over the headers. Every round takes bytes from the stream. -/
def extractEntries (targetDir : Text) : Nat → ByteStreamReader → PathRegistry → Bool → TreeSummary →
    Transfer (ByteStreamReader × TreeSummary)
  | 0, reader, _, _, summary => return (reader, summary)
  | rounds + 1, reader, registry, firstEntry, summary => do
    let (header, reader) ← Attempt.lift (readHeader reader)
    match header with
    | none => return (reader, summary)
    | some (type, header) =>
      let rel ← Attempt.lift (validateRelativePath (header.field ['p']))
      Attempt.lift (refuse (firstEntry = true ∧ (rel ≠ [] ∨ type ≠ .directory))
        (archiveError "The first archive entry must be the root directory"))
      let registry ← Attempt.lift (registry.add rel type)
      let abs := if rel = [] then targetDir else targetDir ++ '/' :: rel
      let (reader, summary) ← extractEntry chunkSize abs rel type header reader summary
      extractEntries targetDir rounds reader registry false summary

def extractTree (targetDir : Text) (stream : Stream) : Transfer TreeSummary := do
  let reader : ByteStreamReader := { buffer := [], chunks := stream.chunks, failure := stream.failure }
  let (magic, reader) ← Attempt.lift (reader.readExact MAGIC.length)
  Attempt.lift (refuse (magic ≠ MAGIC) (archiveError "Not a AiryFS archive (bad magic or version)"))
  let (reader, summary) ← extractEntries chunkSize targetDir (stream.chunks.flatten.length + 1) reader [] true ⟨0, 0, 0, 0⟩
  let ended ← Attempt.lift reader.atEnd
  Attempt.lift (refuse (ended = false) (archiveError "Trailing bytes after archive end marker"))
  return summary

end Extraction

end Archive

end AiryFS
