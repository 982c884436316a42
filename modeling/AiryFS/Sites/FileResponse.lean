import AiryFS.Direct.Directories
import AiryFS.Foundation.Asking
import AiryFS.Foundation.Calendar
import AiryFS.Snapshots.Storage

/-! Answering a request with a file of the volume: entity tags, conditional requests and ranges.

The functions ask the filesystem they are given. A handle is what `open` returned for a path,
and a file's version is the last sequence number the change feed holds for its inode. What
`Date.parse` makes of a text is left to the platform.
-/

set_option autoImplicit false

namespace AiryFS

open Foundation

namespace Sites

/-! ## The filesystem as it is asked -/

inductive Question where
  | stat (path : Text)
  /-- The entries of a directory but those that are hidden, and which of them are directories. -/
  | entries (path : Text) (hidden : Option Text)
  | open (path : Text)
  | pread (file : AgentFSFile) (offset size : Nat)
  | version (ino : Int)
  deriving DecidableEq, Repr

def Answer : Question → Type
  | .stat _ => Except Failure InodeRow
  | .entries _ _ => Except Failure (List (Text × Bool))
  | .open _ => Except Failure AgentFSFile
  | .pread _ _ _ => Bytes
  | .version _ => Nat

abbrev Serving := Asking Answer Failure

/-- `max(seq)` over the events of the inode. -/
def latestFileVersion (volume : Volume) (ino : Int) : Nat :=
  ((volume.feed.rows.filter fun row => row.ino = ino).map (·.seq)).foldl max 0

def visibleEntries (volume : Volume) (path : Text) (hidden : Option Text) : Except Failure (List (Text × Bool)) := do
  let entries ← AgentFS.readdirPlus volume path
  return (entries.filter fun entry => hidden ≠ some entry.1).map fun entry => (entry.1, isDirectory entry.2.mode)

/-- What a volume answers. -/
def answer (chunkSize : Nat) (volume : Volume) : ∀ question, Answer question
  | .stat path => AgentFS.stat volume path
  | .entries path hidden => visibleEntries volume path hidden
  | .open path => AgentFS.openFile volume chunkSize path
  | .pread file offset size => file.pread volume offset size
  | .version ino => latestFileVersion volume ino

def stat (path : Text) : Serving InodeRow := Asking.consult (Question.stat path) fun stats => stats

def openFile (path : Text) : Serving AgentFSFile := Asking.consult (Question.open path) fun file => file

def pread (file : AgentFSFile) (offset size : Nat) : Serving Bytes := Asking.question (Question.pread file offset size)

def versionForInode (ino : Int) : Serving Nat := Asking.question (Question.version ino)

/-! ## Requests and responses -/

structure Request where
  method : Text
  /-- `new URL(request.url).pathname` -/
  pathname : Text
  ifNoneMatch : Option Text
  ifModifiedSince : Option Text
  ifRange : Option Text
  range : Option Text
  deriving DecidableEq, Repr

abbrev Headers := List (String × Text)

def Headers.set (headers : Headers) (name : String) (value : Text) : Headers :=
  headers.filter (fun header => header.1 ≠ name) ++ [(name, value)]

/-- The bytes that a stream delivered, and how it broke off when it did. -/
structure Streamed where
  bytes : Bytes
  failure : Option Failure
  deriving DecidableEq

structure Response where
  status : Nat
  headers : Headers
  body : Option Streamed
  deriving DecidableEq

/-! ## Numbers and dates as text -/

/-- `String(number)`, and `number.toString(16)`. -/
def integerText (base : Nat) (number : Int) : Text :=
  (if number < 0 then ['-'] else []) ++ Nat.toDigits base number.natAbs

def padded (width : Nat) (number : Int) : Text :=
  let digits := Nat.toDigits 10 number.natAbs
  List.replicate (width - digits.length) '0' ++ digits

def dayNames : List String := ["Sun", "Mon", "Tue", "Wed", "Thu", "Fri", "Sat"]

def monthNames : List String :=
  ["Jan", "Feb", "Mar", "Apr", "May", "Jun", "Jul", "Aug", "Sep", "Oct", "Nov", "Dec"]

/-- `new Date(seconds * 1000).toUTCString()` -/
def toUTCString (seconds : Int) : Text :=
  if 8640000000000 < seconds.natAbs then "Invalid Date".toList
  else
    let time := seconds / 60
    let year := Calendar.getUTCFullYear time
    (dayNames.getD (Calendar.getUTCDay time).toNat "").toList ++ ", ".toList ++ padded 2 (Calendar.getUTCDate time) ++ [' '] ++
      (monthNames.getD (Calendar.getUTCMonth time).toNat "").toList ++ [' '] ++ (if year < 0 then ['-'] else []) ++
      padded 4 year ++ [' '] ++ padded 2 (Calendar.getUTCHours time) ++ [':'] ++ padded 2 (Calendar.getUTCMinutes time) ++
      [':'] ++ padded 2 (seconds % 60) ++ " GMT".toList

/-! ## Conditional requests -/

def entityTag (stats : InodeRow) (version : Nat) : Text :=
  ['"'] ++ integerText 16 stats.ino ++ ['-'] ++ integerText 16 version ++ ['-'] ++ integerText 16 stats.size ++ ['"']

def weakTagValue (value : Text) : Text :=
  let trimmed := SnapshotStorage.trim value
  if ['W', '/'].isPrefixOf trimmed then trimmed.drop 2 else trimmed

/-- `headers.get(name)` where the code only asks whether it is a nonempty text. -/
def given (header : Option Text) : Option Text := header.filter fun text => text ≠ []

section Dates
variable (parse : Text → Option Int)

/-- `!Number.isNaN(since) && Math.floor(mtime) * 1000 <= since` -/
def unchangedSince (date : Text) (mtime : Int) : Bool := (parse date).any fun since => mtime * 1000 ≤ since

def isNotModified (request : Request) (etag : Text) (mtime : Int) : Bool :=
  match request.ifNoneMatch with
  | some ifNoneMatch =>
    SnapshotStorage.trim ifNoneMatch == ['*'] ||
      (ifNoneMatch.splitOn ',').any fun candidate => weakTagValue candidate == etag
  | none =>
    match given request.ifModifiedSince with
    | none => false
    | some ifModifiedSince => unchangedSince parse ifModifiedSince mtime

def canServeRange (request : Request) (etag : Text) (mtime : Int) : Bool :=
  match given request.ifRange with
  | none => true
  | some ifRange =>
    if ['W', '/'].isPrefixOf ifRange then false
    else if ['"'].isPrefixOf ifRange then ifRange == etag
    else unchangedSince parse ifRange mtime

end Dates

/-! ## Ranges -/

def digits (text : Text) : Bool := text.all fun character => 0x30 ≤ character.toNat && character.toNat ≤ 0x39

/-- `Number(digits)` -/
def digitsValue (text : Text) : Nat := text.foldl (fun value character => value * 10 + (character.toNat - 0x30)) 0

/-- `/^bytes=(\d*)-(\d*)$/`, with the two groups. -/
def matchRange (text : Text) : Option (Text × Text) :=
  if "bytes=".toList.isPrefixOf text then
    match (text.drop 6).splitOn '-' with
    | [first, last] => if digits first && digits last then some (first, last) else none
    | _ => none
  else none

def invalidRange : Failure := .http 416 "INVALID_RANGE" "Range is not satisfiable"

/-- The range of a size that a request asks for, end included. -/
def parseRange (value : Option Text) (size : Nat) : Except Failure (Option (Nat × Nat)) :=
  match given value with
  | none => .ok none
  | some text =>
    if ¬"bytes=".toList.isPrefixOf text ∨ ',' ∈ text then .ok none
    else
      match matchRange (SnapshotStorage.trim text) with
      | none => .ok none
      | some (first, last) =>
        if first = [] ∧ last = [] then .ok none
        else if size = 0 then .error invalidRange
        else if first = [] then
          let suffixLength := digitsValue last
          if ¬isSafeInteger suffixLength ∨ suffixLength = 0 then .error invalidRange
          else .ok (some (size - suffixLength, size - 1))
        else
          let start := digitsValue first
          let stop := if last = [] then size - 1 else digitsValue last
          if ¬isSafeInteger start ∨ ¬isSafeInteger stop ∨ size ≤ start ∨ stop < start then .error invalidRange
          else .ok (some (start, min stop (size - 1)))

/-! ## The response -/

def READ_CHUNK_SIZE : Nat := 256 * 1024

/-- The stream from `offset` up to `stop`, as its consumer pulls it. Every round but a failing
one delivers a byte, which bounds the rounds. -/
def createReadStream (file : AgentFSFile) (stop : Nat) : Nat → Nat → Bytes → Serving Streamed
  | 0, _, sent => return ⟨sent, none⟩
  | rounds + 1, offset, sent =>
    if offset > stop then return ⟨sent, none⟩
    else do
      let chunk ← pread file offset (min READ_CHUNK_SIZE (stop - offset + 1))
      if chunk.length = 0 then return ⟨sent, some (.error "File changed while it was being streamed")⟩
      else createReadStream file stop rounds (offset + chunk.length) (sent ++ chunk)

/-- What cannot be opened as a file. -/
def notAFile (stats : InodeRow) (path : Text) : Failure :=
  if isSymlink stats.mode then .http 409 "SYMLINK_NOT_RESOLVED" "Use the readlink operation for symbolic links"
  else createFsError .EISDIR "open" path "illegal operation on a directory"

def baseHeaders (stats : InodeRow) (etag : Text) : Headers :=
  [("Accept-Ranges", "bytes".toList), ("Content-Type", "application/octet-stream".toList), ("ETag", etag),
    ("Last-Modified", toUTCString stats.mtime), ("X-AiryFS-Inode", integerText 10 stats.ino)]

/-- The response with the contents of a file, once the range is known. -/
def contentResponse (request : Request) (path : Text) (stats : InodeRow) (headers : Headers) (range : Option (Nat × Nat)) :
    Serving Response := do
  let start := range.elim 0 (·.1)
  let stop := range.elim (stats.size - 1) (·.2)
  let length := if stats.size = 0 then 0 else stop - start + 1
  let headers := headers.set "Content-Length" (integerText 10 length)
  let headers := if range.isSome then
      headers.set "Content-Range" ("bytes ".toList ++ integerText 10 start ++ ['-'] ++ integerText 10 stop ++ ['/'] ++
        integerText 10 stats.size)
    else headers
  let status := if range.isSome then 206 else 200
  if request.method = "HEAD".toList ∨ stats.size = 0 then return { status, headers, body := none }
  else do
    let file ← openFile path
    let body ← createReadStream file stop (stop + 1 - start) start []
    return { status, headers, body := some body }

def fileResponse (parse : Text → Option Int) (path : Text) (request : Request) : Serving Response := do
  let stats ← stat path
  if ¬isRegular stats.mode then throw (notAFile stats path)
  else do
    let etag := entityTag stats (← versionForInode stats.ino)
    let headers := baseHeaders stats etag
    if isNotModified parse request etag stats.mtime then return { status := 304, headers, body := none }
    else do
      let range ← Asking.lift (if request.method = "GET".toList ∧ canServeRange parse request etag stats.mtime then
        parseRange request.range stats.size else .ok none)
      contentResponse request path stats headers range

end Sites

end AiryFS
