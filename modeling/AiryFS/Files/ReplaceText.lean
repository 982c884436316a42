import AiryFS.Files.FileStream
import AiryFS.Foundation.Json
import AiryFS.Foundation.Utf8Words

/-! `replaceText`: find and replace over one text file, written back as a whole.

The expression engine is a parameter, but for sources in which every character stands for itself:
these match themselves, from the left and apart from each other.
-/

set_option autoImplicit false

namespace AiryFS

open Foundation

def MAX_TEXT_FILE_BYTES : Nat := 10 * 1024 * 1024

def MAX_MATCHES : Nat := 100000

/-- The characters that have a meaning in the source of an expression. -/
def syntaxCharacters : Text := "\\^$.*+?()[]\x7b\x7d|".toList

def escapeRegExp (value : Text) : Text :=
  value.flatMap fun character => if character ∈ syntaxCharacters then ['\\', character] else [character]

/-- A compiled expression with the global flag. -/
structure RegExp where
  /-- `content.match(regex)?.length ?? 0`. -/
  count : Text → Nat
  /-- `content.replace(regex, replacement)`. -/
  replace : Text → Text → Text

namespace RegExp

/-- A replacement without groups: `$$`, `$&`, and what stands in front of the match and behind it. -/
def getSubstitution (matched front behind : Text) : Text → Text
  | '$' :: '$' :: rest => '$' :: getSubstitution matched front behind rest
  | '$' :: '&' :: rest => matched ++ getSubstitution matched front behind rest
  | '$' :: '\x60' :: rest => front ++ getSubstitution matched front behind rest
  | '$' :: '\'' :: rest => behind ++ getSubstitution matched front behind rest
  | character :: rest => character :: getSubstitution matched front behind rest
  | [] => []

/-- The tokens of a text with the substitution for each mark. -/
def substituted (needle replacement : Text) : Text → List (Option Char) → Text
  | _, [] => []
  | front, some kept :: rest => kept :: substituted needle replacement (front ++ [kept]) rest
  | front, none :: rest =>
    getSubstitution needle front (filled needle rest) replacement ++ substituted needle replacement (front ++ needle) rest

/-- The expression that matches a text literally. -/
def literal (needle : Text) : RegExp where
  count := occurrences needle
  replace content replacement := substituted needle replacement [] (tokens needle content)

/-- The text that a source stands for, if every character stands for itself. -/
def literalSource : Text → Option Text
  | [] => some []
  | '\\' :: character :: rest =>
    if character ∈ syntaxCharacters then (literalSource rest).map (character :: ·) else none
  | character :: rest => if character ∈ syntaxCharacters then none else (literalSource rest).map (character :: ·)

end RegExp

/-- `new RegExp(source, 'g')` and `new RegExp(source, 'gi')`, with the message of the error. -/
structure RegExpEngine where
  compile : Text → Bool → Except String RegExp

def RegExpEngine.regExp (engine : RegExpEngine) (source : Text) (ignoreCase : Bool) : Except String RegExp :=
  if ignoreCase then engine.compile source true
  else
    match RegExp.literalSource source with
    | some needle => .ok (.literal needle)
    | none => engine.compile source false

structure ReplaceTextInput where
  path : Option Json
  pattern : Option Json
  replacement : Option Json
  ignoreCase : Option Json
  literal : Option Json
  dryRun : Option Json

structure ReplaceTextResult where
  /-- `matches`. -/
  count : Nat
  changed : Bool
  dryRun : Bool
  deriving DecidableEq, Repr

def holdsTrue : Option Json → Bool
  | some (.bool value) => value
  | _ => false

def reqString (value : Option Json) (name : String) : Except Failure Text :=
  match value with
  | some (.string text) => do
    refuse (text = []) (.http 400 "INVALID_ARGUMENT" s!"Missing \"{name}\" string")
    return text
  | _ => .error (.http 400 "INVALID_ARGUMENT" s!"Missing \"{name}\" string")

/-- The input as it is used. -/
structure ReplaceTextRequest where
  original : Text
  regex : RegExp
  replacement : Text
  dryRun : Bool

def ReplaceTextRequest.path (request : ReplaceTextRequest) : Text := Auth.normalizePath request.original

/-- The checks up to the lock. -/
def ReplaceTextInput.parse (engine : RegExpEngine) (input : ReplaceTextInput) : Except Failure ReplaceTextRequest := do
  let original ← reqString input.path "path"
  let pattern ← reqString input.pattern "pattern"
  match input.replacement with
  | some (.string replacement) => do
    let source := if holdsTrue input.literal then escapeRegExp pattern else pattern
    match engine.regExp source (holdsTrue input.ignoreCase) with
    | .error message => .error (.http 400 "INVALID_PATTERN" message)
    | .ok regex => return { original, regex, replacement, dryRun := holdsTrue input.dryRun }
  | _ => .error (.http 400 "INVALID_ARGUMENT" "Missing \"replacement\" string")

namespace StreamSystem

variable (stream : FileStream) (chunkSize : Nat)

/-- A call that nobody interrupts, to its end. -/
def alone (volume : Volume) : StreamSystem :=
  (start stream volume).run stream chunkSize (List.replicate (stream.pieces.length + 9) .next)

end StreamSystem

namespace ReplaceTextRequest

variable (request : ReplaceTextRequest) (chunkSize : Nat)

/-- `writeFileStream` of the new text, without the coordinator. -/
def writeBack (uuid text : Text) : FileStream where
  path := request.path
  uuid
  body := some ⟨[Utf8.encode text], none⟩
  access := false
  validateTemp _ := .ok ()

/-- What is read: the text, and the volume after the read. -/
def readText (volume : Volume) : Except Failure (Text × Volume) := do
  let stats ← AgentFS.stat volume request.path
  let shown := String.ofList request.original
  refuse (isDirectory stats.mode) (.http 409 "EISDIR" s!"EISDIR: illegal operation on a directory, replaceText '{shown}'")
  refuse (MAX_TEXT_FILE_BYTES < stats.size)
    (.http 413 "FILE_TOO_LARGE" s!"file exceeds {MAX_TEXT_FILE_BYTES} bytes; use exec for larger files")
  let (content, volume) ← AgentFS.readFile volume request.path
  return (Utf8.decodeFrom none content, volume)

def run (volume : Volume) (uuid : Text) : Except Failure ReplaceTextResult × Volume :=
  match request.readText volume with
  | .error failure => (.error failure, volume)
  | .ok (content, volume) =>
    let count := request.regex.count content
    if MAX_MATCHES < count then
      (.error (.http 400 "INVALID_ARGUMENT" s!"pattern matches more than {MAX_MATCHES} times; narrow it"), volume)
    else if request.dryRun ∨ count = 0 then (.ok { count, changed := false, dryRun := request.dryRun }, volume)
    else
      let written := StreamSystem.alone (request.writeBack uuid (request.regex.replace content request.replacement)) chunkSize volume
      match written.phase with
      | .rejected failure => (.error failure, written.volume)
      | _ => (.ok { count, changed := true, dryRun := false }, written.volume)

end ReplaceTextRequest

/-- The failing checks leave the volume as it is. -/
def replaceText (engine : RegExpEngine) (chunkSize : Nat) (volume : Volume) (uuid : Text) (input : ReplaceTextInput) :
    Except Failure ReplaceTextResult × Volume :=
  match input.parse engine with
  | .error failure => (.error failure, volume)
  | .ok request => request.run chunkSize volume uuid

/-! ## Literal sources -/

namespace RegExp

theorem literalSource_escape (value : Text) : literalSource (escapeRegExp value) = some value := by
  induction value with
  | nil => rfl
  | cons character value ih =>
    rw [escapeRegExp, List.flatMap_cons, ← escapeRegExp]
    by_cases special : character ∈ syntaxCharacters
    · rw [if_pos special, List.cons_append, List.singleton_append, literalSource, if_pos special, ih]
      rfl
    · have plain : character ≠ '\\' := by
        rintro rfl
        exact special (by decide)
      rw [if_neg special, List.singleton_append, literalSource.eq_def]
      split
      · contradiction
      · rename_i same
        exact absurd (List.cons.inj same).1 plain
      · rename_i same
        obtain ⟨rfl, rfl⟩ := List.cons.inj same
        rw [if_neg special, ih]
        rfl

theorem getSubstitution_plain {replacement : Text} (plain : '$' ∉ replacement) (matched front behind : Text) :
    getSubstitution matched front behind replacement = replacement := by
  induction replacement with
  | nil => rfl
  | cons character replacement ih =>
    rw [List.mem_cons, not_or] at plain
    rw [getSubstitution.eq_def]
    split <;> first
      | rename_i same
        exact absurd (List.cons.inj same).1.symm plain.1
      | skip
    · rename_i same
      obtain ⟨rfl, rfl⟩ := List.cons.inj same
      rw [ih plain.2]
    · contradiction

/-- Without a dollar sign the matches are replaced by the text itself. -/
theorem literal_replace {needle replacement : Text} (plain : '$' ∉ replacement) (content : Text) :
    (literal needle).replace content replacement = replaceAll needle replacement content := by
  have through : ∀ found front, substituted needle replacement front found = filled replacement found := by
    intro found
    induction found with
    | nil => exact fun _ => rfl
    | cons token found ih =>
      intro front
      cases token with
      | none => rw [substituted, getSubstitution_plain plain, ih, filled_none]
      | some kept => rw [substituted, ih, filled_some]
  exact through _ _

end RegExp

end AiryFS
