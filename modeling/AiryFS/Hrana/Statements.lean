import AiryFS.Remote.Contents
import Mathlib.Data.List.DropRight

/-! The statements of a Hrana stream: the classes their text falls into, and their values.

A statement is looked at only through its text, so the tests are functions on text. The
expressions the source matches with have one way to match, and are read from left to right.
-/

set_option autoImplicit false

namespace AiryFS

open Foundation

namespace Hrana

/-! ## Text -/

/-- `\s`, which is also what `trim` removes. -/
def isSpace (character : Char) : Bool :=
  let code := character.toNat
  (9 ≤ code && code ≤ 13) || (0x2000 ≤ code && code ≤ 0x200A) ||
    code ∈ [0x20, 0xA0, 0x1680, 0x2028, 0x2029, 0x202F, 0x205F, 0x3000, 0xFEFF]

def trimStart (text : Text) : Text := text.dropWhile isSpace

def trim (text : Text) : Text := (trimStart text).rdropWhile isSpace

/-- The upper case of a character that has a letter from A to Z in it. No other character's
upper case does, and no test on an upper-cased statement looks at anything else. -/
def upperCharacter (character : Char) : Text :=
  match character.toNat with
  | 0x00DF => "SS".toList
  | 0x0131 => "I".toList
  | 0x0149 => "ʼN".toList
  | 0x017F => "S".toList
  | 0x01F0 => ['J', Char.ofNat 0x030C]
  | 0x1E96 => ['H', Char.ofNat 0x0331]
  | 0x1E97 => ['T', Char.ofNat 0x0308]
  | 0x1E98 => ['W', Char.ofNat 0x030A]
  | 0x1E99 => ['Y', Char.ofNat 0x030A]
  | 0x1E9A => ['A', Char.ofNat 0x02BE]
  | 0xFB00 => "FF".toList
  | 0xFB01 => "FI".toList
  | 0xFB02 => "FL".toList
  | 0xFB03 => "FFI".toList
  | 0xFB04 => "FFL".toList
  | 0xFB05 => "ST".toList
  | 0xFB06 => "ST".toList
  | _ => [character.toUpper]

def toUpperCase (text : Text) : Text := text.flatMap upperCharacter

/-- What follows a word. An expression that ignores the case does so for the letters from A to Z. -/
def dropWord (word : String) (text : Text) : Option Text :=
  if (text.take word.length).map Char.toUpper = word.toList then some (text.drop word.length) else none

/-- `\s+`. -/
def dropSpaces (text : Text) : Option Text :=
  if text.head?.any isSpace then some (trimStart text) else none

/-! ## Classes of statements -/

/-- Statements that DO SQLite does not support. -/
def BLOCKED_PREFIXES : List String := ["BEGIN", "COMMIT", "ROLLBACK", "SAVEPOINT", "RELEASE"]

def isBlockedStatement (sql : Text) : Bool :=
  let upper := toUpperCase (trimStart sql)
  BLOCKED_PREFIXES.any fun p => upper = p.toList || (p.toList ++ [' ']).isPrefixOf upper

def isPragma (sql : Text) : Bool := "PRAGMA".toList.isPrefixOf (toUpperCase (trimStart sql))

/-- The question marks of a call with commas between them, and the blanks after each. -/
def dropPlaceholders : Nat → Text → Option Text
  | 0, text => some text
  | 1, text => do
    let rest ← dropWord "?" text
    return trimStart rest
  | count + 2, text => do
    let rest ← dropWord "?" text
    let rest ← dropWord "," (trimStart rest)
    dropPlaceholders (count + 1) (trimStart rest)

/-- `SELECT fn(?, .., ?)`, with nothing behind but semicolons. -/
def remoteCompound (fn : String) (argCount : Nat) (sql : Text) : Bool :=
  let call := do
    let rest ← dropWord "SELECT" (trim sql)
    let rest ← dropSpaces rest
    let rest ← dropWord fn rest
    let rest ← dropWord "(" (trimStart rest)
    let rest ← dropPlaceholders argCount (trimStart rest)
    dropWord ")" rest
  call.any fun rest => ((trimStart rest).dropWhile (· = ';')).all isSpace

def isRemotePwriteV1 (sql : Text) : Bool := remoteCompound "AIRYFS_PWRITE_V1" 6 sql
def isRemoteCreateNodeV1 (sql : Text) : Bool := remoteCompound "AIRYFS_CREATE_NODE_V1" 10 sql
def isRemoteLinkV1 (sql : Text) : Bool := remoteCompound "AIRYFS_LINK_V1" 5 sql
def isRemoteTruncateV1 (sql : Text) : Bool := remoteCompound "AIRYFS_TRUNCATE_V1" 5 sql
def isRemoteRenameV1 (sql : Text) : Bool := remoteCompound "AIRYFS_RENAME_V1" 6 sql

def isReadOnlyStatement (sql : Text) : Bool :=
  let trimmed := trim sql
  let withoutTrailingSemicolons := trimmed.rdropWhile (· = ';')
  if ';' ∈ withoutTrailingSemicolons then false
  else
    let upper := toUpperCase withoutTrailingSemicolons
    if isRemotePwriteV1 trimmed || isRemoteCreateNodeV1 trimmed || isRemoteLinkV1 trimmed ||
        isRemoteTruncateV1 trimmed || isRemoteRenameV1 trimmed then false
    else "SELECT".toList.isPrefixOf upper || "EXPLAIN".toList.isPrefixOf upper

def isMutatingStatement (sql : Text) : Bool := !isBlockedStatement sql && !isPragma sql && !isReadOnlyStatement sql

/-- `\w`. -/
def isWord (character : Char) : Bool := character.isAlphanum || character = '_'

/-- `PRAGMA table_info(name)` at the front of a text. -/
def tableInfoHere (text : Text) : Option Text := do
  let rest ← dropWord "PRAGMA" text
  let rest ← dropSpaces rest
  let rest ← dropWord "TABLE_INFO" rest
  let rest ← dropWord "(" (trimStart rest)
  let name := (trimStart rest).takeWhile isWord
  if name = [] then none
  else do
    let _ ← dropWord ")" (trimStart ((trimStart rest).dropWhile isWord))
    return name

/-- The table of the first `PRAGMA table_info(name)` anywhere in the text. -/
def tableInfo (query : Text) : Option Text := query.tails.findSome? tableInfoHere

/-! ## Values -/

/-- A value as a request or a response carries it. -/
inductive HranaValue where
  | null
  | integer (value : Text)
  | float (value : Rat)
  | text (value : Text)
  | blob (base64 : Text)
  deriving DecidableEq

/-- A value as the database takes and returns it. -/
inductive SqlValue where
  | null
  | number (value : Rat)
  | text (value : Text)
  | blob (value : Bytes)
  deriving DecidableEq

/-- What the argument checks of a compound statement tell apart. -/
def SqlValue.toJs : SqlValue → JsValue
  | .null => .null
  | .number value => if value.den = 1 then .integer value.num else .fraction
  | .text value => .text value
  | .blob value => .blob value

/-- The value of a digit; a letter stands for ten or more. -/
def digitValue (character : Char) : Option Nat :=
  if character.isDigit then some (character.toNat - '0'.toNat)
  else if 'a' ≤ character ∧ character ≤ 'z' then some (character.toNat - 'a'.toNat + 10)
  else if 'A' ≤ character ∧ character ≤ 'Z' then some (character.toNat - 'A'.toNat + 10)
  else none

def digits (base : Nat) (text : Text) : Option Nat :=
  if text = [] then none
  else text.foldlM (fun value character => do
    let digit ← digitValue character
    if digit < base then some (value * base + digit) else none) 0

/-- `BigInt(text)`: only a decimal number has a sign, and a blank text is zero. -/
def bigInt (text : Text) : Option Int :=
  match trim text with
  | [] => some 0
  | '+' :: rest => (digits 10 rest).map fun value => (value : Int)
  | '-' :: rest => (digits 10 rest).map fun value => -(value : Int)
  | '0' :: marker :: rest =>
    let based (base : Nat) : Option Int := (digits base rest).map fun value => (value : Int)
    if marker = 'x' ∨ marker = 'X' then based 16
    else if marker = 'o' ∨ marker = 'O' then based 8
    else if marker = 'b' ∨ marker = 'B' then based 2
    else (digits 10 ('0' :: marker :: rest)).map fun value => (value : Int)
  | trimmed => (digits 10 trimmed).map fun value => (value : Int)

def base64Alphabet : Text := "ABCDEFGHIJKLMNOPQRSTUVWXYZabcdefghijklmnopqrstuvwxyz0123456789+/".toList

/-- The bytes of a list of six-bit digits. Bits that fill no byte are dropped. -/
@[grind =]
def sextets : List Nat → Bytes
  | a :: b :: c :: d :: rest =>
    UInt8.ofNat (a * 4 + b / 16) :: UInt8.ofNat (b % 16 * 16 + c / 4) :: UInt8.ofNat (c % 4 * 64 + d) :: sextets rest
  | [a, b, c] => [UInt8.ofNat (a * 4 + b / 16), UInt8.ofNat (b % 16 * 16 + c / 4)]
  | [a, b] => [UInt8.ofNat (a * 4 + b / 16)]
  | _ => []

@[grind =]
def withoutPadding (data : Text) : Text :=
  if data.length % 4 ≠ 0 then data
  else match data.reverse with
    | '=' :: '=' :: rest => rest.reverse
    | '=' :: rest => rest.reverse
    | _ => data

def atob (base64 : Text) : Option Bytes :=
  let data := withoutPadding (base64.filter fun c => c.toNat ∉ [9, 10, 12, 13, 32])
  if data.length % 4 = 1 then none
  else (data.mapM fun (c : Char) => base64Alphabet.findIdx? (· = c)).map sextets

@[grind =]
def btoa : Bytes → Text
  | a :: b :: c :: rest => digit (a.toNat / 4) :: digit (a.toNat % 4 * 16 + b.toNat / 16) ::
      digit (b.toNat % 16 * 4 + c.toNat / 64) :: digit (c.toNat % 64) :: btoa rest
  | [a, b] => [digit (a.toNat / 4), digit (a.toNat % 4 * 16 + b.toNat / 16), digit (b.toNat % 16 * 4), '=']
  | [a] => [digit (a.toNat / 4), digit (a.toNat % 4 * 16), '=', '=']
  | [] => []
where
  digit (value : Nat) : Char := base64Alphabet.getD value 'A'

def hranaToJs : HranaValue → Except Failure SqlValue
  | .null => return .null
  | .integer value => do
    let shown := String.ofList value
    let integer ← required (bigInt value) (.coded "SyntaxError" s!"Cannot convert {shown} to a BigInt")
    refuse (¬isSafeInteger integer) (.error s!"Integer is outside the supported safe range: {shown}")
    return .number integer
  | .float value => return .number value
  | .text value => return .text value
  | .blob base64 => do
    let binary ← required (atob base64) (.coded "InvalidCharacterError" "")
    return .blob binary

section
-- how JavaScript spells a number
variable (numeral : Rat → Text)

/-- A column a row does not have is `undefined`. -/
def jsToHrana : Option SqlValue → HranaValue
  | none => .null
  | some .null => .null
  | some (.number value) => if value.den = 1 then .integer (numeral value) else .float value
  | some (.text value) => .text value
  | some (.blob value) => .blob (btoa value)

/-- `String(value)` of a value that is neither `null` nor `undefined`. -/
def stringOf : Option SqlValue → Option Text
  | none => none
  | some .null => none
  | some (.number value) => some (numeral value)
  | some (.text value) => some value
  | some (.blob value) => some (",".toList.intercalate (value.map fun byte => (toString byte.toNat).toList))

end

/-! ## Statements and results -/

/-- The names of named arguments are not looked at. -/
structure Stmt where
  sql : Option Text
  sqlId : Option Int
  args : List HranaValue
  namedArgs : List HranaValue
  deriving DecidableEq

/-- `stmt.sql ?? ''`. -/
def Stmt.query (stmt : Stmt) : Text := stmt.sql.getD []

structure Col where
  name : Option Text
  decltype : Option Text
  deriving DecidableEq

structure StmtResult where
  cols : List Col
  rows : List (List HranaValue)
  affectedRowCount : Nat
  lastInsertRowid : Option Text
  replicationIndex : Option Text
  rowsRead : Nat
  rowsWritten : Nat
  queryDurationMs : Nat
  deriving DecidableEq

def EMPTY_RESULT : StmtResult where
  cols := []
  rows := []
  affectedRowCount := 0
  lastInsertRowid := none
  replicationIndex := none
  rowsRead := 0
  rowsWritten := 0
  queryDurationMs := 0

/-- The result of a compound statement: one row of one integer. -/
def integerResult (column : String) (value : Int) : StmtResult := { EMPTY_RESULT with
  cols := [{ name := some column.toList, decltype := some "INTEGER".toList }]
  rows := [[.integer (toString value).toList]]
  affectedRowCount := 1
  rowsWritten := 1 }

def statusResult (status : Int) : StmtResult := integerResult "status" status

end Hrana

end AiryFS
