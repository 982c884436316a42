import Mathlib.Data.Nat.Bitwise
import Mathlib.Tactic.Ring

/-! JavaScript and SQLite values as the filesystem code exchanges them.

Text is a list of characters. Numbers are integers: a non-integral number only matters
because the argument checks reject it. Mode bits are read as the code reads them, after
the conversion to 32 bits that the bitwise operators perform.
-/

set_option autoImplicit false

namespace AiryFS

abbrev Text := List Char

instance : LawfulBEq Text := inferInstance

abbrev Bytes := List UInt8

/-- `String.length`: characters beyond the basic plane count twice. -/
def utf16Length (text : Text) : Nat := (text.map fun character => if character.toNat > 0xFFFF then 2 else 1).sum

/-- A bound statement argument. -/
inductive JsValue where
  | null
  | integer (value : Int)
  | fraction
  | text (value : Text)
  | blob (value : Bytes)
  deriving DecidableEq, Repr

def maxSafeInteger : Int := 9007199254740991

def isSafeInteger (value : Int) : Bool := decide (-maxSafeInteger ≤ value ∧ value ≤ maxSafeInteger)

inductive FsErrorCode where
  | ENOENT | EEXIST | EISDIR | ENOTDIR | ENOTEMPTY | EPERM | EINVAL | ELOOP
  deriving DecidableEq, Repr

structure FsError where
  code : FsErrorCode
  syscall : String
  path : Text
  message : String
  deriving DecidableEq

/-- Everything a modelled function can throw. -/
inductive Failure where
  | fs (error : FsError)
  /-- A plain `Error` with its message. -/
  | error (message : String)
  | http (status : Nat) (code message : String)
  /-- An `Error` class with a code. -/
  | coded (code message : String)
  /-- A violated UNIQUE or PRIMARY KEY constraint. -/
  | constraint (table : String)
  /-- `RAISE(ABORT, ..)` in a trigger. -/
  | abort (message : String)
  deriving DecidableEq

/-- `error.message`. -/
def Failure.text : Failure → Text
  | .fs cause => cause.message.toList
  | .error message => message.toList
  | .http _ _ message => message.toList
  | .coded _ message => message.toList
  | .constraint table => "UNIQUE constraint failed: ".toList ++ table.toList
  | .abort message => message.toList

def createFsError (code : FsErrorCode) (syscall : String) (path : Text) (message : String) : Failure :=
  .fs { code, syscall, path, message }

/-! ## Mode bits -/

def S_IFMT : Nat := 0o170000
def S_IFREG : Nat := 0o100000
def S_IFDIR : Nat := 0o040000
def S_IFLNK : Nat := 0o120000

def DEFAULT_FILE_MODE : Int := (S_IFREG ||| 0o644 : Nat)
def DEFAULT_DIR_MODE : Int := (S_IFDIR ||| 0o755 : Nat)

/-- `mode & mask` for a mask below 2^31: the operator reads the low 32 bits. -/
def maskMode (mode : Int) (mask : Nat) : Nat := (mode % 2 ^ 32).toNat &&& mask

def fileType (mode : Int) : Nat := maskMode mode S_IFMT

def isDirectory (mode : Int) : Bool := fileType mode == S_IFDIR
def isRegular (mode : Int) : Bool := fileType mode == S_IFREG
def isSymlink (mode : Int) : Bool := fileType mode == S_IFLNK

/-- `type | (mode & bits)`. -/
def modeWith (type : Nat) (mode : Int) (bits : Nat) : Int := (type ||| maskMode mode bits : Nat)

theorem maskMode_lt (mode : Int) {mask size : Nat} (bound : mask < 2 ^ size) : maskMode mode mask < 2 ^ size :=
  lt_of_le_of_lt Nat.and_le_right bound

theorem maskMode_natCast {mode : Nat} (small : mode < 2 ^ 32) (mask : Nat) :
    maskMode (mode : Int) mask = mode &&& mask := by
  have wrapped : ((mode : Int) % 2 ^ 32).toNat = mode := by omega
  rw [maskMode, wrapped]

/-- Permission bits never reach the type bits. -/
theorem fileType_modeWith {type : Nat} (typed : type &&& S_IFMT = type) (small : type < 2 ^ 16) (mode : Int) :
    fileType (modeWith type mode 0o7777) = type := by
  have permissions : maskMode mode 0o7777 < 2 ^ 12 := maskMode_lt mode (by decide)
  have whole : type ||| maskMode mode 0o7777 < 2 ^ 16 :=
    Nat.or_lt_two_pow small (lt_trans permissions (by decide))
  have disjoint : maskMode mode 0o7777 &&& S_IFMT = 0 := by
    rw [maskMode, Nat.and_assoc]
    exact Nat.and_zero _
  rw [fileType, modeWith, maskMode_natCast (lt_trans whole (by decide)), Nat.and_or_distrib_right,
    typed, disjoint, Nat.or_zero]

@[simp] theorem isDirectory_default : isDirectory DEFAULT_DIR_MODE = true := by decide

@[simp] theorem isDirectory_defaultFile : isDirectory DEFAULT_FILE_MODE = false := by decide

@[simp] theorem isRegular_default : isRegular DEFAULT_FILE_MODE = true := by decide

@[simp] theorem isDirectory_modeWith (mode : Int) : isDirectory (modeWith S_IFDIR mode 0o7777) = true := by
  simp [isDirectory, fileType_modeWith (show S_IFDIR &&& S_IFMT = S_IFDIR by decide) (by decide)]

@[simp] theorem isDirectory_symlink : isDirectory ((S_IFLNK ||| 0o777 : Nat) : Int) = false := by decide

end AiryFS
