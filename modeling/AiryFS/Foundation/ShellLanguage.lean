import Mathlib.Data.List.Basic
import Mathlib.Tactic.Common

/-! Lines of a POSIX shell, read without running anything.

A line is cut into tokens character by character, and its quotes are taken off. What is read are simple commands
joined by operators, whose words stand for themselves: a line with expansions, compound commands or
here-documents has no reading.
-/

set_option autoImplicit false

namespace Foundation
namespace Shell

/-! ## Tokens -/

/-- A character of a word, and whether a quote or a backslash makes it stand for itself. -/
structure Letter where
  char : Char
  quoted : Bool
  deriving DecidableEq, Repr

def Letter.is (letter : Letter) (c : Char) : Bool := !letter.quoted && letter.char = c

/-- The text as it is written outside quotes. -/
def bare (text : List Char) : List Letter := text.map fun c => ⟨c, false⟩

inductive Token where
  | word (letters : List Letter)
  /-- The digits right before a redirection. -/
  | number (digits : List Char)
  | operator (text : List Char)
  deriving DecidableEq, Repr

def operators : List (List Char) :=
  [['&'], ['&', '&'], ['|'], ['|', '|'], [';'], [';', ';'], ['<'], ['<', '<'], ['<', '<', '-'], ['<', '&'], ['<', '>'],
    ['>'], ['>', '>'], ['>', '&'], ['>', '|'], ['('], [')'], ['\n']]

/-- What an operator begins with. -/
def breaking : List Char := ['&', '|', ';', '<', '>', '(', ')', '\n']

/-- What does not stand for itself outside quotes, wherever it stands. -/
def special : List Char := breaking ++ [' ', '\t', '$', '\x60', '\\', '"', '\'', '\x00']

/-- What does not stand for itself between double quotes. -/
def doubleSpecial : List Char := ['$', '\x60', '\\', '"', '\x00']

/-- The token that has begun. -/
inductive Pending where
  | nothing
  | operator (text : List Char)
  | word (letters : List Letter)
  deriving DecidableEq, Repr

/-- What is done with the next character. -/
inductive Mode where
  | bare
  | escaped
  | single
  | double
  | doubleEscaped
  | comment
  deriving DecidableEq, Repr

/-- The token that has begun, ended by the next character or by the end of the line. -/
def Pending.close : Pending → Option Char → List Token
  | .nothing, _ => []
  | .operator text, _ => [.operator text]
  | .word letters, next =>
    if (next = some '<' ∨ next = some '>') ∧ letters ≠ [] ∧ ∀ letter ∈ letters, letter.quoted = false ∧ letter.char.isDigit then
      [.number (letters.map Letter.char)]
    else [.word letters]

/-- The token that a letter ends. -/
def Pending.before : Pending → List Token
  | .operator text => [.operator text]
  | _ => []

/-- The letters of the word that has begun. -/
def Pending.letters : Pending → List Letter
  | .word letters => letters
  | _ => []

def Pending.append (pending : Pending) (letters : List Letter) : Pending := .word (pending.letters ++ letters)

/-- The tokens that a character ends, the one it begins or goes on with, and what is done with the next one. -/
def step (pending : Pending) (mode : Mode) (c : Char) : Option (List Token × Pending × Mode) :=
  if c = '\x00' then none
  else match mode with
  | .bare =>
    if c = '\\' then some ([], pending, .escaped)
    else if c = '\'' then some (pending.before, pending.append [], .single)
    else if c = '"' then some (pending.before, pending.append [], .double)
    else if c = '$' ∨ c = '\x60' then none
    else if c = ' ' ∨ c = '\t' then some (pending.close (some c), .nothing, .bare)
    else if c ∈ breaking then
      match pending with
      | .operator text =>
        if text ++ [c] ∈ operators then some ([], .operator (text ++ [c]), .bare) else some ([.operator text], .operator [c], .bare)
      | _ => some (pending.close (some c), .operator [c], .bare)
    else
      match pending with
      | .word letters => some ([], .word (letters ++ [⟨c, false⟩]), .bare)
      | _ => if c = '#' then some (pending.before, .nothing, .comment) else some (pending.before, .word [⟨c, false⟩], .bare)
  -- A backslash before the end of a line joins it to the next one.
  | .escaped => if c = '\n' then some ([], pending, .bare) else some (pending.before, pending.append [⟨c, true⟩], .bare)
  | .single => if c = '\'' then some ([], pending, .bare) else some ([], pending.append [⟨c, true⟩], .single)
  | .double =>
    if c = '"' then some ([], pending, .bare)
    else if c = '\\' then some ([], pending, .doubleEscaped)
    else if c = '$' ∨ c = '\x60' then none
    else some ([], pending.append [⟨c, true⟩], .double)
  | .doubleEscaped =>
    if c = '\n' then some ([], pending, .double)
    else if c ∈ ['$', '\x60', '"', '\\'] then some ([], pending.append [⟨c, true⟩], .double)
    else some ([], pending.append [⟨'\\', true⟩, ⟨c, true⟩], .double)
  | .comment => if c = '\n' then some ([], .operator [c], .bare) else some ([], pending, .comment)

def lex : Pending → Mode → List Char → Option (List Token)
  | pending, .bare, [] => some (pending.close none)
  | _, .comment, [] => some []
  | _, _, [] => none
  | pending, mode, c :: text =>
    match step pending mode c with
    | none => none
    | some (tokens, pending, mode) => (lex pending mode text).map (tokens ++ ·)

def tokensOf (line : List Char) : Option (List Token) := lex .nothing .bare line

/-! ## Commands -/

structure Redirection where
  number : Option (List Char)
  operator : List Char
  target : List Letter
  deriving DecidableEq, Repr

structure Simple where
  words : List (List Letter)
  redirections : List Redirection
  deriving DecidableEq, Repr

def Simple.word (letters : List Letter) (command : Simple) : Simple := { command with words := letters :: command.words }

def Simple.redirect (redirection : Redirection) (command : Simple) : Simple :=
  { command with redirections := redirection :: command.redirections }

/-- A command, and the others with the operators before them. -/
abbrev Chain (α : Type) := α × List (List Char × α)

def joining : List (List Char) := [['&'], ['&', '&'], ['|'], ['|', '|'], [';']]

def redirecting : List (List Char) := [['<'], ['<', '&'], ['<', '>'], ['>'], ['>', '>'], ['>', '&'], ['>', '|']]

def parse : List Token → Option (Chain Simple)
  | [] => some (⟨[], []⟩, [])
  | .word letters :: rest => (parse rest).map fun chain => (chain.1.word letters, chain.2)
  | .number digits :: rest =>
    match rest with
    | .operator text :: .word target :: rest =>
      if text ∈ redirecting then (parse rest).map fun chain => (chain.1.redirect ⟨some digits, text, target⟩, chain.2) else none
    | _ => none
  | .operator text :: rest =>
    if text ∈ joining then (parse rest).map fun chain => (⟨[], []⟩, (text, chain.1) :: chain.2)
    else match rest with
    | .word target :: rest =>
      if text ∈ redirecting then (parse rest).map fun chain => (chain.1.redirect ⟨none, text, target⟩, chain.2) else none
    | _ => none

/-! ## Words that stand for themselves -/

/-- A bracket closes the expression in the same component of the path. -/
def closesBracket : List Letter → Bool
  | [] => false
  | letter :: rest => letter.char ≠ '/' && (letter.is ']' || closesBracket rest)

/-- Something stands in the expression; a bracket right at its start does not close it. -/
def bracketed : List Letter → Bool
  | [] => false
  | letter :: rest => letter.char ≠ '/' && closesBracket rest

def opensBracket : List Letter → Bool
  | [] => false
  | letter :: rest => if letter.is '!' then bracketed rest else bracketed (letter :: rest)

/-- The word is a pattern for the names of files. -/
def isPattern : List Letter → Bool
  | [] => false
  | letter :: rest => letter.is '*' || letter.is '?' || (letter.is '[' && opensBracket rest) || isPattern rest

/-- The text that a word is, whatever files and users there are. -/
def literal (letters : List Letter) : Option (List Char) :=
  if isPattern letters || letters.head?.any (·.is '~') then none else some (letters.map Letter.char)

def reserved : List (List Char) :=
  ["!", "\x7b", "\x7d", "case", "do", "done", "elif", "else", "esac", "fi", "for", "if", "in", "then", "until", "while"].map String.toList

/-- The word gives a variable its value, when it comes first. -/
def assigns (letters : List Letter) : Bool :=
  let name := letters.takeWhile fun letter => !letter.quoted && (letter.char.isAlphanum || letter.char = '_')
  name.head?.any (fun letter => !letter.char.isDigit) && ((letters.drop name.length).head?.any (·.is '='))

/-- What a program is run with. -/
structure Invocation where
  arguments : List (List Char)
  redirections : List (Option (List Char) × List Char × List Char)
  deriving DecidableEq, Repr

def Redirection.read (redirection : Redirection) : Option (Option (List Char) × List Char × List Char) :=
  (literal redirection.target).map fun target => (redirection.number, redirection.operator, target)

def Simple.read (command : Simple) : Option Invocation :=
  match command.words with
  | [] => none
  | first :: _ =>
    if first ∈ reserved.map bare ∨ assigns first = true then none
    else do return ⟨← command.words.mapM literal, ← command.redirections.mapM Redirection.read⟩

def read (chain : Chain Simple) : Option (Chain Invocation) := do
  let first ← chain.1.read
  let others ← chain.2.mapM fun other => other.2.read.map (other.1, ·)
  return (first, others)

/-- The programs that a line runs and the operators between them. -/
def reading (line : List Char) : Option (Chain Invocation) := do
  read (← parse (← tokensOf line))

variable {letters more : List Letter} {text rest line : List Char} {mode : Mode} {pending : Pending} {c : Char}

/-! ## Plain text -/

theorem bare_append (text rest : List Char) : bare (text ++ rest) = bare text ++ bare rest := List.map_append

theorem chars_bare (text : List Char) : (bare text).map Letter.char = text := by
  unfold bare
  rw [List.map_map]
  exact List.map_id text

/-- No character means anything but itself. -/
def Plain (text : List Char) : Prop := ∀ c ∈ text, c ∉ special

instance (text : List Char) : Decidable (Plain text) := decidable_of_iff ((text.all fun c => c ∉ special) = true) (by simp [Plain])

theorem Plain.append (first : Plain text) (second : Plain rest) : Plain (text ++ rest) :=
  List.forall_mem_append.mpr ⟨first, second⟩

/-- A text that is one word. -/
structure Argument (text : List Char) : Prop where
  some_ : text ≠ []
  plain : Plain text
  uncommented : text.head? ≠ some '#'

instance (text : List Char) : Decidable (Argument text) :=
  decidable_of_iff (text ≠ [] ∧ Plain text ∧ text.head? ≠ some '#')
    ⟨fun holds => ⟨holds.1, holds.2.1, holds.2.2⟩, fun argument => ⟨argument.some_, argument.plain, argument.uncommented⟩⟩

theorem step_word (plain : c ∉ special) : step (.word letters) .bare c = some ([], .word (letters ++ [⟨c, false⟩]), .bare) := by
  simp only [special, breaking, List.mem_append, List.mem_cons, List.not_mem_nil, or_false, not_or] at plain
  simp [step, breaking, plain]

theorem step_begin (plain : c ∉ special) (uncommented : c ≠ '#') :
    step .nothing .bare c = some ([], .word [⟨c, false⟩], .bare) := by
  simp only [special, breaking, List.mem_append, List.mem_cons, List.not_mem_nil, or_false, not_or] at plain
  simp [step, breaking, plain, uncommented, Pending.before]

theorem lex_cons (pending : Pending) (mode : Mode) (c : Char) (text : List Char) : lex pending mode (c :: text) =
    (step pending mode c).bind fun (tokens, pending, mode) => (lex pending mode text).map (tokens ++ ·) := by
  rw [lex]
  cases step pending mode c <;> rfl

theorem close_none (letters : List Letter) : Pending.close (.word letters) none = [.word letters] := by
  unfold Pending.close
  exact if_neg (by simp)

theorem close_eq_word {next : Option Char} (closed : Pending.close (.word letters) next = [.word more]) : more = letters := by
  rw [Pending.close] at closed
  split at closed
  · cases closed
  · exact (Token.word.inj (List.cons.inj closed).1).symm

theorem close_some (letters : List Letter) (next : Option Char) : ∃ token, Pending.close (.word letters) next = [token] := by
  rw [Pending.close]
  split
  · exact ⟨_, rfl⟩
  · exact ⟨_, rfl⟩

theorem lex_silent {others : Pending} {next : Mode} (stepped : step pending mode c = some ([], others, next)) (text : List Char) :
    lex pending mode (c :: text) = lex others next text := by
  rw [lex_cons, stepped, Option.bind_some]
  exact Option.map_id' ..

/-- The tokens that a part of a line ends, and how it leaves the rest to be read. -/
def scan : Pending → Mode → List Char → Option (List Token × Pending × Mode)
  | pending, mode, [] => some ([], pending, mode)
  | pending, mode, c :: text => do
    let (tokens, pending, mode) ← step pending mode c
    let (others, pending, mode) ← scan pending mode text
    return (tokens ++ others, pending, mode)

theorem lex_of_scan {tokens : List Token} {later : Pending} {next : Mode} (scanned : scan pending mode text = some (tokens, later, next))
    (rest : List Char) : lex pending mode (text ++ rest) = (lex later next rest).map (tokens ++ ·) := by
  induction text generalizing pending mode tokens with
  | nil =>
    cases scanned
    exact (Option.map_id' ..).symm
  | cons c text ih =>
    obtain ⟨⟨out, middle, between⟩, stepped, scanned⟩ := Option.bind_eq_some_iff.mp scanned
    obtain ⟨⟨others, end_, last⟩, remaining, same⟩ := Option.bind_eq_some_iff.mp scanned
    cases same
    rw [List.cons_append, lex_cons, stepped, Option.bind_some]
    dsimp only
    rw [ih remaining, Option.map_map]
    congr 1
    funext others
    simp

theorem scan_append {middle later : Pending} {between next : Mode} {tokens others : List Token}
    (first : scan pending mode text = some (tokens, middle, between)) (second : scan middle between rest = some (others, later, next)) :
    scan pending mode (text ++ rest) = some (tokens ++ others, later, next) := by
  induction text generalizing pending mode tokens with
  | nil =>
    cases first
    exact second
  | cons c text ih =>
    obtain ⟨_, stepped, first⟩ := Option.bind_eq_some_iff.mp first
    obtain ⟨_, scanned, same⟩ := Option.bind_eq_some_iff.mp first
    cases same
    simp [scan, stepped, ih scanned]

theorem scan_plain (plain : Plain text) : scan (.word letters) .bare text = some ([], .word (letters ++ bare text), .bare) := by
  induction text generalizing letters with
  | nil => simp [scan, bare]
  | cons c text ih =>
    have later := @ih (letters ++ [⟨c, false⟩]) fun other member => plain other (List.mem_cons_of_mem _ member)
    simp [scan, step_word (plain c List.mem_cons_self), later, bare]

theorem lex_word_append (plain : Plain text) (rest : List Char) :
    lex (.word letters) .bare (text ++ rest) = lex (.word (letters ++ bare text)) .bare rest := by
  induction text generalizing letters with
  | nil => simp [bare]
  | cons c text ih =>
    rw [List.cons_append, lex_silent (step_word (plain c List.mem_cons_self)),
      ih fun other member => plain other (List.mem_cons_of_mem _ member)]
    simp [bare]

theorem lex_blank (letters : List Letter) (rest : List Char) :
    lex (.word letters) .bare (' ' :: rest) = (lex .nothing .bare rest).map (.word letters :: ·) := rfl

theorem Argument.begun (argument : Argument text) (rest : List Char) :
    lex .nothing .bare (text ++ rest) = lex (.word (bare text)) .bare rest := by
  cases text with
  | nil => exact absurd rfl argument.some_
  | cons c text =>
    have uncommented : c ≠ '#' := fun same => argument.uncommented (by rw [same]; rfl)
    rw [List.cons_append, lex_silent (step_begin (argument.plain c List.mem_cons_self) uncommented),
      lex_word_append fun other member => argument.plain other (List.mem_cons_of_mem _ member)]
    simp [bare]

/-- An argument between blanks is a word. -/
theorem Argument.lex (argument : Argument text) (rest : List Char) :
    lex .nothing .bare (text ++ ' ' :: rest) = (lex .nothing .bare rest).map (.word (bare text) :: ·) := by
  rw [argument.begun, lex_blank]

theorem Argument.lex_last (argument : Argument text) : Shell.lex .nothing .bare text = some [.word (bare text)] := by
  have begun := argument.begun []
  rw [List.append_nil] at begun
  rw [begun]
  exact congrArg some (close_none _)

theorem lex_double (letters : List Letter) (plain : ∀ c ∈ text, c ∉ doubleSpecial) (rest : List Char) :
    lex (.word letters) .double (text ++ '"' :: rest) = lex (.word (letters ++ text.map fun c => ⟨c, true⟩)) .bare rest := by
  induction text generalizing letters with
  | nil =>
    rw [List.nil_append, lex_silent rfl, List.map_nil, List.append_nil]
  | cons c text ih =>
    have free := plain c List.mem_cons_self
    simp only [doubleSpecial, List.mem_cons, List.not_mem_nil, or_false, not_or] at free
    have stepped : step (.word letters) .double c = some ([], .word (letters ++ [⟨c, true⟩]), .double) := by
      simp [step, free, Pending.append, Pending.letters]
    rw [List.cons_append, lex_silent stepped, ih _ fun other member => plain other (List.mem_cons_of_mem _ member)]
    simp

/-- A text between double quotes is a word. -/
theorem lex_quoted (plain : ∀ c ∈ text, c ∉ doubleSpecial) (rest : List Char) :
    lex .nothing .bare ('"' :: (text ++ '"' :: ' ' :: rest)) =
      (lex .nothing .bare rest).map (.word (text.map fun c => ⟨c, true⟩) :: ·) := by
  rw [lex_silent (show step .nothing .bare '"' = some ([], .word [], .double) from rfl), lex_double [] plain, List.nil_append,
    lex_blank]

/-! ## What a word was read from -/

/-- At least so many characters of a word are lost before it ends. -/
def Mode.loss : Mode → Nat
  | .single => 1
  | .double => 1
  | _ => 0

/-- A blank or an operator comes next, if anything does. -/
def Ends (rest : List Char) : Prop := ∀ c ∈ rest.head?, c = ' ' ∨ c = '\t' ∨ c ∈ breaking

/-- A character of a word leaves letters or is lost. -/
structure Adds (mode : Mode) (c : Char) (added : List Letter) (next : Mode) : Prop where
  sound : next ≠ .comment
  bounded : added.length + mode.loss ≤ 1 + next.loss
  exact : mode = .bare → 1 + next.loss ≤ added.length → added = [⟨c, false⟩] ∧ next = .bare ∧ c ∉ special

/-- A character goes on with the word, or ends it and is read as if there had been none. -/
theorem step_word_cases {out : List Token} {next : Mode} (sound : mode ≠ .comment)
    (stepped : step (.word letters) mode c = some (out, pending, next)) :
    (∃ added, out = [] ∧ pending = .word (letters ++ added) ∧ Adds mode c added next) ∨
      (mode = .bare ∧ out = Pending.close (.word letters) (some c) ∧ Ends [c] ∧ step .nothing .bare c = some ([], pending, next)) := by
  by_cases null : c = '\x00'
  · unfold step at stepped
    rw [if_pos null] at stepped
    cases stepped
  unfold step at stepped ⊢
  rw [if_neg null] at stepped ⊢
  cases mode with
  | bare =>
    dsimp only at stepped ⊢
    -- A quote or a backslash is lost, and a blank or an operator ends the word.
    by_cases backslash : c = '\\'
    · rw [if_pos backslash] at stepped
      cases stepped
      exact .inl ⟨[], rfl, by simp, by simp, by simp [Mode.loss], by simp⟩
    rw [if_neg backslash] at stepped ⊢
    by_cases single : c = '\''
    · rw [if_pos single] at stepped
      cases stepped
      exact .inl ⟨[], rfl, rfl, by simp, by simp [Mode.loss], by simp⟩
    rw [if_neg single] at stepped ⊢
    by_cases double : c = '"'
    · rw [if_pos double] at stepped
      cases stepped
      exact .inl ⟨[], rfl, rfl, by simp, by simp [Mode.loss], by simp⟩
    rw [if_neg double] at stepped ⊢
    by_cases expands : c = '$' ∨ c = '\x60'
    · rw [if_pos expands] at stepped
      cases stepped
    rw [if_neg expands] at stepped ⊢
    by_cases blank : c = ' ' ∨ c = '\t'
    · rw [if_pos blank] at stepped
      cases stepped
      rw [if_pos blank]
      exact .inr ⟨rfl, rfl, by simp [Ends, ← or_assoc, blank], rfl⟩
    rw [if_neg blank] at stepped ⊢
    by_cases breaks : c ∈ breaking
    · rw [if_pos breaks] at stepped
      cases stepped
      rw [if_pos breaks]
      exact .inr ⟨rfl, rfl, by simp [Ends, breaks], rfl⟩
    rw [if_neg breaks] at stepped
    cases stepped
    refine .inl ⟨[⟨c, false⟩], rfl, rfl, by simp, by simp [Mode.loss], fun _ _ => ⟨rfl, rfl, ?_⟩⟩
    rw [not_or] at expands blank
    simp [special, breaks, blank, expands, backslash, single, double, null]
  | escaped =>
    left
    dsimp only at stepped
    split at stepped
    · cases stepped
      exact ⟨[], rfl, by simp, by simp, by simp [Mode.loss], by simp⟩
    · cases stepped
      exact ⟨[⟨c, true⟩], rfl, rfl, by simp, by simp [Mode.loss], by simp⟩
  | single =>
    left
    dsimp only at stepped
    split at stepped
    · cases stepped
      exact ⟨[], rfl, by simp, by simp, by simp [Mode.loss], by simp⟩
    · cases stepped
      exact ⟨[⟨c, true⟩], rfl, rfl, by simp, by simp [Mode.loss], by simp⟩
  | double =>
    left
    dsimp only at stepped
    split at stepped
    · cases stepped
      exact ⟨[], rfl, by simp, by simp, by simp [Mode.loss], by simp⟩
    split at stepped
    · cases stepped
      exact ⟨[], rfl, by simp, by simp, by simp [Mode.loss], by simp⟩
    split at stepped
    · cases stepped
    · cases stepped
      exact ⟨[⟨c, true⟩], rfl, rfl, by simp, by simp [Mode.loss], by simp⟩
  | doubleEscaped =>
    left
    dsimp only at stepped
    split at stepped
    · cases stepped
      exact ⟨[], rfl, by simp, by simp, by simp [Mode.loss], by simp⟩
    split at stepped
    · cases stepped
      exact ⟨[⟨c, true⟩], rfl, rfl, by simp, by simp [Mode.loss], by simp⟩
    · cases stepped
      exact ⟨[⟨'\\', true⟩, ⟨c, true⟩], rfl, rfl, by simp, by simp [Mode.loss], by simp⟩
  | comment => exact absurd rfl sound

/-- The letters are what was read, or fewer of them are left. -/
structure Spells (mode : Mode) (consumed : List Char) (letters : List Letter) : Prop where
  loses : letters.length + mode.loss ≤ consumed.length
  exact : mode = .bare → consumed.length ≤ letters.length → letters = bare consumed ∧ Plain consumed

theorem spells_nil : Spells .bare [] [] := ⟨Nat.le_refl 0, fun _ _ => ⟨rfl, fun _ member => absurd member List.not_mem_nil⟩⟩

/-- A word was read from a text at least as long, with an end behind it. -/
theorem lex_word_eq_cons {whole : List Letter} {others : List Token} (sound : mode ≠ .comment)
    (read : lex (.word letters) mode text = some (.word whole :: others)) :
    ∃ more consumed rest, text = consumed ++ rest ∧ whole = letters ++ more ∧ Spells mode consumed more ∧ Ends rest ∧
      lex .nothing .bare rest = some others := by
  induction text generalizing letters mode with
  | nil =>
    cases mode with
    | bare =>
      rw [lex, close_none] at read
      cases read
      exact ⟨[], [], [], rfl, by rw [List.append_nil], spells_nil, by simp [Ends], rfl⟩
    | comment => exact absurd rfl sound
    | _ => cases read
  | cons c text ih =>
    rw [lex_cons] at read
    obtain ⟨⟨out, pending, next⟩, stepped, read⟩ := Option.bind_eq_some_iff.mp read
    obtain ⟨later, lexed, same⟩ := Option.map_eq_some_iff.mp read
    rcases step_word_cases sound stepped with ⟨added, rfl, rfl, adds⟩ | ⟨rfl, rfl, ends, anew⟩
    · obtain rfl : later = .word whole :: others := same
      obtain ⟨more, consumed, rest, rfl, rfl, spells, after⟩ := ih adds.sound lexed
      refine ⟨added ++ more, c :: consumed, rest, rfl, by rw [List.append_assoc], ⟨?_, ?_⟩, after⟩
      · have bounded := adds.bounded
        have loses := spells.loses
        rw [List.length_append, List.length_cons]
        omega
      · intro bare_ full
        have loses := spells.loses
        rw [List.length_append, List.length_cons] at full
        obtain ⟨rfl, rfl, plain⟩ := adds.exact bare_ (by omega)
        obtain ⟨rfl, others⟩ := spells.exact rfl (by simpa [Nat.add_comm] using full)
        exact ⟨rfl, List.forall_mem_cons.mpr ⟨plain, others⟩⟩
    · obtain ⟨token, closed⟩ := close_some letters (some c)
      rw [closed] at same
      obtain ⟨rfl, rfl⟩ := List.cons.inj same
      obtain rfl := close_eq_word closed
      refine ⟨[], [], c :: text, rfl, by rw [List.append_nil], spells_nil, ends, ?_⟩
      rw [lex_silent anew]
      exact lexed

/-- The last word of a line that comes out as it is written is plain. -/
theorem plain_of_lex_last {whole : List Letter} (read : lex (.word letters) .bare text = some [.word whole])
    (same : whole.map Letter.char = letters.map Letter.char ++ text) : Plain text ∧ whole = letters ++ bare text := by
  obtain ⟨more, consumed, rest, rfl, rfl, spells, -, -⟩ := lex_word_eq_cons (by simp) read
  rw [List.map_append] at same
  have same := List.append_cancel_left same
  have sized := congrArg List.length same
  rw [List.length_map, List.length_append] at sized
  obtain ⟨rfl, plain⟩ := spells.exact rfl (by omega)
  rw [chars_bare] at same
  rw [← same]
  exact ⟨plain, rfl⟩

/-- An operator has begun, or is what comes after a comment. -/
def Operating : Pending → Mode → Prop
  | .operator _, .bare => True
  | .operator _, .escaped => True
  | .nothing, .comment => True
  | _, _ => False

theorem step_operating {out : List Token} {next : Mode} {begun : Pending} (operating : Operating begun mode)
    (stepped : step begun mode c = some (out, pending, next)) :
    (out = [] ∧ Operating pending next) ∨ ∃ text, out = [.operator text] := by
  unfold step at stepped
  split at stepped
  · cases stepped
  cases begun with
  | word => exact operating.elim
  | nothing =>
    cases mode with
    | comment =>
      dsimp only at stepped
      split at stepped
      · cases stepped
        exact .inl ⟨rfl, trivial⟩
      · cases stepped
        exact .inl ⟨rfl, trivial⟩
    | _ => exact operating.elim
  | operator before =>
    cases mode with
    | escaped =>
      dsimp only at stepped
      split at stepped
      · cases stepped
        exact .inl ⟨rfl, trivial⟩
      · cases stepped
        exact .inr ⟨before, rfl⟩
    | bare =>
      dsimp only at stepped
      repeat' split at stepped
      all_goals cases stepped
      all_goals first
        | exact .inl ⟨rfl, trivial⟩
        | exact .inr ⟨before, rfl⟩
    | _ => exact operating.elim

theorem lex_operator_head {token : Token} {others : List Token} (operating : Operating pending mode)
    (read : lex pending mode text = some (token :: others)) : ∃ text, token = .operator text := by
  induction text generalizing pending mode with
  | nil =>
    cases pending with
    | word => exact operating.elim
    | nothing =>
      cases mode with
      | comment => cases read
      | _ => exact operating.elim
    | operator before =>
      cases mode with
      | bare =>
        cases read
        exact ⟨before, rfl⟩
      | escaped => cases read
      | _ => exact operating.elim
  | cons c text ih =>
    rw [lex_cons] at read
    obtain ⟨⟨out, pending, next⟩, stepped, read⟩ := Option.bind_eq_some_iff.mp read
    obtain ⟨later, lexed, same⟩ := Option.map_eq_some_iff.mp read
    rcases step_operating operating stepped with ⟨rfl, operating⟩ | ⟨before, rfl⟩
    · obtain rfl : later = token :: others := same
      exact ih operating lexed
    · exact ⟨before, (List.cons.inj same).1.symm⟩

/-- Before a word, a character is skipped, begins an operator or a comment, or is the first one of the word. -/
theorem step_nothing_cases {out : List Token} {next : Mode} (begins : mode = .bare ∨ mode = .escaped)
    (stepped : step .nothing mode c = some (out, pending, next)) :
    out = [] ∧ ((pending = .nothing ∧ next = .bare) ∨ (mode = .bare ∧ pending = .nothing ∧ next = .escaped) ∨
      Operating pending next ∨ ∃ letters, pending = .word letters ∧ Adds mode c letters next ∧ (letters ≠ [] → mode = .bare → c ≠ '#')) := by
  unfold step at stepped
  split at stepped
  · cases stepped
  rename_i null
  rcases begins with rfl | rfl
  · dsimp only at stepped
    by_cases backslash : c = '\\'
    · rw [if_pos backslash] at stepped
      cases stepped
      exact ⟨rfl, .inr (.inl ⟨rfl, rfl, rfl⟩)⟩
    rw [if_neg backslash] at stepped
    by_cases single : c = '\''
    · rw [if_pos single] at stepped
      cases stepped
      exact ⟨rfl, .inr (.inr (.inr ⟨[], rfl, ⟨by simp, by simp [Mode.loss], by simp⟩, fun none_ => absurd rfl none_⟩))⟩
    rw [if_neg single] at stepped
    by_cases double : c = '"'
    · rw [if_pos double] at stepped
      cases stepped
      exact ⟨rfl, .inr (.inr (.inr ⟨[], rfl, ⟨by simp, by simp [Mode.loss], by simp⟩, fun none_ => absurd rfl none_⟩))⟩
    rw [if_neg double] at stepped
    by_cases expands : c = '$' ∨ c = '\x60'
    · rw [if_pos expands] at stepped
      cases stepped
    rw [if_neg expands] at stepped
    by_cases blank : c = ' ' ∨ c = '\t'
    · rw [if_pos blank] at stepped
      cases stepped
      exact ⟨rfl, .inl ⟨rfl, rfl⟩⟩
    rw [if_neg blank] at stepped
    by_cases breaks : c ∈ breaking
    · rw [if_pos breaks] at stepped
      cases stepped
      exact ⟨rfl, .inr (.inr (.inl trivial))⟩
    rw [if_neg breaks] at stepped
    by_cases comment : c = '#'
    · rw [if_pos comment] at stepped
      cases stepped
      exact ⟨rfl, .inr (.inr (.inl trivial))⟩
    rw [if_neg comment] at stepped
    cases stepped
    refine ⟨rfl, .inr (.inr (.inr ⟨[⟨c, false⟩], rfl, ⟨by simp, by simp [Mode.loss], fun _ _ => ⟨rfl, rfl, ?_⟩⟩, fun _ _ => comment⟩))⟩
    rw [not_or] at expands blank
    simp [special, breaks, blank, expands, backslash, single, double, null]
  · dsimp only at stepped
    split at stepped
    · cases stepped
      exact ⟨rfl, .inl ⟨rfl, rfl⟩⟩
    · cases stepped
      exact ⟨rfl, .inr (.inr (.inr ⟨[⟨c, true⟩], rfl, ⟨by simp, by simp [Mode.loss], by simp⟩, by simp⟩))⟩

/-- A word was read behind what was skipped, from a text at least as long. -/
structure Behind (skipping : Prop) (text : List Char) (whole : List Letter) (rest skipped consumed : List Char) : Prop where
  split : text = skipped ++ consumed ++ rest
  loses : whole.length ≤ consumed.length
  exact : skipping ∨ skipped ≠ [] → consumed.length ≤ whole.length → whole = bare consumed ∧ Argument consumed
  ends : Ends rest

theorem lex_nothing_behind {whole : List Letter} {others : List Token} (begins : mode = .bare ∨ mode = .escaped)
    (read : lex .nothing mode text = some (.word whole :: others)) :
    ∃ skipped consumed rest, Behind (mode = .bare) text whole rest skipped consumed ∧ lex .nothing .bare rest = some others := by
  induction text generalizing mode with
  | nil => rcases begins with rfl | rfl <;> cases read
  | cons c text ih =>
    rw [lex_cons] at read
    obtain ⟨⟨out, pending, next⟩, stepped, read⟩ := Option.bind_eq_some_iff.mp read
    obtain ⟨later, lexed, same⟩ := Option.map_eq_some_iff.mp read
    obtain ⟨rfl, skips | escapes | operating | ⟨letters, rfl, adds, uncommented⟩⟩ := step_nothing_cases begins stepped
    · obtain ⟨rfl, rfl⟩ := skips
      obtain rfl : later = .word whole :: others := same
      obtain ⟨skipped, consumed, rest, behind, after⟩ := ih (.inl rfl) lexed
      exact ⟨c :: skipped, consumed, rest, ⟨by rw [behind.split]; rfl, behind.loses, fun _ => behind.exact (.inl rfl), behind.ends⟩, after⟩
    · obtain ⟨rfl, rfl, rfl⟩ := escapes
      obtain rfl : later = .word whole :: others := same
      obtain ⟨skipped, consumed, rest, behind, after⟩ := ih (.inr rfl) lexed
      -- Only a joined line leaves nothing of the backslash in the word.
      by_cases none_ : skipped = []
      · subst none_
        refine ⟨[], c :: consumed, rest, ⟨by rw [behind.split]; rfl, Nat.le_succ_of_le behind.loses, fun _ full => ?_, behind.ends⟩, after⟩
        exact absurd (Nat.le_trans full behind.loses) (by simp)
      · exact ⟨c :: skipped, consumed, rest, ⟨by rw [behind.split]; rfl, behind.loses, fun _ => behind.exact (.inr none_), behind.ends⟩, after⟩
    · obtain rfl : later = .word whole :: others := same
      obtain ⟨_, none_⟩ := lex_operator_head operating lexed
      cases none_
    · obtain rfl : later = .word whole :: others := same
      obtain ⟨more, consumed, rest, rfl, rfl, spells, ends, after⟩ := lex_word_eq_cons adds.sound lexed
      have bounded := adds.bounded
      have loses := spells.loses
      refine ⟨[], c :: consumed, rest, ⟨rfl, ?_, fun skipping full => ?_, ends⟩, after⟩
      · rw [List.length_append, List.length_cons]
        omega
      · rw [List.length_append, List.length_cons] at full
        have bare_ := skipping.resolve_right fun some_ => some_ rfl
        obtain ⟨rfl, rfl, plain⟩ := adds.exact bare_ (by omega)
        obtain ⟨rfl, others⟩ := spells.exact rfl (by simpa [Nat.add_comm] using full)
        exact ⟨rfl, by simp, List.forall_mem_cons.mpr ⟨plain, others⟩, by simpa using uncommented (by simp) bare_⟩

/-- A word that comes next is behind a blank, if it is behind the end of another one. -/
theorem lex_ends {whole : List Letter} {others : List Token} (ends : Ends rest)
    (read : lex .nothing .bare rest = some (.word whole :: others)) :
    ∃ c later, rest = c :: later ∧ lex .nothing .bare later = some (.word whole :: others) := by
  cases rest with
  | nil => cases read
  | cons c later =>
    refine ⟨c, later, rfl, ?_⟩
    rcases ends c rfl with rfl | rfl | breaks
    · rw [← read, lex_silent rfl]
    · rw [← read, lex_silent rfl]
    · have begun : step .nothing .bare c = some ([], .operator [c], .bare) := by
        simp only [breaking, List.mem_cons, List.not_mem_nil, or_false] at breaks
        rcases breaks with rfl | rfl | rfl | rfl | rfl | rfl | rfl | rfl <;> rfl
      rw [lex_silent begun] at read
      obtain ⟨_, none_⟩ := lex_operator_head (show Operating (.operator [c]) .bare from trivial) read
      cases none_

/-- The last two words of a line that come out as they are written, with one blank between them, are arguments. -/
theorem arguments_of_lex_pair {first second : List Letter} {left right : List Char}
    (read : lex .nothing .bare (left ++ ' ' :: right) = some [.word first, .word second])
    (one : first.map Letter.char = left) (other : second.map Letter.char = right) :
    Argument left ∧ Argument right ∧ first = bare left ∧ second = bare right := by
  obtain ⟨skipped, consumed, rest, behind, read⟩ := lex_nothing_behind (.inl rfl) read
  obtain ⟨c, later, rfl, next⟩ := lex_ends behind.ends read
  obtain ⟨skipped', consumed', rest', behind', -⟩ := lex_nothing_behind (.inl rfl) next
  -- Nothing is left to be skipped or lost.
  have sized := congrArg List.length behind.split
  have sized' := congrArg List.length behind'.split
  have loses := behind.loses
  have loses' := behind'.loses
  have left_ := congrArg List.length one
  have right_ := congrArg List.length other
  simp only [List.length_append, List.length_cons, List.length_map] at sized sized' left_ right_
  obtain ⟨rfl, argument⟩ := behind.exact (.inl rfl) (by omega)
  obtain ⟨rfl, argument'⟩ := behind'.exact (.inl rfl) (by omega)
  rw [chars_bare] at one other
  subst one other
  exact ⟨argument, argument', rfl, rfl⟩

/-! ## What is read -/

theorem literal_eq_some : literal letters = some text ↔
    letters.map Letter.char = text ∧ isPattern letters = false ∧ ∀ letter ∈ letters.head?, letter.is '~' = false := by
  unfold literal
  cases isPattern letters <;> cases letters.head? <;> simp [and_comm]

theorem isPattern_free (free : ∀ letter ∈ letters, letter.quoted = true ∨ letter.char ∉ ['*', '?', '[']) :
    isPattern letters = false := by
  induction letters with
  | nil => rfl
  | cons letter rest ih =>
    rw [isPattern, ih fun other member => free other (List.mem_cons_of_mem _ member)]
    rcases free letter List.mem_cons_self with quoted | other
    · simp [Letter.is, quoted]
    · simp only [List.mem_cons, List.not_mem_nil, or_false, not_or] at other
      simp [Letter.is, other]

/-- What is quoted stands for itself. -/
theorem literal_quoted (text : List Char) : literal (text.map fun c => ⟨c, true⟩) = some text := by
  refine literal_eq_some.mpr ⟨?_, isPattern_free ?_, ?_⟩
  · rw [List.map_map]
    exact List.map_id text
  · intro letter member
    obtain ⟨c, -, rfl⟩ := List.mem_map.mp member
    exact .inl rfl
  · cases text <;> simp [Letter.is]

theorem literal_bare : literal (bare text) = some text ↔ isPattern (bare text) = false ∧ text.head? ≠ some '~' := by
  rw [literal_eq_some, chars_bare]
  cases text <;> simp [bare, Letter.is]

theorem parse_words {words : List (List Letter)} {line : List Token} (parsed : parse line = some (⟨words, []⟩, [])) :
    line = words.map Token.word := by
  induction line generalizing words with
  | nil =>
    cases parsed
    rfl
  | cons token rest ih =>
    cases token with
    | word letters =>
      obtain ⟨⟨command, others⟩, read, same⟩ := Option.map_eq_some_iff.mp parsed
      obtain ⟨words', redirections⟩ := command
      cases same
      rw [List.map_cons, ih read]
    | number digits =>
      unfold parse at parsed
      split at parsed
      · split at parsed
        · obtain ⟨chain, -, same⟩ := Option.map_eq_some_iff.mp parsed
          cases same
        · cases parsed
      · cases parsed
    | operator text =>
      unfold parse at parsed
      split at parsed
      · obtain ⟨chain, -, same⟩ := Option.map_eq_some_iff.mp parsed
        cases same
      · split at parsed
        · split at parsed
          · obtain ⟨chain, -, same⟩ := Option.map_eq_some_iff.mp parsed
            cases same
          · cases parsed
        · cases parsed

/-- A command begins with the name of a program. -/
def Program (words : List (List Letter)) : Prop :=
  ∃ first rest, words = first :: rest ∧ first ∉ reserved.map bare ∧ assigns first = false

theorem Simple.read_eq_some {command : Simple} {invocation : Invocation} (read : command.read = some invocation) :
    Program command.words ∧ command.words.mapM literal = some invocation.arguments ∧
      command.redirections.mapM Redirection.read = some invocation.redirections := by
  unfold Simple.read at read
  split at read
  · cases read
  · rename_i first rest named
    split at read
    · cases read
    · rename_i free
      rw [not_or] at free
      refine ⟨⟨first, rest, named, free.1, by simpa using free.2⟩, ?_⟩
      obtain ⟨arguments, one, read⟩ := Option.bind_eq_some_iff.mp read
      obtain ⟨redirections, other, read⟩ := Option.bind_eq_some_iff.mp read
      cases read
      exact ⟨one, other⟩

theorem mapM_eq_nil {α β : Type} {f : α → Option β} {xs : List α} (none_ : xs.mapM f = some []) : xs = [] := by
  cases xs with
  | nil => rfl
  | cons x xs =>
    rw [List.mapM_cons] at none_
    obtain ⟨y, -, none_⟩ := Option.bind_eq_some_iff.mp none_
    obtain ⟨ys, -, none_⟩ := Option.bind_eq_some_iff.mp none_
    cases none_

theorem parse_map_word (words : List (List Letter)) : parse (words.map Token.word) = some (⟨words, []⟩, []) := by
  induction words with
  | nil => rfl
  | cons letters words ih =>
    rw [List.map_cons, parse, ih]
    rfl

theorem parse_joined (words : List (List Letter)) {joint : List Char} (joins : joint ∈ joining) (tokens : List Token) :
    parse (words.map Token.word ++ .operator joint :: tokens) =
      (parse tokens).map fun chain => (⟨words, []⟩, (joint, chain.1) :: chain.2) := by
  induction words with
  | nil =>
    rw [List.map_nil, List.nil_append, parse.eq_def]
    exact if_pos joins
  | cons letters words ih =>
    rw [List.map_cons, List.cons_append, parse, ih, Option.map_map]
    rfl

theorem Simple.read_of {words : List (List Letter)} {redirections : List Redirection} {invocation : Invocation} (program : Program words)
    (arguments : words.mapM literal = some invocation.arguments)
    (redirected : redirections.mapM Redirection.read = some invocation.redirections) :
    Simple.read ⟨words, redirections⟩ = some invocation := by
  obtain ⟨first, rest, rfl, free, unassigned⟩ := program
  have named : ¬(first ∈ reserved.map bare ∨ assigns first = true) := by simp [free, unassigned]
  unfold Simple.read
  dsimp only
  rw [if_neg named, arguments, redirected]
  rfl

/-- A line is one command without redirections exactly when its tokens are words that stand for themselves. -/
theorem reading_words {arguments : List (List Char)} : reading line = some (⟨arguments, []⟩, []) ↔
    ∃ words : List (List Letter), tokensOf line = some (words.map Token.word) ∧ Program words ∧ words.mapM literal = some arguments := by
  constructor
  · intro read_
    obtain ⟨cut, lexed, read_⟩ := Option.bind_eq_some_iff.mp read_
    obtain ⟨⟨⟨words, redirections⟩, others⟩, parsed, read_⟩ := Option.bind_eq_some_iff.mp read_
    obtain ⟨first, one, read_⟩ := Option.bind_eq_some_iff.mp read_
    obtain ⟨rest, more, read_⟩ := Option.bind_eq_some_iff.mp read_
    cases read_
    obtain ⟨program, literals, redirected⟩ := Simple.read_eq_some one
    obtain rfl := mapM_eq_nil redirected
    obtain rfl := mapM_eq_nil more
    rw [parse_words parsed] at lexed
    exact ⟨words, lexed, program, literals⟩
  · rintro ⟨words, lexed, program, literals⟩
    have alone : Simple.read ⟨words, []⟩ = some ⟨arguments, []⟩ := Simple.read_of program literals rfl
    unfold reading
    rw [lexed, Option.bind_eq_bind, Option.bind_some, parse_map_word, Option.bind_eq_bind, Option.bind_some, Shell.read, alone]
    rfl

theorem reading_pair {cut : List Token} {one other : Simple} {joint : List Char} {first second : Invocation}
    (lexed : tokensOf line = some cut) (parsed : parse cut = some (one, [(joint, other)]))
    (first_ : one.read = some first) (second_ : other.read = some second) : reading line = some (first, [(joint, second)]) := by
  unfold reading
  rw [lexed, Option.bind_eq_bind, Option.bind_some, parsed, Option.bind_eq_bind, Option.bind_some, Shell.read, first_]
  simp [second_]

/-- A program joined to what the rest of the line is. -/
theorem reading_joined {words : List (List Letter)} {joint : List Char} {invocation : Invocation} (joins : joint ∈ joining)
    (lexed : tokensOf line = (tokensOf rest).map (words.map Token.word ++ [.operator joint] ++ ·))
    (alone : Simple.read ⟨words, []⟩ = some invocation) :
    reading line = (reading rest).map fun chain => (invocation, (joint, chain.1) :: chain.2) := by
  unfold reading
  rw [lexed]
  cases tokensOf rest with
  | none => rfl
  | some tokens =>
    simp only [Option.map_some, Option.bind_eq_bind, Option.bind_some, List.append_assoc, List.singleton_append, parse_joined words joins]
    cases parse tokens with
    | none => rfl
    | some chain =>
      simp only [Option.map_some, Option.bind_some, Shell.read, alone, List.mapM_cons]
      cases chain.1.read with
      | none => rfl
      | some first => cases chain.2.mapM fun other => other.2.read.map (other.1, ·) <;> rfl

end Shell
end Foundation
