import AiryFS.Foundation.Quoting
import AiryFS.Foundation.WhiteSpace
import AiryFS.Storage.Values

/-! The command line of the shell: its tokens, the word that is completed, and how completions are written.

Three scanners read the same quotes, each with its own state. They agree on every line but for one: the part in
front of the word is trimmed, and with it white space that was escaped.
-/

set_option autoImplicit false

namespace AiryFS

open Foundation WhiteSpace

/-! ## The tokenizer -/

inductive QuoteKind where
  | single
  | double
  deriving DecidableEq, Repr

structure TokenizeState where
  tokens : List Text
  token : Text
  quote : Option QuoteKind
  escaped : Bool
  started : Bool
  deriving DecidableEq, Repr

namespace TokenizeState

def initial : TokenizeState := ⟨[], [], none, false, false⟩

def next (state : TokenizeState) (character : Char) : TokenizeState :=
  if state.escaped then { state with token := state.token ++ [character], escaped := false, started := true }
  else if character = '\\' ∧ state.quote ≠ some .single then { state with escaped := true, started := true }
  else if character = '\'' ∧ state.quote ≠ some .double then
    { state with quote := if state.quote = some .single then none else some .single, started := true }
  else if character = '"' ∧ state.quote ≠ some .single then
    { state with quote := if state.quote = some .double then none else some .double, started := true }
  else if isBlank character ∧ state.quote = none then
    { state with tokens := if state.started then state.tokens ++ [state.token] else state.tokens, token := [], started := false }
  else { state with token := state.token ++ [character], started := true }

def finish (state : TokenizeState) : Except String (List Text) :=
  if state.escaped then .error "Trailing escape character"
  else if state.quote.isSome then .error "Unterminated quote"
  else .ok (if state.started then state.tokens ++ [state.token] else state.tokens)

end TokenizeState

def tokenize (input : Text) : Except String (List Text) := (input.foldl TokenizeState.next .initial).finish

/-! ## The completed word -/

/-- The first loop: where the word starts. -/
structure WordScan where
  index : Nat
  start : Nat
  quote : Option Char
  escaped : Bool
  deriving DecidableEq, Repr

def WordScan.next (scan : WordScan) (character : Char) : WordScan :=
  let scan := { scan with index := scan.index + 1 }
  if scan.escaped then { scan with escaped := false }
  else if character = '\\' ∧ scan.quote ≠ some '\'' then { scan with escaped := true }
  else if (character = '\'' ∨ character = '"') ∧ (scan.quote = none ∨ scan.quote = some character) then
    { scan with quote := if scan.quote.isSome then none else some character }
  else if isBlank character ∧ scan.quote = none then { scan with start := scan.index }
  else scan

/-- The second loop: the word without its marks. -/
structure WordValue where
  value : Text
  quote : Option Char
  escaped : Bool
  deriving DecidableEq, Repr

def WordValue.next (word : WordValue) (character : Char) : WordValue :=
  if word.escaped then { word with value := word.value ++ [character], escaped := false }
  else if character = '\\' ∧ word.quote ≠ some '\'' then { word with escaped := true }
  else if (character = '\'' ∨ character = '"') ∧ (word.quote = none ∨ word.quote = some character) then
    { word with quote := if word.quote.isSome then none else some character }
  else { word with value := word.value ++ [character] }

structure CompletionToken where
  before : Text
  raw : Text
  value : Text
  quote : Option QuoteKind
  deriving DecidableEq, Repr

def completionToken (line : Text) : CompletionToken :=
  let start := (line.foldl WordScan.next ⟨0, 0, none, false⟩).start
  let raw := line.drop start
  let word := raw.foldl WordValue.next ⟨[], none, false⟩
  let quote : Option QuoteKind :=
    match raw.head? with
    | some '\'' => some .single
    | some '"' => some .double
    | _ => none
  { before := trim (line.take start), raw, value := if word.escaped then word.value ++ ['\\'] else word.value, quote }

/-- Both kinds of quote give double quotes. -/
def formatCompletion (value : Text) (quote : Option QuoteKind) : Text :=
  match quote with
  | some _ =>
    '"' :: (value.flatMap fun character => if character ∈ ['\\', '"', '$', '\x60'] then ['\\', character] else [character]) ++ ['"']
  | none => value.flatMap fun character =>
    if isBlank character ∨ character ∈ ['\\', '\'', '"', '$', '\x60'] then ['\\', character] else [character]

/-! ## The three scanners -/

def QuoteKind.mark : QuoteKind → Char
  | .single => '\''
  | .double => '"'

namespace TokenizeState

def quoting (state : TokenizeState) : Quoting := ⟨state.quote.map QuoteKind.mark, state.escaped⟩

theorem marksSolid : Quoting.MarksSolid isBlank := ⟨by decide, by decide, by decide⟩

/-- The tokens, if the word ends here. -/
def flushed (state : TokenizeState) : List Text := if state.started then state.tokens ++ [state.token] else state.tokens

theorem quote_plain {state : TokenizeState} (plain : state.quoting = .plain) : state.quote = none ∧ state.escaped = false := by
  unfold quoting at plain
  rw [Quoting.plain, Quoting.mk.injEq, Option.map_eq_none_iff] at plain
  exact plain

/-- White space between words ends one. -/
theorem next_separator {state : TokenizeState} {c : Char} (plain : state.quoting = .plain) (blank : isBlank c = true) :
    state.next c = ⟨state.flushed, [], none, false, false⟩ := by
  obtain ⟨quote, escaped⟩ := quote_plain plain
  have apart : ∀ mark, isBlank mark = false → c ≠ mark := by
    rintro mark solid rfl
    rw [solid] at blank
    cases blank
  unfold next
  rw [escaped, quote, if_neg (by decide), if_neg fun both => apart '\\' (by decide) both.1,
    if_neg fun both => apart '\'' (by decide) both.1, if_neg fun both => apart '"' (by decide) both.1, if_pos ⟨blank, rfl⟩]
  rfl

/-- Any other character belongs to the word. -/
theorem next_word {state : TokenizeState} {c : Char} (joins : ¬(state.quoting = .plain ∧ isBlank c = true)) :
    (state.next c).tokens = state.tokens ∧ (state.next c).token = state.token ++ state.quoting.emit c ∧
      (state.next c).started = true ∧ (state.next c).quoting = state.quoting.next c := by
  obtain ⟨tokens, token, quote, escaped, started⟩ := state
  cases escaped with
  | true => exact ⟨rfl, rfl, rfl, rfl⟩
  | false =>
    rcases quote with _ | _ | _
    · have solid : isBlank c = false := by simpa [quoting, Quoting.plain] using joins
      by_cases backslash : c = '\\'
      · subst backslash
        exact ⟨rfl, by simp [next, Quoting.emit, quoting], rfl, by simp [next, Quoting.next, quoting]⟩
      · by_cases single : c = '\''
        · subst single
          exact ⟨rfl, by simp [next, Quoting.emit, quoting], rfl, by simp [next, Quoting.next, quoting, QuoteKind.mark]⟩
        · by_cases double : c = '"'
          · subst double
            exact ⟨rfl, by simp [next, Quoting.emit, quoting], rfl, by simp [next, Quoting.next, quoting, QuoteKind.mark]⟩
          · simp [next, Quoting.emit, Quoting.next, quoting, backslash, single, double, solid]
    · by_cases single : c = '\''
      · subst single
        simp [next, Quoting.emit, Quoting.next, quoting, QuoteKind.mark]
      · have other : '\'' ≠ c := Ne.symm single
        simp [next, Quoting.emit, Quoting.next, quoting, QuoteKind.mark, single, other]
    · by_cases backslash : c = '\\'
      · subst backslash
        simp [next, Quoting.emit, Quoting.next, quoting, QuoteKind.mark]
      · by_cases double : c = '"'
        · subst double
          simp [next, Quoting.emit, Quoting.next, quoting, QuoteKind.mark]
        · have other : '"' ≠ c := Ne.symm double
          simp [next, Quoting.emit, Quoting.next, quoting, QuoteKind.mark, backslash, double, other]

theorem next_quoting (state : TokenizeState) (c : Char) : (state.next c).quoting = state.quoting.next c := by
  by_cases separates : state.quoting = .plain ∧ isBlank c = true
  · rw [next_separator separates.1 separates.2, separates.1, Quoting.next_blank marksSolid separates.2]
    rfl
  · exact (next_word separates).2.2.2

theorem foldl_quoting (state : TokenizeState) (text : Text) : (text.foldl next state).quoting = state.quoting.scan text := by
  induction text generalizing state with
  | nil => rfl
  | cons c text ih => rw [List.foldl_cons, ih, next_quoting, Quoting.scan_cons]

/-- A word is read without its marks. -/
theorem foldl_solid {state : TokenizeState} {text : Text} (solid : Quoting.Solid isBlank state.quoting text) :
    (text.foldl next state).tokens = state.tokens ∧ (text.foldl next state).token = state.token ++ state.quoting.decode text ∧
      (text.foldl next state).started = (state.started || !text.isEmpty) := by
  induction text generalizing state with
  | nil => exact ⟨rfl, (List.append_nil _).symm, by simp⟩
  | cons c text ih =>
    obtain ⟨tokens, token, started, quoting⟩ := next_word solid.1
    obtain ⟨tokens', token', started'⟩ := @ih (state.next c) (by rw [quoting]; exact solid.2)
    rw [List.foldl_cons, tokens', token', started', tokens, token, started, quoting, Quoting.decode, List.append_assoc]
    exact ⟨rfl, rfl, by simp⟩

theorem foldl_blanks {state : TokenizeState} {text : Text} (plain : state.quoting = .plain) (some_ : text ≠ [])
    (blanks : ∀ c ∈ text, isBlank c = true) : text.foldl next state = ⟨state.flushed, [], none, false, false⟩ := by
  induction text generalizing state with
  | nil => exact absurd rfl some_
  | cons c text ih =>
    rw [List.foldl_cons, next_separator plain (blanks c List.mem_cons_self)]
    cases text with
    | nil => rfl
    | cons d text => exact ih rfl (List.cons_ne_nil _ _) fun c member => blanks c (List.mem_cons_of_mem _ member)

theorem foldl_leading {text : Text} (blanks : ∀ c ∈ text, isBlank c = true) : text.foldl next initial = initial := by
  by_cases none_ : text = []
  · rw [none_]
    rfl
  · exact foldl_blanks rfl none_ blanks

/-- A line that is balanced has tokens. -/
theorem finish_plain {state : TokenizeState} (plain : state.quoting = .plain) : state.finish = .ok state.flushed := by
  obtain ⟨quote, escaped⟩ := quote_plain plain
  rw [finish, escaped, quote, if_neg (by decide), if_neg (by decide), flushed]

end TokenizeState

namespace WordScan

def quoting (scan : WordScan) : Quoting := ⟨scan.quote, scan.escaped⟩

theorem next_eq (scan : WordScan) (c : Char) : (scan.next c).index = scan.index + 1 ∧
    (scan.next c).start = (if scan.quoting = .plain ∧ isBlank c = true then scan.index + 1 else scan.start) ∧
    (scan.next c).quoting = scan.quoting.next c := by
  obtain ⟨index, start, quote, escaped⟩ := scan
  by_cases separates : Quoting.mk quote escaped = .plain ∧ isBlank c = true
  · obtain ⟨plain, blank⟩ := separates
    rw [Quoting.plain, Quoting.mk.injEq] at plain
    obtain ⟨rfl, rfl⟩ := plain
    have apart : ∀ mark, isBlank mark = false → c ≠ mark := by
      rintro mark solid rfl
      rw [solid] at blank
      cases blank
    have backslash := apart '\\' (by decide)
    have single := apart '\'' (by decide)
    have double := apart '"' (by decide)
    simp [next, quoting, Quoting.next, Quoting.plain, blank, backslash, single, double]
  · unfold quoting
    rw [if_neg separates]
    cases escaped with
    | true => exact ⟨rfl, rfl, rfl⟩
    | false =>
      have free : ¬false = true := by decide
      unfold next Quoting.next
      dsimp only
      rw [if_neg free, if_neg free]
      split
      · exact ⟨rfl, rfl, rfl⟩
      · split
        · exact ⟨rfl, rfl, rfl⟩
        · rw [if_neg]
          · exact ⟨rfl, rfl, rfl⟩
          · rintro ⟨blank, rfl⟩
            exact separates ⟨rfl, blank⟩

/-- The first loop finds where the last word starts. -/
theorem foldl_cut (line : Text) : (line.foldl next ⟨0, 0, none, false⟩).index = line.length ∧
    (line.foldl next ⟨0, 0, none, false⟩).quoting = Quoting.plain.scan line ∧
    Quoting.Cut isBlank line (line.foldl next ⟨0, 0, none, false⟩).start := by
  induction line using List.reverseRecOn with
  | nil => exact ⟨rfl, rfl, .nil⟩
  | append_singleton line c ih =>
    obtain ⟨index, quoting, cut⟩ := ih
    obtain ⟨index', start', quoting'⟩ := next_eq (line.foldl next ⟨0, 0, none, false⟩) c
    rw [List.foldl_append, List.foldl_cons, List.foldl_nil, index', start', quoting', index, quoting, Quoting.scan_append,
      List.length_append]
    exact ⟨rfl, rfl, cut.snoc TokenizeState.marksSolid c⟩

end WordScan

namespace WordValue

def quoting (word : WordValue) : Quoting := ⟨word.quote, word.escaped⟩

theorem next_eq (word : WordValue) (c : Char) : (word.next c).value = word.value ++ word.quoting.emit c ∧
    (word.next c).quoting = word.quoting.next c := by
  obtain ⟨value, quote, escaped⟩ := word
  cases escaped with
  | true => exact ⟨rfl, rfl⟩
  | false =>
    have free : ¬false = true := by decide
    unfold next quoting Quoting.next Quoting.emit
    dsimp only
    rw [if_neg free, if_neg free, if_neg free]
    split
    · exact ⟨(List.append_nil _).symm, rfl⟩
    · split
      · exact ⟨(List.append_nil _).symm, rfl⟩
      · exact ⟨rfl, rfl⟩

theorem foldl_eq (word : WordValue) (text : Text) : (text.foldl next word).value = word.value ++ word.quoting.decode text ∧
    (text.foldl next word).quoting = word.quoting.scan text := by
  induction text generalizing word with
  | nil => exact ⟨(List.append_nil _).symm, rfl⟩
  | cons c text ih =>
    obtain ⟨value, quoting⟩ := next_eq word c
    rw [List.foldl_cons, (ih _).1, (ih _).2, value, quoting, Quoting.decode, List.append_assoc]
    exact ⟨rfl, rfl⟩

end WordValue

/-! ## What is asked of them -/

/-- Every quote is closed, and no escape is open. -/
def QuotesClosed (line : Text) : Prop := Quoting.plain.scan line = .plain

instance (line : Text) : Decidable (QuotesClosed line) := inferInstanceAs (Decidable (_ = _))

/-- The tokens of a line are those in front of the word and the word. -/
def CompletionAgrees (line : Text) : Prop :=
  let word := completionToken line
  ∃ tokens, tokenize word.before = .ok tokens ∧ tokenize line = .ok (tokens ++ if word.raw = [] then [] else [word.value])

/-- The white space in front of the last word starts with a character that is escaped. -/
def EscapedBlank (line : Text) : Prop := ∃ front blank blanks word, line = front ++ '\\' :: blank :: blanks ++ word ∧
  Quoting.plain.scan front = .plain ∧ isBlank blank = true ∧ blanks ≠ [] ∧ (∀ c ∈ blanks, isBlank c = true) ∧
  Quoting.Solid isBlank .plain word

/-! ## The part in front of the word -/

section

variable {line : Text} {start : Nat} {tokens : List Text}

/-- In front of the last word nothing is open. -/
theorem cut_read (cut : Quoting.Cut isBlank line start) :
    ∃ tokens, (line.take start).foldl TokenizeState.next .initial = ⟨tokens, [], none, false, false⟩ := by
  rcases cut.ends with rfl | ⟨front, c, shape, blank, neutral⟩
  · exact ⟨[], rfl⟩
  · rw [shape, List.foldl_append, List.foldl_cons, List.foldl_nil]
    have plain : (front.foldl TokenizeState.next .initial).quoting = .plain := by
      rw [TokenizeState.foldl_quoting]
      exact neutral
    exact ⟨_, TokenizeState.next_separator plain blank⟩

/-- The last word of a balanced line is its last token. -/
theorem tokenize_cut (balanced : QuotesClosed line) (cut : Quoting.Cut isBlank line start)
    (read : (line.take start).foldl TokenizeState.next .initial = ⟨tokens, [], none, false, false⟩) :
    tokenize line = .ok (tokens ++ if line.drop start = [] then [] else [Quoting.plain.decode (line.drop start)]) := by
  have whole : line.foldl TokenizeState.next .initial =
      (line.drop start).foldl TokenizeState.next ⟨tokens, [], none, false, false⟩ := by
    conv => lhs; rw [← List.take_append_drop start line, List.foldl_append, read]
  have plain : (line.foldl TokenizeState.next .initial).quoting = .plain := by
    rw [TokenizeState.foldl_quoting]
    exact balanced
  obtain ⟨tokens', token', started'⟩ := @TokenizeState.foldl_solid ⟨tokens, [], none, false, false⟩ (line.drop start) cut.solid
  rw [tokenize, TokenizeState.finish_plain plain, TokenizeState.flushed, whole, tokens', token', started']
  cases line.drop start with
  | nil => exact congrArg Except.ok (List.append_nil tokens).symm
  | cons c word => rfl

theorem completionToken_eq (balanced : QuotesClosed line) : ∃ start, Quoting.Cut isBlank line start ∧
    (completionToken line).before = trim (line.take start) ∧ (completionToken line).raw = line.drop start ∧
    (completionToken line).value = Quoting.plain.decode (line.drop start) := by
  obtain ⟨-, -, cut⟩ := WordScan.foldl_cut line
  refine ⟨_, cut, rfl, rfl, ?_⟩
  obtain ⟨value, quoting⟩ := WordValue.foldl_eq ⟨[], none, false⟩ (line.drop (line.foldl WordScan.next ⟨0, 0, none, false⟩).start)
  have closed : Quoting.plain.scan (line.drop (line.foldl WordScan.next ⟨0, 0, none, false⟩).start) = .plain := by
    rw [← cut.scan]
    exact balanced
  unfold completionToken
  dsimp only
  generalize (line.drop (line.foldl WordScan.next ⟨0, 0, none, false⟩).start).foldl WordValue.next ⟨[], none, false⟩ = word
    at value quoting ⊢
  have free : word.escaped = false := congrArg Quoting.escaped (quoting.trans closed)
  rw [if_neg (by rw [free]; decide), value]
  rfl

/-- Trimmed, it has the same tokens, unless an escape has lost its character. -/
theorem tokenize_trim {text : Text} (read : text.foldl TokenizeState.next .initial = ⟨tokens, [], none, false, false⟩) :
    tokenize (trim text) =
      if (Quoting.plain.scan (trim text)).escaped = true then .error "Trailing escape character" else .ok tokens := by
  obtain ⟨front, behind, shape, leading, trailing⟩ := trim_parts text
  have quoting : ((trim text).foldl TokenizeState.next .initial).quoting = Quoting.plain.scan (trim text) :=
    TokenizeState.foldl_quoting _ _
  have rest : behind.foldl TokenizeState.next ((trim text).foldl TokenizeState.next .initial) = ⟨tokens, [], none, false, false⟩ := by
    have whole := read
    rw [shape, List.foldl_append, List.foldl_append, TokenizeState.foldl_leading leading] at whole
    exact whole
  rw [← quoting, tokenize]
  generalize (trim text).foldl TokenizeState.next .initial = state at rest
  by_cases escaped : state.escaped = true
  · rw [TokenizeState.finish, if_pos escaped]
    exact (if_pos escaped).symm
  · rw [if_neg (show ¬state.quoting.escaped = true from escaped)]
    cases behind with
    | nil =>
      rw [show state = _ from rest]
      rfl
    | cons c behind =>
      have closing := TokenizeState.foldl_quoting state (c :: behind)
      rw [rest, Quoting.scan_blanks TokenizeState.marksSolid (List.cons_ne_nil _ _) trailing] at closing
      have plain : state.quoting = .plain := by
        have quote := congrArg Quoting.quote closing
        exact congr (congrArg Quoting.mk quote.symm) (by simpa using escaped)
      rw [TokenizeState.foldl_blanks plain (List.cons_ne_nil _ _) trailing, TokenizeState.mk.injEq] at rest
      rw [TokenizeState.finish_plain plain, rest.1]

theorem scan_leading {text : Text} (blanks : ∀ c ∈ text, isBlank c = true) : Quoting.plain.scan text = .plain := by
  by_cases none_ : text = []
  · rw [none_]
    rfl
  · exact Quoting.scan_blanks TokenizeState.marksSolid none_ blanks

/-- An escape loses its character to the trimming. -/
theorem escapedBlank_iff (cut : Quoting.Cut isBlank line start) :
    EscapedBlank line ↔ (Quoting.plain.scan (trim (line.take start))).escaped = true := by
  constructor
  · rintro ⟨front, blank, blanks, word, rfl, neutral, blank_, some_, blanks_, solid⟩
    have all : ∀ c ∈ blank :: blanks, isBlank c = true := List.forall_mem_cons.mpr ⟨blank_, blanks_⟩
    have taken : (front ++ '\\' :: blank :: blanks ++ word).take (front ++ '\\' :: blank :: blanks).length =
        front ++ '\\' :: blank :: blanks := List.take_left
    have closed : ∀ more : Text, (∀ c ∈ more, isBlank c = true) →
        Quoting.plain.scan (front ++ '\\' :: blank :: more) = .plain := by
      intro more blanks
      rw [Quoting.scan_append, neutral, Quoting.scan_cons, Quoting.scan_cons]
      exact scan_leading blanks
    have here : Quoting.Cut isBlank (front ++ '\\' :: blank :: blanks ++ word) (front ++ '\\' :: blank :: blanks).length := by
      refine ⟨by simp, by rw [taken]; exact closed blanks blanks_, by rw [List.drop_left]; exact solid, .inr ?_⟩
      refine ⟨front ++ '\\' :: blank :: blanks.dropLast, blanks.getLast some_, ?_, blanks_ _ (List.getLast_mem some_),
        closed _ fun c member => blanks_ c (List.dropLast_subset _ member)⟩
      rw [taken, List.append_assoc, List.cons_append, List.cons_append, List.dropLast_append_getLast some_]
    have parts : front.takeWhile isBlank ++ front.dropWhile isBlank = front := List.takeWhile_append_dropWhile
    have inner : Quoting.plain.scan (front.dropWhile isBlank) = .plain := by
      rw [← parts, Quoting.scan_append, scan_leading fun c member => List.mem_takeWhile_imp member] at neutral
      exact neutral
    rw [Quoting.Cut.unique cut here, taken, trim_append (by decide) all, Quoting.scan_append, inner]
    rfl
  · intro escaped
    obtain ⟨front, behind, shape, leading, trailing⟩ := trim_parts (line.take start)
    generalize trim (line.take start) = word at escaped shape
    cases word using List.reverseRecOn with
    | nil => cases escaped
    | append_singleton word c =>
      rw [Quoting.scan_append, Quoting.scan_cons, Quoting.scan_nil] at escaped
      obtain ⟨rfl, free, quote⟩ := Quoting.next_escaped escaped
      have ends : Quoting.plain.scan (front ++ (word ++ ['\\'])) = (Quoting.plain.scan word).next '\\' := by
        rw [Quoting.scan_append, scan_leading leading, Quoting.scan_append]
        rfl
      have neutral := cut.neutral
      rw [shape, Quoting.scan_append, ends] at neutral
      have open_ : (Quoting.plain.scan word).next '\\' ≠ .plain := by
        intro same
        rw [same] at escaped
        cases escaped
      cases behind with
      | nil => exact absurd neutral open_
      | cons blank blanks =>
        rw [Quoting.scan_blanks TokenizeState.marksSolid (List.cons_ne_nil _ _) trailing, quote] at neutral
        have plain : Quoting.plain.scan (front ++ word) = .plain := by
          rw [Quoting.scan_append, scan_leading leading]
          exact congr (congrArg Quoting.mk (congrArg Quoting.quote neutral)) free
        obtain ⟨blank_, blanks_⟩ := List.forall_mem_cons.mp trailing
        refine ⟨front ++ word, blank, blanks, line.drop start, ?_, plain, blank_, ?_, blanks_, cut.solid⟩
        · conv => lhs; rw [← List.take_append_drop start line, shape]
          simp
        · -- One blank alone is no separator: the escape would still be open in front of it.
          rintro rfl
          rcases cut.ends with rfl | ⟨before, c, split, -, before_⟩
          · have lengths := congrArg List.length shape
            simp at lengths
          · rw [shape] at split
            have same := List.append_inj_left' split rfl
            rw [← same, ends] at before_
            exact open_ before_

end

/-- **The completed word.** -/
theorem completionAgrees_iff {line : Text} (balanced : QuotesClosed line) : CompletionAgrees line ↔ ¬EscapedBlank line := by
  obtain ⟨start, cut, before, raw, value⟩ := completionToken_eq balanced
  obtain ⟨tokens, read⟩ := cut_read cut
  unfold CompletionAgrees
  dsimp only
  rw [before, raw, value, tokenize_trim read, tokenize_cut balanced cut read, escapedBlank_iff cut]
  split
  · rename_i escaped
    simp [escaped]
  · rename_i free
    simp [free]

/-! ## Completions read back -/

namespace TokenizeState

/-- A name whose characters are each spelled as themselves is read as itself. -/
theorem foldl_spelled {spell : Char → Text} {quote : Option QuoteKind}
    (each : ∀ c tokens token started,
      (spell c).foldl next ⟨tokens, token, quote, false, started⟩ = ⟨tokens, token ++ [c], quote, false, true⟩)
    (name : Text) (tokens : List Text) (token : Text) (started : Bool) :
    (name.flatMap spell).foldl next ⟨tokens, token, quote, false, started⟩ =
      ⟨tokens, token ++ name, quote, false, started || !name.isEmpty⟩ := by
  induction name generalizing token started with
  | nil => simp
  | cons c name ih =>
    rw [List.flatMap_cons, List.foldl_append, each, ih]
    simp

end TokenizeState

/-- A name is one token; only the empty name needs quotes for that. -/
theorem tokenize_formatCompletion (name : Text) (quote : Option QuoteKind) :
    tokenize (formatCompletion name quote) = .ok (if name = [] ∧ quote = none then [] else [name]) := by
  cases quote with
  | none =>
    have each : ∀ c tokens token started,
        (if isBlank c = true ∨ c ∈ ['\\', '\'', '"', '$', '\x60'] then ['\\', c] else [c]).foldl TokenizeState.next
          ⟨tokens, token, none, false, started⟩ = ⟨tokens, token ++ [c], none, false, true⟩ := by
      intro c tokens token started
      split
      · rfl
      · rename_i free
        simp only [List.mem_cons, not_or] at free
        simp [TokenizeState.next, free]
    unfold formatCompletion tokenize TokenizeState.initial
    dsimp only
    rw [TokenizeState.foldl_spelled each]
    cases name <;> rfl
  | some kind =>
    have each : ∀ c tokens token started,
        (if c ∈ ['\\', '"', '$', '\x60'] then ['\\', c] else [c]).foldl TokenizeState.next
          ⟨tokens, token, some .double, false, started⟩ = ⟨tokens, token ++ [c], some .double, false, true⟩ := by
      intro c tokens token started
      split
      · rfl
      · rename_i free
        simp only [List.mem_cons, not_or] at free
        simp [TokenizeState.next, free]
    have opened : TokenizeState.initial.next '"' = ⟨[], [], some .double, false, true⟩ := by decide
    have closed : (TokenizeState.mk [] name (some .double) false true).next '"' = ⟨[], name, none, false, true⟩ := by
      simp [TokenizeState.next]
    unfold formatCompletion tokenize
    dsimp only
    rw [List.cons_append, List.foldl_cons, List.foldl_append, opened, TokenizeState.foldl_spelled each, List.foldl_cons,
      List.foldl_nil, Bool.true_or, List.nil_append, closed, if_neg fun both => by cases both.2]
    rfl

/-! ## The claim -/

/-- **Completion and tokenizer.** The two agree on a balanced line unless the white space in front of the word starts
with an escaped character, and a completion is one token again unless it is an empty name without quotes. -/
theorem completion_agrees_iff {line : Text} (balanced : QuotesClosed line) (name : Text) (quote : Option QuoteKind) :
    (CompletionAgrees line ↔ ¬EscapedBlank line) ∧
      (tokenize (formatCompletion name quote) = .ok [name] ↔ name ≠ [] ∨ quote ≠ none) := by
  refine ⟨completionAgrees_iff balanced, ?_⟩
  rw [tokenize_formatCompletion]
  by_cases bare : name = [] ∧ quote = none
  · rw [if_pos bare, bare.1, bare.2]
    simp
  · rw [if_neg bare]
    exact ⟨fun _ => by rwa [not_and_or] at bare, fun _ => rfl⟩

theorem completion_agrees_sample : QuotesClosed "cat 'a b'/c\\ d".toList ∧
    (CompletionAgrees "cat 'a b'/c\\ d".toList ↔ ¬EscapedBlank "cat 'a b'/c\\ d".toList) ∧
      (tokenize (formatCompletion "a b".toList (some .single)) = .ok ["a b".toList] ↔ "a b".toList ≠ [] ∨ some QuoteKind.single ≠ none) :=
  ⟨by decide, completion_agrees_iff (by decide) "a b".toList (some .single)⟩

/-- An escaped space and a space: the part in front of the word loses the first with the second. -/
theorem completion_loses_space : QuotesClosed "a\\  b".toList ∧ tokenize "a\\  b".toList = .ok ["a ".toList, "b".toList] ∧
    completionToken "a\\  b".toList = ⟨"a\\".toList, "b".toList, "b".toList, none⟩ ∧
    tokenize "a\\".toList = .error "Trailing escape character" ∧ ¬CompletionAgrees "a\\  b".toList := by
  refine ⟨by decide, by decide, by decide, by decide, ?_⟩
  rintro ⟨tokens, before, -⟩
  have lost : tokenize (completionToken "a\\  b".toList).before = .error "Trailing escape character" := by decide
  rw [lost] at before
  cases before

end AiryFS
