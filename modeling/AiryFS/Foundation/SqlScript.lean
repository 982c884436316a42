import AiryFS.Foundation.Separated

/-! SQL scripts, and the statements SQLite finds in them.

A script is read character by character. Inside a literal, a quoted identifier or a comment
a semicolon is a character like any other, and inside the body of a trigger it ends an inner
statement only. What ends a statement is decided by the kinds of the tokens before it.
-/

set_option autoImplicit false

namespace Foundation

/-! ## Cutting a list by what came before -/

section Cutting
variable {α σ : Type} (next : σ → α → σ) (ends : σ → α → Bool)

/-- The pieces between the elements that end one. -/
@[grind =]
def cut : σ → List α → List (List α)
  | _, [] => [[]]
  | state, x :: xs =>
    if ends state x then [] :: cut (next state x) xs else (cut (next state x) xs).modifyHead (x :: ·)

theorem cut_ne_nil (state : σ) (xs : List α) : cut next ends state xs ≠ [] := by
  induction xs generalizing state with
  | nil => simp [cut]
  | cons x xs ih =>
    unfold cut
    split
    · simp
    · simpa using ih (next state x)

variable {next ends} {sep : α} (only : ∀ state x, ends state x = true → x = sep)
include only

/-- A cut at every separator is made inside the pieces of a cut at some of them. -/
theorem splitOn_eq_cut [DecidableEq α] (state : σ) (xs : List α) :
    xs.splitOn sep = (cut next ends state xs).flatMap fun piece => piece.splitOn sep := by
  induction xs generalizing state with
  | nil => simp [cut]
  | cons x xs ih =>
    have some_ := cut_ne_nil next ends (next state x) xs
    unfold cut
    rw [List.splitOn_cons_eq_if_modifyHead, ih (next state x)]
    cases pieces : cut next ends (next state x) xs with
    | nil => exact absurd pieces some_
    | cons piece rest =>
      split
      · rename_i separator
        split
        · simp
        · simp [List.splitOn_cons_eq_if_modifyHead, separator]
      · rename_i different
        split
        · rename_i ended
          exact absurd (only state x ended) (by simpa using different)
        · rw [List.modifyHead_cons, List.flatMap_cons, List.flatMap_cons, List.splitOn_cons_eq_if_modifyHead,
            if_neg different]
          cases first : piece.splitOn sep with
          | nil => exact absurd first (List.splitOn_ne_nil sep piece)
          | cons => rfl

end Cutting

theorem cut_whole_cons {α σ : Type} {next : σ → α → σ} {ends : σ → α → Bool} {state : σ} {x : α} {xs : List α}
    (whole : cut next ends state (x :: xs) = [x :: xs]) : ends state x = false ∧ cut next ends (next state x) xs = [xs] := by
  unfold cut at whole
  split at whole
  · simp at whole
  · rename_i continued
    refine ⟨by simpa using continued, ?_⟩
    cases pieces : cut next ends (next state x) xs with
    | nil => exact absurd pieces (cut_ne_nil next ends _ xs)
    | cons piece rest =>
      rw [pieces, List.modifyHead_cons] at whole
      simpa using whole

/-- A piece ends nowhere when it is read by itself, if reading begins anew after every end. -/
theorem cut_piece {α σ : Type} {next : σ → α → σ} {ends : σ → α → Bool} {start : σ}
    (anew : ∀ state x, ends state x = true → next state x = start) {xs piece : List α}
    (member : piece ∈ cut next ends start xs) : cut next ends start piece = [piece] := by
  have first : ∀ (xs : List α) (state : σ), ∃ head tail, cut next ends state xs = head :: tail ∧
      cut next ends state head = [head] ∧ ∀ other ∈ tail, cut next ends start other = [other] := by
    intro xs
    induction xs with
    | nil => exact fun state => ⟨[], [], by simp [cut]⟩
    | cons x xs ih =>
      intro state
      obtain ⟨head, tail, pieces, whole, others⟩ := ih (next state x)
      by_cases ended : ends state x = true
      · refine ⟨[], head :: tail, by simp [cut, ended, pieces], by simp [cut], ?_⟩
        intro other listed
        rcases List.mem_cons.mp listed with rfl | later
        · rwa [anew state x ended] at whole
        · exact others other later
      · exact ⟨x :: head, tail, by simp [cut, ended, pieces], by simp [cut, ended, whole], others⟩
  obtain ⟨head, tail, pieces, whole, others⟩ := first xs start
  rw [pieces] at member
  rcases List.mem_cons.mp member with rfl | later
  · exact whole
  · exact others piece later

namespace SqlScript

/-! ## Tokens -/

def isWhite (character : Char) : Bool := character ∈ [' ', '\t', '\n', '\x0c', '\r']

/-- What a keyword, an identifier or a number is made of. -/
def isIdChar (character : Char) : Bool :=
  character.isAlphanum || character = '_' || character = '$' || decide (0x80 ≤ character.toNat)

/-- The tokens that decide where a statement ends. -/
inductive Kind where
  | semi
  | other
  | explain
  | create
  | temp
  | trigger
  | finish
  deriving DecidableEq, Repr

def keyword (word : List Char) : Kind :=
  let upper := word.map Char.toUpper
  if upper = "EXPLAIN".toList then .explain
  else if upper = "CREATE".toList then .create
  else if upper = "TEMP".toList ∨ upper = "TEMPORARY".toList then .temp
  else if upper = "TRIGGER".toList then .trigger
  else if upper = "END".toList then .finish
  else .other

/-- How far a statement has come. -/
inductive Stage where
  /-- Nothing but white space and comments. -/
  | start
  | normal
  | explain
  | create
  /-- In the definition of a trigger. -/
  | trigger
  /-- In a trigger, behind the end of an inner statement. -/
  | semi
  /-- In a trigger, behind an `END` that stands there. -/
  | finish
  deriving DecidableEq, Repr

def Stage.next : Stage → Kind → Stage
  | .trigger, .semi => .semi
  | .semi, .semi => .semi
  | _, .semi => .start
  | .semi, .finish => .finish
  | .trigger, _ => .trigger
  | .semi, _ => .trigger
  | .finish, _ => .trigger
  | .normal, _ => .normal
  | .start, .explain => .explain
  | .start, .create => .create
  | .start, _ => .normal
  | .explain, .other => .explain
  | .explain, .create => .create
  | .explain, _ => .normal
  | .create, .temp => .create
  | .create, .trigger => .trigger
  | .create, _ => .normal

/-! ## Reading a script -/

/-- What the next character may be a part of. -/
inductive Mode where
  | plain
  | word (letters : List Char)
  | quoted (mark : Char)
  | bracket
  /-- Behind a `-`, which may begin a comment. -/
  | dash
  | lineComment
  /-- Behind a `/`, which may begin a comment. -/
  | slash
  | blockComment (star : Bool)
  deriving DecidableEq, Repr

structure Scanner where
  mode : Mode
  stage : Stage
  deriving DecidableEq, Repr

namespace Scanner

def start : Scanner := ⟨.plain, .start⟩

/-- A character that continues no token. -/
@[grind =]
def enter (stage : Stage) (character : Char) : Scanner :=
  if isWhite character then ⟨.plain, stage⟩
  else if isIdChar character then ⟨.word [character], stage⟩
  else if character = ';' then ⟨.plain, stage.next .semi⟩
  else if character ∈ ['\'', '"', '\x60'] then ⟨.quoted character, stage⟩
  else if character = '[' then ⟨.bracket, stage⟩
  else if character = '-' then ⟨.dash, stage⟩
  else if character = '/' then ⟨.slash, stage⟩
  else ⟨.plain, stage.next .other⟩

@[grind =]
def next (scanner : Scanner) (character : Char) : Scanner :=
  match scanner.mode with
  | .plain => enter scanner.stage character
  | .word letters =>
    if isIdChar character then { scanner with mode := .word (letters ++ [character]) }
    else enter (scanner.stage.next (keyword letters)) character
  | .quoted mark => if character = mark then ⟨.plain, scanner.stage.next .other⟩ else scanner
  | .bracket => if character = ']' then ⟨.plain, scanner.stage.next .other⟩ else scanner
  | .dash =>
    if character = '-' then { scanner with mode := .lineComment }
    else enter (scanner.stage.next .other) character
  | .lineComment => if character = '\n' then { scanner with mode := .plain } else scanner
  | .slash =>
    if character = '*' then { scanner with mode := .blockComment false }
    else enter (scanner.stage.next .other) character
  | .blockComment star =>
    if star ∧ character = '/' then { scanner with mode := .plain }
    else { scanner with mode := .blockComment (character = '*') }

/-- A semicolon behind which a new statement begins. -/
def separates (scanner : Scanner) (character : Char) : Bool :=
  decide (character = ';' ∧ scanner.next character = start)

/-- The stage behind the token that is being read. -/
def settled (scanner : Scanner) : Stage :=
  match scanner.mode with
  | .plain | .lineComment | .blockComment _ => scanner.stage
  | .word letters => scanner.stage.next (keyword letters)
  | .quoted _ | .bracket | .dash | .slash => scanner.stage.next .other

end Scanner

/-- The script between the semicolons that end a statement. -/
def segments (script : List Char) : List (List Char) := cut Scanner.next Scanner.separates .start script

/-- Whether there is a token, besides white space and comments. -/
def hasStatement (segment : List Char) : Bool := (segment.foldl Scanner.next .start).settled ≠ .start

/-- The text without the white space around it. -/
def stripped (segment : List Char) : List Char := (segment.dropWhile isWhite).rdropWhile isWhite

/-- The statements of a script, in order, each with the comments that stand in it. -/
def statements (script : List Char) : List (List Char) :=
  (segments script).filterMap fun segment => if hasStatement segment then some (stripped segment) else none

/-! ## What is found -/

theorem separates_semicolon (scanner : Scanner) (character : Char) (separates : scanner.separates character = true) :
    character = ';' :=
  (of_decide_eq_true separates).1

theorem separates_anew (scanner : Scanner) (character : Char) (separates : scanner.separates character = true) :
    scanner.next character = .start :=
  (of_decide_eq_true separates).2

/-- A segment by itself is one segment. -/
theorem segments_segment {script segment : List Char} (member : segment ∈ segments script) : segments segment = [segment] :=
  cut_piece separates_anew member

theorem foldl_white (scanner : Scanner) (white : List Char) (plain : scanner.mode = .plain) (blank : white.all isWhite = true) :
    white.foldl Scanner.next scanner = scanner := by
  induction white with
  | nil => rfl
  | cons character white ih =>
    obtain ⟨mode, stage⟩ := scanner
    cases plain
    simp only [List.all_cons, Bool.and_eq_true] at blank
    have same : Scanner.next ⟨.plain, stage⟩ character = ⟨.plain, stage⟩ := by simp [Scanner.next, Scanner.enter, blank.1]
    rw [List.foldl_cons, same]
    exact ih blank.2

theorem hasStatement_white {segment : List Char} (blank : segment.all isWhite = true) : hasStatement segment = false := by
  rw [hasStatement, foldl_white .start segment rfl blank]
  rfl

theorem splitOn_segments (script : List Char) :
    script.splitOn ';' = (segments script).flatMap fun segment => segment.splitOn ';' :=
  splitOn_eq_cut separates_semicolon .start script

/-! ## Segments without a statement -/

theorem next_ne_start (stage : Stage) {kind : Kind} (inside : kind ≠ .semi) : stage.next kind ≠ .start := by
  cases stage <;> cases kind <;> first | exact absurd rfl inside | decide

theorem keyword_ne_semi (word : List Char) : keyword word ≠ .semi := by
  unfold keyword
  dsimp only
  split_ifs <;> decide

/-- A token has begun that no later character can turn into a comment. -/
def Scanner.Begun (scanner : Scanner) : Prop :=
  scanner.stage ≠ .start ∨
    match scanner.mode with
    | .word _ | .quoted _ | .bracket => True
    | _ => False

theorem Scanner.Begun.settled {scanner : Scanner} (begun : scanner.Begun) : scanner.settled ≠ .start := by
  obtain ⟨mode, stage⟩ := scanner
  cases mode with
  | word letters => exact next_ne_start stage (keyword_ne_semi letters)
  | quoted mark => exact next_ne_start stage (by decide)
  | bracket => exact next_ne_start stage (by decide)
  | dash => exact next_ne_start stage (by decide)
  | slash => exact next_ne_start stage (by decide)
  | plain => simpa [Scanner.Begun, Scanner.settled] using begun
  | lineComment => simpa [Scanner.Begun, Scanner.settled] using begun
  | blockComment star => simpa [Scanner.Begun, Scanner.settled] using begun

theorem Scanner.begun_enter {stage : Stage} (begun : stage ≠ .start) {character : Char}
    (kept : ¬(character = ';' ∧ enter stage character = Scanner.start)) : (enter stage character).Begun := by
  unfold enter at kept ⊢
  split_ifs at kept ⊢ with white word semi quote bracket dash slash
  all_goals first | exact .inl begun | exact .inr trivial | exact .inl (next_ne_start stage (by decide)) | skip
  left
  intro ended
  exact kept ⟨semi, by simp only [Scanner.start]; exact congrArg _ ended⟩

/-- Only the end of a statement is the beginning of another. -/
theorem Scanner.Begun.next {scanner : Scanner} (begun : scanner.Begun) {character : Char}
    (kept : scanner.separates character = false) : (scanner.next character).Begun := by
  have inside := of_decide_eq_false kept
  obtain ⟨mode, stage⟩ := scanner
  cases mode with
  | plain => exact begun_enter (by simpa [Scanner.Begun] using begun) inside
  | word letters =>
    unfold Scanner.next at inside ⊢
    dsimp only at inside ⊢
    split_ifs at inside ⊢
    · exact .inr trivial
    · exact begun_enter (next_ne_start stage (keyword_ne_semi letters)) inside
  | quoted mark =>
    unfold Scanner.next
    dsimp only
    split_ifs
    · exact .inl (next_ne_start stage (by decide))
    · exact begun
  | bracket =>
    unfold Scanner.next
    dsimp only
    split_ifs
    · exact .inl (next_ne_start stage (by decide))
    · exact begun
  | dash =>
    unfold Scanner.next at inside ⊢
    dsimp only at inside ⊢
    split_ifs at inside ⊢
    · exact .inl (by simpa [Scanner.Begun] using begun)
    · exact begun_enter (next_ne_start stage (by decide)) inside
  | slash =>
    unfold Scanner.next at inside ⊢
    dsimp only at inside ⊢
    split_ifs at inside ⊢
    · exact .inl (by simpa [Scanner.Begun] using begun)
    · exact begun_enter (next_ne_start stage (by decide)) inside
  | lineComment =>
    unfold Scanner.next
    dsimp only
    split_ifs <;> exact .inl (by simpa [Scanner.Begun] using begun)
  | blockComment star =>
    unfold Scanner.next
    dsimp only
    split_ifs <;> exact .inl (by simpa [Scanner.Begun] using begun)

theorem Scanner.Begun.foldl {scanner : Scanner} (begun : scanner.Begun) {segment : List Char}
    (whole : cut Scanner.next Scanner.separates scanner segment = [segment]) :
    (segment.foldl Scanner.next scanner).settled ≠ .start := by
  induction segment generalizing scanner with
  | nil => exact begun.settled
  | cons character rest ih =>
    obtain ⟨kept, later⟩ := cut_whole_cons whole
    exact ih (begun.next kept) later

/-- A character behind a token that was not the beginning of a comment. -/
theorem Scanner.settled_of_enter {scanner : Scanner} {character : Char} {rest : List Char}
    (entered : scanner.next character = enter .normal character)
    (whole : cut Scanner.next Scanner.separates scanner (character :: rest) = [character :: rest]) :
    ((character :: rest).foldl Scanner.next scanner).settled ≠ .start := by
  obtain ⟨kept, later⟩ := cut_whole_cons whole
  have inside := of_decide_eq_false kept
  rw [entered] at inside
  have begun : (scanner.next character).Begun := by
    rw [entered]
    exact begun_enter (by decide) inside
  exact begun.foldl later

/-- What has no statement in it is white space, up to a comment. -/
theorem blank_of_no_statement {segment : List Char} (whole : segments segment = [segment])
    (none_ : hasStatement segment = false) :
    segment.all isWhite = true ∨
      ∃ rest, segment.dropWhile isWhite = '-' :: '-' :: rest ∨ segment.dropWhile isWhite = '/' :: '*' :: rest := by
  have ended : (segment.foldl Scanner.next .start).settled = .start := by simpa [hasStatement] using none_
  clear none_
  unfold segments at whole
  induction segment with
  | nil => exact .inl rfl
  | cons character rest ih =>
    obtain ⟨kept, later⟩ := cut_whole_cons whole
    by_cases white : isWhite character = true
    · have same : Scanner.start.next character = .start := by simp [Scanner.next, Scanner.start, Scanner.enter, white]
      rw [List.foldl_cons, same] at ended
      rw [same] at later
      rcases ih later ended with blank | ⟨comment, begins⟩
      · exact .inl (by simp [white, blank])
      · exact .inr ⟨comment, by simpa [white] using begins⟩
    · rw [List.dropWhile_cons_of_neg white]
      right
      by_cases dash : character = '-'
      · subst dash
        cases rest with
        | nil => exact absurd ended (by decide)
        | cons second rest =>
          by_cases comment : second = '-'
          · exact ⟨rest, .inl (by rw [comment])⟩
          · have entered : (Scanner.start.next '-').next second = Scanner.enter .normal second := by
              simp [Scanner.next, Scanner.start, Scanner.enter, comment, isWhite, isIdChar, Stage.next]
            exact absurd ended (@Scanner.settled_of_enter (Scanner.start.next '-') second rest entered later)
      · by_cases slash : character = '/'
        · subst slash
          cases rest with
          | nil => exact absurd ended (by decide)
          | cons second rest =>
            by_cases comment : second = '*'
            · exact ⟨rest, .inr (by rw [comment])⟩
            · have entered : (Scanner.start.next '/').next second = Scanner.enter .normal second := by
                simp [Scanner.next, Scanner.start, Scanner.enter, comment, isWhite, isIdChar, Stage.next]
              exact absurd ended (@Scanner.settled_of_enter (Scanner.start.next '/') second rest entered later)
        · refine absurd ended (@Scanner.Begun.foldl (Scanner.start.next character) ?_ rest later)
          have inside := of_decide_eq_false kept
          unfold Scanner.next Scanner.start Scanner.enter at inside ⊢
          dsimp only at inside ⊢
          split_ifs at inside ⊢ with word semi
          all_goals first | exact .inr trivial | exact .inl (by decide) | skip
          exact absurd ⟨semi, rfl⟩ inside

end SqlScript

end Foundation
