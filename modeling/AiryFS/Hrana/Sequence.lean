import AiryFS.Foundation.SqlScript
import AiryFS.Hrana.Notifying

/-! The statements of a Hrana sequence.

A sequence is cut at its semicolons. SQLite ends a statement only at some of them, so the
parts are the statements of the script exactly when every stretch between two ends is
written in one part of its own.
-/

set_option autoImplicit false

namespace AiryFS

open Foundation SqlScript

namespace Hrana

/-! ## Trimming -/

theorem dropWhile_dropWhile_of_imp {α : Type} {p q : α → Bool} (weaker : ∀ x, q x = true → p x = true) (xs : List α) :
    (xs.dropWhile q).dropWhile p = xs.dropWhile p := by
  induction xs with
  | nil => rfl
  | cons x xs ih =>
    by_cases dropped : q x = true
    · rw [List.dropWhile_cons_of_pos dropped, List.dropWhile_cons_of_pos (weaker x dropped), ih]
    · rw [List.dropWhile_cons_of_neg dropped]

theorem rdropWhile_rdropWhile_of_imp {α : Type} {p q : α → Bool} (weaker : ∀ x, q x = true → p x = true) (xs : List α) :
    (xs.rdropWhile q).rdropWhile p = xs.rdropWhile p := by
  unfold List.rdropWhile
  rw [List.reverse_reverse, dropWhile_dropWhile_of_imp weaker]

/-- It does not matter at which end trimming begins. -/
theorem dropWhile_rdropWhile {α : Type} (p : α → Bool) (xs : List α) :
    (xs.rdropWhile p).dropWhile p = (xs.dropWhile p).rdropWhile p := by
  induction xs using List.reverseRecOn with
  | nil => rfl
  | append_singleton xs x ih =>
    rw [List.dropWhile_append]
    by_cases dropped : p x = true
    · rw [List.rdropWhile_concat_pos _ _ _ dropped, ih]
      split
      · rename_i empty
        rw [List.isEmpty_iff.mp empty, List.dropWhile_cons_of_pos dropped]
        rfl
      · rw [List.rdropWhile_concat_pos _ _ _ dropped]
    · rw [List.rdropWhile_concat_neg _ _ _ dropped, List.dropWhile_append]
      split
      · rw [List.dropWhile_cons_of_neg dropped]
        exact (List.rdropWhile_concat_neg p [] x dropped).symm
      · rw [List.rdropWhile_concat_neg _ _ _ dropped]

theorem isSpace_of_white (character : Char) (white : isWhite character = true) : isSpace character = true := by
  simp only [isWhite, List.mem_cons, List.not_mem_nil, or_false, decide_eq_true_eq] at white
  rcases white with rfl | rfl | rfl | rfl | rfl <;> decide

theorem trim_stripped (text : Text) : trim (stripped text) = trim text := by
  unfold trim trimStart stripped
  rw [← dropWhile_rdropWhile, rdropWhile_rdropWhile_of_imp isSpace_of_white, dropWhile_rdropWhile,
    dropWhile_dropWhile_of_imp isSpace_of_white]

theorem mem_dropWhile_of_neg {α : Type} {p : α → Bool} {xs : List α} {x : α} (inside : x ∈ xs) (kept : p x = false) :
    x ∈ xs.dropWhile p := by
  rw [← @List.takeWhile_append_dropWhile α p xs] at inside
  rcases List.mem_append.mp inside with dropped | kept'
  · rw [List.mem_takeWhile_imp dropped] at kept
    cases kept
  · exact kept'

theorem mem_stripped {text : Text} {character : Char} (inside : character ∈ text) (solid : isWhite character = false) :
    character ∈ stripped text := by
  unfold stripped List.rdropWhile
  rw [List.mem_reverse]
  exact mem_dropWhile_of_neg (List.mem_reverse.mpr (mem_dropWhile_of_neg inside solid)) solid

/-- Trimming stops at the first character that is no blank. -/
theorem trim_cons_of_solid {mark : Char} (solid : isSpace mark = false) (rest : Text) :
    ∃ rest', trim (mark :: rest) = mark :: rest' := by
  have front : trimStart (mark :: rest) = mark :: rest := List.dropWhile_cons_of_neg (by simp [solid])
  unfold trim
  rw [front]
  cases back : (mark :: rest).rdropWhile isSpace with
  | nil =>
    rw [List.rdropWhile_eq_nil_iff] at back
    rw [back mark List.mem_cons_self] at solid
    cases solid
  | cons first kept =>
    have whole := List.rdropWhile_prefix isSpace (mark :: rest)
    rw [back] at whole
    exact ⟨kept, by rw [(List.cons_prefix_cons.mp whole).1]⟩

/-! ## What a sequence hands on -/

/-- The statements that neither a sequence nor `execute` gives to the database as they are. -/
def isRefused (t : Text) : Bool := isBlockedStatement t || isPragma t

def isHandedOn (t : Text) : Bool := !(t = [] || isRefused t)

/-- What the loop over the parts gives to the database. -/
def sent (parts : List Text) : List Text := (parts.map trim).filter isHandedOn

/-- A comment is handed on like a statement. -/
theorem isHandedOn_of_comment {mark : Char} (comment : mark = '-' ∨ mark = '/') (rest : Text) :
    isHandedOn (mark :: rest) = true := by
  have upper : toUpperCase (trimStart (mark :: rest)) = mark :: toUpperCase rest := by
    rcases comment with rfl | rfl <;> rfl
  simp only [isHandedOn, isRefused, isBlockedStatement, isPragma, upper, BLOCKED_PREFIXES]
  rcases comment with rfl | rfl <;> simp [List.isPrefixOf]

section
variable {τ : Type} (backend : SqlBackend τ)

/-- Each statement once, in order, until one fails. -/
def runStatements : List Text → Attempt Failure (Database τ) Unit
  | [] => return
  | statement :: statements => do
    let _ ← backend.exec statement []
    runStatements statements

theorem executeSequence_sent (parts : List Text) :
    HranaServer.executeSequence backend parts = runStatements backend (sent parts) := by
  induction parts with
  | nil => rfl
  | cons part parts ih =>
    have kept : isHandedOn (trim part) = !(trim part = [] || isBlockedStatement (trim part) || isPragma (trim part)) := by
      simp [isHandedOn, isRefused, Bool.or_assoc]
    simp only [HranaServer.executeSequence, sent, List.map_cons]
    cases handed : isHandedOn (trim part) with
    | false =>
      rw [handed, eq_comm, Bool.not_eq_false'] at kept
      rw [if_pos kept, List.filter_cons_of_neg (by simp [handed]), ih]
      rfl
    | true =>
      rw [handed, eq_comm, Bool.not_eq_true'] at kept
      rw [if_neg (by rw [kept]; decide), List.filter_cons_of_pos handed, ih]
      rfl

end

/-- The statements SQLite finds in a script, without those that `execute` refuses. -/
def accepted (script : Text) : List Text := (statements script).filter fun statement => !isRefused statement

namespace HranaServer

section
variable {τ : Type} (backend : SqlBackend τ) (onWrite : Database τ → Except Failure Unit)

/-- A sequence of these statements. -/
def runSequence (statements : List Text) : Attempt Failure (HranaServer τ) StreamResponse := do
  onDatabase (runStatements backend statements)
  notify onWrite
  return .sequence

theorem handle_sequence (numeral : Rat → Text) (transactionSync : Bool) {server : HranaServer τ} {sql : Option Text}
    {sqlId : Option Int} {script : Text} (resolved : server.resolveSql sql sqlId = .ok script) :
    handleStreamRequest numeral backend transactionSync onWrite (.sequence sql sqlId) server =
      runSequence backend onWrite (sent (script.splitOn ';')) server := by
  have asked : ask (resolveSql · sql sqlId) server = .ok script server := by
    simp only [ask, resolved, Attempt.lift]
  simp only [handleStreamRequest, runSequence, executeSequence_sent, bind, EStateM.bind, asked]

end

/-- Whatever the database is, the sequence runs the statements of the script and nothing else. -/
def RunsExactly (script : Text) : Prop :=
  ∀ (τ : Type) (numeral : Rat → Text) (backend : SqlBackend τ) (transactionSync : Bool)
    (onWrite : Database τ → Except Failure Unit) (server : HranaServer τ) (sql : Option Text) (sqlId : Option Int),
    server.resolveSql sql sqlId = .ok script →
    handleStreamRequest numeral backend transactionSync onWrite (.sequence sql sqlId) server =
      runSequence backend onWrite (accepted script) server

end HranaServer

/-! ## Scripts that are run as they are written -/

/-- How a stretch between two ends of a statement has to be written. -/
inductive Separate (segment : Text) : Prop where
  /-- No statement, and no comment either. -/
  | blank (white : segment.all isWhite = true)
  /-- A statement that is refused, and with it every part of it. -/
  | refused (found : hasStatement segment = true) (refused : isRefused (stripped segment) = true)
      (parts : ∀ part ∈ segment.splitOn ';', isHandedOn (trim part) = false)
  /-- A statement in one part, with no blank at its ends that is none to SQLite. -/
  | handed (found : hasStatement segment = true) (accepted : isRefused (stripped segment) = false)
      (whole : ';' ∉ segment) (trimmed : trim (stripped segment) = stripped segment)

/-- What SQLite finds in one segment and `execute` does not refuse. -/
def acceptedIn (segment : Text) : List Text :=
  if hasStatement segment && !isRefused (stripped segment) then [stripped segment] else []

def sentFrom (segment : Text) : List Text := sent (segment.splitOn ';')

theorem accepted_eq (script : Text) : accepted script = (segments script).flatMap acceptedIn := by
  unfold accepted statements
  induction segments script with
  | nil => rfl
  | cons segment rest ih =>
    rw [List.flatMap_cons, ← ih]
    cases found : hasStatement segment <;> cases refused : isRefused (stripped segment) <;>
      simp [acceptedIn, found, refused]

theorem sent_eq (script : Text) : sent (script.splitOn ';') = (segments script).flatMap sentFrom := by
  rw [splitOn_segments]
  unfold sentFrom
  induction segments script with
  | nil => rfl
  | cons segment rest ih =>
    rw [List.flatMap_cons, List.flatMap_cons, ← ih]
    simp [sent]

/-- A stretch without a semicolon is one part. -/
theorem sentFrom_whole {segment : Text} (whole : ';' ∉ segment) : sentFrom segment = [trim segment].filter isHandedOn := by
  rw [sentFrom, sent, List.splitOn_eq_singleton whole]
  rfl

theorem Separate.sent {segment : Text} (separate : Separate segment) : sentFrom segment = acceptedIn segment := by
  cases separate with
  | blank white =>
    have whole : ';' ∉ segment := by
      intro inside
      have blank := List.all_eq_true.mp white _ inside
      cases blank
    have empty : trim segment = [] := by
      unfold trim trimStart
      rw [List.dropWhile_eq_nil_iff.mpr fun x inside => isSpace_of_white x (List.all_eq_true.mp white x inside)]
      rfl
    rw [sentFrom_whole whole, empty, acceptedIn, hasStatement_white white]
    rfl
  | refused found refused parts =>
    have nothing : sentFrom segment = [] := by
      refine List.filter_eq_nil_iff.mpr ?_
      intro text listed
      obtain ⟨part, member, rfl⟩ := List.mem_map.mp listed
      simp [parts part member]
    simp [nothing, acceptedIn, refused]
  | handed found accepted whole trimmed =>
    have filled : stripped segment ≠ [] := by
      intro empty
      have white : segment.all isWhite = true := by
        unfold stripped at empty
        rw [List.rdropWhile_eq_nil_iff] at empty
        rw [List.all_eq_true]
        intro x inside
        by_contra solid
        exact solid (empty x (mem_dropWhile_of_neg inside (by simpa using solid)))
      rw [hasStatement_white white] at found
      cases found
    have same : trim segment = stripped segment := by rw [← trim_stripped, trimmed]
    rw [sentFrom_whole whole, same, List.filter_cons_of_pos (by simp [isHandedOn, filled, accepted])]
    simp [acceptedIn, found, accepted]

/-- The first part of a stretch that begins with a comment begins with it as well. -/
theorem sentFrom_comment {segment comment : Text} {mark : Char} (begins : segment.dropWhile isWhite = mark :: comment)
    (marks : mark = '-' ∨ mark = '/') : sentFrom segment ≠ [] := by
  obtain ⟨first, others, cut⟩ : ∃ first others, segment.splitOn ';' = (segment.takeWhile isWhite ++ mark :: first) :: others := by
    have whole := @List.takeWhile_append_dropWhile Char isWhite segment
    rw [begins] at whole
    have white : ∀ x ∈ segment.takeWhile isWhite, x ≠ ';' := by
      rintro x inside rfl
      cases List.mem_takeWhile_imp inside
    generalize segment.takeWhile isWhite = front at whole white
    rw [← whole]
    clear whole begins
    induction front with
    | nil =>
      have kept : ¬(mark == ';') = true := by rcases marks with rfl | rfl <;> decide
      rw [List.nil_append, List.splitOn_cons_eq_if_modifyHead, if_neg kept]
      cases pieces : comment.splitOn ';' with
      | nil => exact absurd pieces (List.splitOn_ne_nil _ _)
      | cons first others => exact ⟨first, others, rfl⟩
    | cons x front ih =>
      obtain ⟨first, others, cut⟩ := ih fun y inside => white y (List.mem_cons_of_mem _ inside)
      have kept : ¬(x == ';') = true := by simpa using white x List.mem_cons_self
      rw [List.cons_append, List.splitOn_cons_eq_if_modifyHead, if_neg kept, cut]
      exact ⟨first, others, rfl⟩
  have solid : isSpace mark = false := by rcases marks with rfl | rfl <;> decide
  have trimmed : trim (segment.takeWhile isWhite ++ mark :: first) = trim (mark :: first) := by
    unfold trim trimStart
    rw [List.dropWhile_append_of_pos fun x inside => isSpace_of_white x (List.mem_takeWhile_imp inside)]
  obtain ⟨rest, left⟩ := trim_cons_of_solid solid first
  rw [sentFrom, sent, cut, List.map_cons, trimmed, left, List.filter_cons_of_pos (isHandedOn_of_comment marks rest)]
  simp

/-- Every part that is handed on is trimmed and has no semicolon in it. -/
theorem mem_sentFrom {segment text : Text} (handed : text ∈ sentFrom segment) : ';' ∉ text ∧ trim text = text := by
  obtain ⟨listed, -⟩ := List.mem_filter.mp handed
  obtain ⟨part, member, rfl⟩ := List.mem_map.mp listed
  refine ⟨?_, trim_trim part⟩
  intro inside
  have front := (List.rdropWhile_prefix isSpace (trimStart part)).subset inside
  exact mem_of_mem_splitOn member ((List.dropWhile_suffix isSpace).subset front)

theorem Separate.of_sent {segment : Text} (whole : segments segment = [segment])
    (same : sentFrom segment = acceptedIn segment) : Separate segment := by
  cases found : hasStatement segment with
  | false =>
    rcases blank_of_no_statement whole found with white | ⟨rest, comment | comment⟩
    · exact .blank white
    · exact absurd (by rw [same, acceptedIn, found]; rfl) (sentFrom_comment comment (.inl rfl))
    · exact absurd (by rw [same, acceptedIn, found]; rfl) (sentFrom_comment comment (.inr rfl))
  | true =>
    cases refused : isRefused (stripped segment) with
    | true =>
      refine .refused found refused ?_
      intro part member
      have nothing : sentFrom segment = [] := by rw [same, acceptedIn, found, refused]; rfl
      simpa using List.filter_eq_nil_iff.mp nothing (trim part) (List.mem_map_of_mem member)
    | false =>
      have handed : stripped segment ∈ sentFrom segment := by
        rw [same, acceptedIn, found, refused]
        exact List.mem_singleton_self _
      obtain ⟨unseparated, trimmed⟩ := mem_sentFrom handed
      exact .handed found refused (fun inside => unseparated (mem_stripped inside (by decide))) trimmed

/-- Where the second function says nothing or the same, equal wholes are equal everywhere. -/
theorem eq_of_flatMap_eq {α β : Type} {f g : α → List β} {xs : List α} (same : xs.flatMap f = xs.flatMap g)
    (agree : ∀ x ∈ xs, g x = [] ∨ f x = g x) : ∀ x ∈ xs, f x = g x := by
  induction xs with
  | nil => simp
  | cons x xs ih =>
    have later : ∀ y ∈ xs, g y = [] ∨ f y = g y := fun y inside => agree y (List.mem_cons_of_mem _ inside)
    rw [List.flatMap_cons, List.flatMap_cons] at same
    have first : f x = g x := by
      rcases agree x List.mem_cons_self with nothing | equal
      · have shorter : ∀ ys : List α, (∀ y ∈ ys, g y = [] ∨ f y = g y) → (ys.flatMap g).length ≤ (ys.flatMap f).length := by
          intro ys
          induction ys with
          | nil => simp
          | cons y ys ihys =>
            intro agree'
            have tail := ihys fun z inside => agree' z (List.mem_cons_of_mem _ inside)
            rw [List.flatMap_cons, List.flatMap_cons, List.length_append, List.length_append]
            rcases agree' y List.mem_cons_self with none_ | equal
            · simp only [none_, List.length_nil]
              omega
            · rw [equal]
              omega
        have lengths := congrArg List.length same
        have bound := shorter xs later
        rw [List.length_append, List.length_append, nothing, List.length_nil] at lengths
        rw [nothing]
        exact List.eq_nil_of_length_eq_zero (by omega)
      · exact equal
    rw [first, List.append_cancel_left_eq] at same
    intro y inside
    rcases List.mem_cons.mp inside with rfl | rest
    · exact first
    · exact ih same later y rest

theorem sent_eq_accepted_iff (script : Text) :
    sent (script.splitOn ';') = accepted script ↔ ∀ segment ∈ segments script, Separate segment := by
  rw [sent_eq, accepted_eq]
  constructor
  · intro same
    have pointwise := eq_of_flatMap_eq same ?_
    · exact fun segment member => .of_sent (segments_segment member) (pointwise segment member)
    · -- A statement that is handed on is trimmed and unseparated, so its segment is one part.
      intro segment member
      by_cases nothing : acceptedIn segment = []
      · exact .inl nothing
      · right
        have found : (hasStatement segment && !isRefused (stripped segment)) = true := by
          by_contra none_
          exact nothing (if_neg none_)
        have only : acceptedIn segment = [stripped segment] := if_pos found
        have handed : stripped segment ∈ (segments script).flatMap sentFrom := by
          rw [same]
          exact List.mem_flatMap.mpr ⟨segment, member, by rw [only]; exact List.mem_singleton_self _⟩
        obtain ⟨other, -, sent⟩ := List.mem_flatMap.mp handed
        obtain ⟨unseparated, trimmed⟩ := mem_sentFrom sent
        simp only [Bool.and_eq_true, Bool.not_eq_true'] at found
        exact (Separate.handed found.1 found.2 (fun inside => unseparated (mem_stripped inside (by decide))) trimmed).sent
  · intro separate
    exact List.flatMap_congr fun segment member => (separate segment member).sent

/-! ## The exact condition -/

/-- A database that writes down what it is asked to run. -/
def logging : SqlBackend (List Text) := ⟨fun query _ database =>
  .ok ⟨[], [], 0, 0⟩ { database with other := database.other ++ [query] }⟩

theorem runStatements_logging (texts : List Text) (database : Database (List Text)) :
    runStatements logging texts database = .ok () { database with other := database.other ++ texts } := by
  induction texts generalizing database with
  | nil => simp [runStatements, pure, EStateM.pure]
  | cons text texts ih =>
    unfold runStatements
    have first : logging.exec text [] database = .ok ⟨[], [], 0, 0⟩ { database with other := database.other ++ [text] } := rfl
    simp only [bind, EStateM.bind, first, ih, List.append_assoc, List.singleton_append]

namespace HranaServer

theorem runSequence_logging (texts : List Text) (server : HranaServer (List Text)) :
    (Attempt.left (runSequence logging (fun _ => .ok ()) texts) server).database.other = server.database.other ++ texts := by
  simp [runSequence, Attempt.left, onDatabase, Attempt.within, notify, Attempt.lift, runStatements_logging, bind,
    EStateM.bind, pure, EStateM.pure]

theorem runsExactly_iff (script : Text) : RunsExactly script ↔ sent (script.splitOn ';') = accepted script := by
  constructor
  · intro runs
    have ran := runs (List Text) (fun _ => []) logging true (fun _ => .ok ()) (start ⟨Volume.fresh 0, []⟩)
      (some script) none rfl
    rw [handle_sequence logging (fun _ => .ok ()) (fun _ => []) true rfl] at ran
    -- The two runs leave the same list behind, and the list is what was handed on.
    have left : (Attempt.left (runSequence logging (fun _ => .ok ()) (sent (script.splitOn ';')))
        (start ⟨Volume.fresh 0, []⟩)).database.other =
        (Attempt.left (runSequence logging (fun _ => .ok ()) (accepted script)) (start ⟨Volume.fresh 0, []⟩)).database.other := by
      unfold Attempt.left
      rw [ran]
    rw [runSequence_logging, runSequence_logging] at left
    simpa [start] using left
  · intro same τ numeral backend transactionSync onWrite server sql sqlId resolved
    rw [handle_sequence backend onWrite numeral transactionSync resolved, same]

/-- A sequence runs exactly its script when every stretch between two ends of a statement is
written so that the cut at the semicolons leaves it whole. -/
theorem sequence_exact_iff (script : Text) : RunsExactly script ↔ ∀ segment ∈ segments script, Separate segment := by
  rw [runsExactly_iff, sent_eq_accepted_iff]

/-- The cut goes through the literal, and the database gets two halves of a statement. -/
theorem sequence_literal : ¬RunsExactly "INSERT INTO t VALUES ('a;b')".toList := by
  rw [runsExactly_iff]
  decide +kernel

end HranaServer

end Hrana

end AiryFS
