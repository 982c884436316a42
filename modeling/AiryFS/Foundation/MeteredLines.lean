import AiryFS.Foundation.LineReader

/-! Lines read from chunks, under a limit that is counted in two ways.

The open line is counted by its length while it grows, and by its weight when a line end came with it. A refusal drops what
the same chunk completed before. So what a text gives may depend on where it is cut, and the last section says when.
-/

set_option autoImplicit false

namespace Foundation

namespace LineReader

/-- The texts of lines, when that of the first may be another. -/
def texts {α γ : Type} (text : Bool → List α → List γ) : Bool → List (List α) → List (List γ)
  | _, [] => []
  | begun, line :: lines => text begun line :: texts text true lines

theorem texts_append {α γ : Type} (text : Bool → List α → List γ) (begun : Bool) (first second : List (List α)) :
    texts text begun (first ++ second) = texts text begun first ++ texts text (begun || !first.isEmpty) second := by
  induction first generalizing begun with
  | nil => simp [texts]
  | cons line lines ih => rw [List.cons_append, texts, texts, ih, List.cons_append]; simp

end LineReader

open LineReader

/-- How lines are read: the text of a line, which may depend on whether another line stands in front. -/
structure Meter (α γ β ε : Type) where
  mark : α
  limit : Nat
  excess : ε
  text : Bool → List α → List γ
  weight : List α → Nat
  read : List γ → Except ε (List β)
  close : Bool → List α → Except ε (List β)

namespace Meter

/-- Whether a line has ended, the line that has not, and its count. -/
structure Reading (α : Type) where
  begun : Bool
  open_ : List α
  count : Nat
  deriving DecidableEq, Repr

def Reading.fresh {α : Type} : Reading α := ⟨false, [], 0⟩

variable {α γ β ε : Type} [DecidableEq α] (meter : Meter α γ β ε)

/-- The texts of the lines that end in the chunk. -/
def completes (reading : Reading α) (chunk : List α) : List (List γ) :=
  texts meter.text reading.begun (linesFrom meter.mark reading.open_ chunk).1

def after (reading : Reading α) (chunk : List α) : Reading α :=
  let (lines, open_) := linesFrom meter.mark reading.open_ chunk
  ⟨reading.begun || !lines.isEmpty, open_, if lines = [] then reading.count + chunk.length else meter.weight open_⟩

def push (reading : Reading α) (chunk : List α) : Except ε (List β × Reading α) :=
  match survey meter.read (meter.completes reading chunk) with
  | (_, some refusal) => .error refusal
  | (values, none) =>
    if meter.limit < (meter.after reading chunk).count then .error meter.excess else .ok (values, meter.after reading chunk)

def ending (begun : Bool) (last : List α) : List β × Bool :=
  match meter.close begun last with
  | .error _ => ([], true)
  | .ok values => (values, false)

/-- The values that are given before the reader ends or fails, and whether it fails. -/
def run : Reading α → List (List α) → List β × Bool
  | reading, [] => meter.ending reading.begun reading.open_
  | reading, chunk :: chunks =>
    match meter.push reading chunk with
    | .error _ => ([], true)
    | .ok (values, reading) => (values ++ (run reading chunks).1, (run reading chunks).2)

/-- What is asked of the weight: a line that is read, or the last one, is within the limit by any count. -/
structure Fair : Prop where
  empty : meter.weight [] = 0
  grows : ∀ first second, meter.weight first ≤ meter.weight (first ++ second)
  read : ∀ first second values, meter.read (meter.text true (first ++ second)) = .ok values →
    meter.weight first + second.length ≤ meter.limit
  closed : ∀ first second values, meter.close true (first ++ second) = .ok values →
    meter.weight first + second.length ≤ meter.weight (first ++ second)

/-- Nothing is refused before the end, however the text is cut. -/
structure Tame (lines : List (List α)) (last : List α) : Prop where
  reads : (survey meter.read (texts meter.text false lines)).2 = none
  first : ∀ line ∈ lines.head?, line.length ≤ meter.limit
  last : meter.weight last ≤ meter.limit

/-- The line behind the last line end is over the limit, however much of it came with that end. -/
def Beyond (last : List α) : Prop := ∀ first second, last = first ++ second → meter.limit < meter.weight first + second.length

/-- The text is refused however it is cut, and no value is lost by it. -/
structure Barren (lines : List (List α)) (last : List α) : Prop where
  values : (survey meter.read (texts meter.text false lines)).1 = []
  fails : (survey meter.read (texts meter.text false lines)).2 ≠ none ∨ (∃ refusal, meter.close true last = .error refusal) ∨
    meter.Beyond last

variable {meter}

/-! ## One chunk -/

/-- The open line goes on: in the first line that ends, or in the one that never does. -/
theorem linesFrom_extends (mark : α) (open_ text : List α) :
    linesFrom mark open_ text = ([], open_ ++ text) ∨
      ∃ more later, (linesFrom mark open_ text).1 = (open_ ++ more) :: later := by
  induction text generalizing open_ with
  | nil => exact .inl (by rw [linesFrom, List.append_nil])
  | cons x text ih =>
    by_cases ends : x = mark
    · subst ends
      rw [linesFrom_mark]
      exact .inr ⟨[], _, by rw [List.append_nil]⟩
    · rw [linesFrom_other ends]
      rcases ih (open_ ++ [x]) with whole | ⟨more, later, shape⟩
      · exact .inl (by rw [whole, List.append_assoc]; rfl)
      · exact .inr ⟨x :: more, later, by rw [shape, List.append_assoc]; rfl⟩

variable {reading : Reading α} {chunk : List α}

/-- The lines of chunk and rest are those of the chunk, and those of the rest behind them. -/
theorem completes_append (meter : Meter α γ β ε) (reading : Reading α) (chunk rest : List α) :
    meter.completes reading (chunk ++ rest) = meter.completes reading chunk ++ meter.completes (meter.after reading chunk) rest := by
  unfold completes after
  rw [linesFrom_append, texts_append]

theorem after_append (reading : Reading α) (chunk rest : List α) :
    (meter.after reading (chunk ++ rest)).open_ = (meter.after (meter.after reading chunk) rest).open_ ∧
      (meter.after reading (chunk ++ rest)).begun = (meter.after (meter.after reading chunk) rest).begun := by
  unfold after
  rw [linesFrom_append]
  refine ⟨rfl, ?_⟩
  dsimp only
  cases (linesFrom meter.mark reading.open_ chunk).1 with
  | nil => simp
  | cons line lines => simp

theorem push_of_refused (refused : (survey meter.read (meter.completes reading chunk)).2 ≠ none) :
    ∃ refusal, meter.push reading chunk = .error refusal := by
  unfold push
  cases surveyed : survey meter.read (meter.completes reading chunk) with
  | mk values refusal =>
    cases refusal with
    | none =>
      rw [surveyed] at refused
      exact absurd rfl refused
    | some refusal => exact ⟨refusal, rfl⟩

theorem push_of_heavy (heavy : meter.limit < (meter.after reading chunk).count) :
    ∃ refusal, meter.push reading chunk = .error refusal := by
  unfold push
  cases survey meter.read (meter.completes reading chunk) with
  | mk values refusal =>
    cases refusal with
    | none => exact ⟨meter.excess, if_pos heavy⟩
    | some refusal => exact ⟨refusal, rfl⟩

theorem push_of_fine (fine : (survey meter.read (meter.completes reading chunk)).2 = none)
    (light : (meter.after reading chunk).count ≤ meter.limit) :
    meter.push reading chunk = .ok ((survey meter.read (meter.completes reading chunk)).1, meter.after reading chunk) := by
  unfold push
  cases surveyed : survey meter.read (meter.completes reading chunk) with
  | mk values refusal =>
    rw [surveyed] at fine
    cases fine
    exact if_neg (Nat.not_lt_of_le light)

/-- A chunk is refused for one of its lines, refused for the line it leaves open, or read. -/
theorem push_cases (meter : Meter α γ β ε) (reading : Reading α) (chunk : List α) :
    ((∃ refusal, meter.push reading chunk = .error refusal) ∧ ((survey meter.read (meter.completes reading chunk)).2 ≠ none ∨
        meter.limit < (meter.after reading chunk).count)) ∨
      ((survey meter.read (meter.completes reading chunk)).2 = none ∧ (meter.after reading chunk).count ≤ meter.limit ∧
        meter.push reading chunk = .ok ((survey meter.read (meter.completes reading chunk)).1, meter.after reading chunk)) := by
  by_cases fine : (survey meter.read (meter.completes reading chunk)).2 = none
  · by_cases light : (meter.after reading chunk).count ≤ meter.limit
    · exact .inr ⟨fine, light, push_of_fine fine light⟩
    · have heavy := Nat.lt_of_not_le light
      exact .inl ⟨push_of_heavy heavy, .inr heavy⟩
  · exact .inl ⟨push_of_refused fine, .inl fine⟩

theorem run_of_error {refusal : ε} (failed : meter.push reading chunk = .error refusal) (chunks : List (List α)) :
    meter.run reading (chunk :: chunks) = ([], true) := by
  rw [run, failed]

theorem run_of_ok {next : Reading α} {values : List β} (pushed : meter.push reading chunk = .ok (values, next))
    (chunks : List (List α)) : meter.run reading (chunk :: chunks) = (values ++ (meter.run next chunks).1, (meter.run next chunks).2) := by
  rw [run, pushed]

/-! ## Counts -/

/-- The two ways in which the open line is counted. -/
structure Counted (meter : Meter α γ β ε) (reading : Reading α) : Prop where
  first : reading.begun = false → reading.count = reading.open_.length
  later : reading.begun = true → ∃ first second, reading.open_ = first ++ second ∧
    reading.count = meter.weight first + second.length

omit [DecidableEq α] in
theorem counted_fresh : Counted meter .fresh := ⟨fun _ => rfl, fun begun => by cases begun⟩

theorem Counted.after (counted : Counted meter reading) (chunk : List α) : Counted meter (meter.after reading chunk) := by
  unfold Meter.after
  rcases linesFrom_extends meter.mark reading.open_ chunk with whole | ⟨more, later, shape⟩
  · rw [whole]
    refine ⟨fun first => ?_, fun later => ?_⟩
    · dsimp only at first ⊢
      rw [if_pos rfl, List.length_append, counted.first (by simpa using first)]
    · dsimp only at later ⊢
      obtain ⟨first, second, open_, count⟩ := counted.later (by simpa using later)
      refine ⟨first, second ++ chunk, by rw [open_, List.append_assoc], ?_⟩
      rw [if_pos rfl, count, List.length_append, Nat.add_assoc]
  · refine ⟨fun first => ?_, fun _ => ?_⟩
    · dsimp only at first
      rw [shape] at first
      simp at first
    · dsimp only
      rw [if_neg (by rw [shape]; exact List.cons_ne_nil _ _)]
      exact ⟨_, [], (List.append_nil _).symm, rfl⟩

section
omit [DecidableEq α]

theorem fine_append {first second : List (List γ)} :
    (survey meter.read (first ++ second)).2 = none ↔ (survey meter.read first).2 = none ∧ (survey meter.read second).2 = none := by
  cases fine : (survey meter.read first).2 with
  | none =>
    rw [survey_append_of_none fine]
    simp
  | some refusal =>
    rw [survey_append_of_some fine, fine]
    simp

end

/-- A line that will be read is within the limit by either count; the last one is so unless it is refused anyway. -/
theorem count_le (fair : Fair meter) (counted : Counted meter reading) (chunk rest : List α)
    (reads : (survey meter.read (meter.completes reading (chunk ++ rest))).2 = none)
    (first : reading.begun = false → ∃ line ∈ (linesFrom meter.mark reading.open_ (chunk ++ rest)).1.head?, line.length ≤ meter.limit)
    (last : meter.weight (meter.after reading (chunk ++ rest)).open_ ≤ meter.limit) :
    (meter.after reading chunk).count ≤ meter.limit ∨
      (meter.completes reading (chunk ++ rest) = [] ∧ ∃ refusal, meter.close true (meter.after reading (chunk ++ rest)).open_ = .error refusal) := by
  have next := counted.after chunk
  rw [completes_append, fine_append] at reads
  rw [linesFrom_append] at first
  rw [(after_append reading chunk rest).1] at last ⊢
  rw [completes_append]
  rcases linesFrom_extends meter.mark (meter.after reading chunk).open_ rest with whole | ⟨more, later, shape⟩
  · -- The line is the last one.
    have open_ : (meter.after (meter.after reading chunk) rest).open_ = (meter.after reading chunk).open_ ++ rest :=
      congrArg Prod.snd whole
    rw [open_] at last ⊢
    by_cases lines : (linesFrom meter.mark reading.open_ chunk).1 = []
    · have here : (linesFrom meter.mark (linesFrom meter.mark reading.open_ chunk).2 rest).1 = [] := congrArg Prod.fst whole
      cases begun : reading.begun with
      | false =>
        obtain ⟨line, member, -⟩ := first begun
        rw [lines, here] at member
        cases member
      | true =>
        obtain ⟨front, behind, same, count⟩ := next.later (by unfold after; simp [begun])
        rw [same, List.append_assoc] at last ⊢
        cases closed : meter.close true (front ++ (behind ++ rest)) with
        | ok values =>
          have within := fair.closed _ _ _ closed
          rw [List.length_append] at within
          left
          omega
        | error refusal =>
          right
          refine ⟨?_, refusal, rfl⟩
          unfold completes
          rw [lines, congrArg Prod.fst whole]
          rfl
    · left
      have count : (meter.after reading chunk).count = meter.weight (meter.after reading chunk).open_ := if_neg lines
      have grows := fair.grows (meter.after reading chunk).open_ rest
      omega
  · left
    cases begun : (meter.after reading chunk).begun with
    | true =>
      obtain ⟨front, behind, same, count⟩ := next.later begun
      have reads := reads.2
      unfold completes at reads
      rw [shape, begun, texts] at reads
      cases line : meter.read (meter.text true ((meter.after reading chunk).open_ ++ more)) with
      | error refusal =>
        rw [survey_of_error line] at reads
        cases reads
      | ok values =>
        rw [same, List.append_assoc] at line
        have within := fair.read _ _ _ line
        rw [List.length_append] at within
        omega
    | false =>
      have count := next.first begun
      have early : reading.begun = false ∧ (linesFrom meter.mark reading.open_ chunk).1 = [] := by
        unfold after at begun
        simpa using begun
      obtain ⟨line, member, within⟩ := first early.1
      have here : (linesFrom meter.mark (linesFrom meter.mark reading.open_ chunk).2 rest).1 =
          ((meter.after reading chunk).open_ ++ more) :: later := shape
      rw [early.2, here] at member
      obtain rfl := Option.some.inj member
      rw [List.length_append] at within
      omega

/-! ## Runs -/

/-- A tame text gives its values however it is cut. -/
theorem run_tame (fair : Fair meter) (counted : Counted meter reading) (chunks : List (List α))
    (reads : (survey meter.read (meter.completes reading chunks.flatten)).2 = none)
    (first : reading.begun = false → ∃ line ∈ (linesFrom meter.mark reading.open_ chunks.flatten).1.head?, line.length ≤ meter.limit)
    (last : meter.weight (meter.after reading chunks.flatten).open_ ≤ meter.limit) :
    meter.run reading chunks = ((survey meter.read (meter.completes reading chunks.flatten)).1 ++
      (meter.ending true (meter.after reading chunks.flatten).open_).1, (meter.ending true (meter.after reading chunks.flatten).open_).2) := by
  induction chunks generalizing reading with
  | nil =>
    cases begun : reading.begun with
    | false =>
      obtain ⟨line, member, -⟩ := first begun
      cases member
    | true =>
      rw [run, begun]
      rfl
  | cons chunk chunks ih =>
    rw [List.flatten_cons] at reads first last ⊢
    have fine := reads
    rw [completes_append, fine_append] at fine
    by_cases light : (meter.after reading chunk).count ≤ meter.limit
    · rw [run_of_ok (push_of_fine fine.1 light)]
      have open_ : (meter.after reading (chunk ++ chunks.flatten)).open_ =
          (meter.after (meter.after reading chunk) chunks.flatten).open_ := (after_append reading chunk chunks.flatten).1
      rw [open_] at last ⊢
      rw [ih (counted.after chunk) fine.2 ?_ last, completes_append, survey_append_of_none fine.1, List.append_assoc]
      intro begun
      have early : reading.begun = false ∧ (linesFrom meter.mark reading.open_ chunk).1 = [] := by
        unfold after at begun
        simpa using begun
      obtain ⟨line, member, within⟩ := first early.1
      rw [linesFrom_append] at member
      dsimp only at member
      rw [early.2, List.nil_append] at member
      exact ⟨line, member, within⟩
    · rcases count_le fair counted chunk chunks.flatten reads first last with within | ⟨none_, refusal, closed⟩
      · exact absurd within light
      · obtain ⟨failure, failed⟩ := push_of_heavy (Nat.lt_of_not_le light)
        rw [run_of_error failed, none_, ending, closed]
        rfl

/-- A barren one fails however it is cut. -/
theorem run_barren (counted : Counted meter reading) (light : reading.count ≤ meter.limit) (chunks : List (List α))
    (begun : (meter.after reading chunks.flatten).begun = true)
    (values : (survey meter.read (meter.completes reading chunks.flatten)).1 = [])
    (fails : (survey meter.read (meter.completes reading chunks.flatten)).2 ≠ none ∨
      (∃ refusal, meter.close true (meter.after reading chunks.flatten).open_ = .error refusal) ∨
      meter.Beyond (meter.after reading chunks.flatten).open_) : meter.run reading chunks = ([], true) := by
  induction chunks generalizing reading with
  | nil =>
    have begun : reading.begun = true := by simpa [after, linesFrom] using begun
    rcases fails with late | ⟨refusal, closed⟩ | beyond
    · exact absurd rfl late
    · rw [run, begun, ending, show meter.close true reading.open_ = .error refusal from closed]
    · obtain ⟨front, behind, same, count⟩ := counted.later begun
      have heavy := beyond front behind same
      omega
  | cons chunk chunks ih =>
    rw [List.flatten_cons] at begun values fails
    rcases push_cases meter reading chunk with ⟨⟨refusal, failed⟩, -⟩ | ⟨fine, within, pushed⟩
    · exact run_of_error failed chunks
    · rw [completes_append, survey_append_of_none fine] at values fails
      obtain ⟨here, later⟩ := List.append_eq_nil_iff.mp values
      rw [(after_append reading chunk chunks.flatten).2] at begun
      rw [(after_append reading chunk chunks.flatten).1] at fails
      rw [run_of_ok pushed, here, ih (counted.after chunk) within begun later fails]
      rfl

/-- A text without a line end is counted by its length alone. -/
theorem run_unmarked (first : reading.begun = false) (count : reading.count = reading.open_.length)
    (light : reading.count ≤ meter.limit) (chunks : List (List α)) (unmarked : meter.mark ∉ chunks.flatten) :
    meter.run reading chunks = if meter.limit < (reading.open_ ++ chunks.flatten).length then ([], true)
      else meter.ending false (reading.open_ ++ chunks.flatten) := by
  induction chunks generalizing reading with
  | nil => rw [List.flatten_nil, List.append_nil, if_neg (by omega), run, first]
  | cons chunk chunks ih =>
    rw [List.flatten_cons, List.mem_append, not_or] at unmarked
    have lines := linesFrom_open reading.open_ unmarked.1
    have nothing : meter.completes reading chunk = [] := by
      unfold completes
      rw [lines]
      rfl
    have next : meter.after reading chunk = ⟨false, reading.open_ ++ chunk, (reading.open_ ++ chunk).length⟩ := by
      unfold after
      rw [lines, first]
      simp [count]
    rw [List.flatten_cons, ← List.append_assoc]
    rcases push_cases meter reading chunk with ⟨⟨refusal, failed⟩, why⟩ | ⟨-, within, pushed⟩
    · rw [run_of_error failed, if_pos]
      rw [nothing] at why
      rcases why with late | heavy
      · exact absurd rfl late
      · rw [next] at heavy
        rw [List.length_append]
        exact Nat.lt_of_lt_of_le heavy (Nat.le_add_right _ _)
    · rw [next] at within pushed
      rw [run_of_ok pushed, nothing, ih rfl rfl within unmarked.2]
      rfl

/-! ## Cuts that tell -/

theorem first_line {open_ text line : List α} {later : List (List α)} {mark : α}
    (shape : (linesFrom mark open_ text).1 = line :: later) : ∃ front rest, text = front ++ rest ∧ line = open_ ++ front ∧ mark ∉ front := by
  by_cases ends : mark ∈ text
  · obtain ⟨front, rest, rfl, unmarked⟩ := List.eq_append_cons_of_mem ends
    rw [linesFrom_line open_ rest unmarked] at shape
    exact ⟨front, mark :: rest, rfl, (List.cons.inj shape).1.symm, unmarked⟩
  · rw [linesFrom_open open_ ends] at shape
    cases shape

theorem last_line {open_ text : List α} {mark : α} (some_ : (linesFrom mark open_ text).1 ≠ []) :
    ∃ front, text = front ++ (linesFrom mark open_ text).2 ∧ linesFrom mark open_ front = ((linesFrom mark open_ text).1, []) := by
  induction text using List.reverseRecOn with
  | nil => exact absurd rfl some_
  | append_singleton text x ih =>
    rw [linesFrom_append] at some_ ⊢
    by_cases ends : x = mark
    · subst ends
      rw [linesFrom_mark]
      exact ⟨text ++ [x], (List.append_nil _).symm, by rw [linesFrom_append, linesFrom_mark]; rfl⟩
    · rw [linesFrom_other ends] at some_ ⊢
      dsimp only [linesFrom] at some_ ⊢
      rw [List.append_nil] at some_ ⊢
      obtain ⟨front, same, lines⟩ := ih some_
      refine ⟨front, ?_, lines⟩
      conv => lhs; rw [same]
      rw [List.append_assoc]

/-- Cut behind the first line that has a value, a text gives this value. -/
theorem exists_cut {text : List α} (some_ : (survey meter.read (meter.completes reading text)).1 ≠ []) : ∃ front back,
    text = front ++ back ∧ (survey meter.read (meter.completes reading front)).1 ≠ [] ∧
      (survey meter.read (meter.completes reading front)).2 = none ∧ (linesFrom meter.mark reading.open_ front).1 ≠ [] ∧
      (linesFrom meter.mark reading.open_ front).2 = [] := by
  induction text generalizing reading with
  | nil => exact absurd rfl some_
  | cons x text ih =>
    -- A character that gives no value stands in front of the cut.
    have later (fine : (survey meter.read (meter.completes reading [x])).2 = none)
        (none_ : (survey meter.read (meter.completes reading [x])).1 = []) : ∃ front back, x :: text = front ++ back ∧
        (survey meter.read (meter.completes reading front)).1 ≠ [] ∧ (survey meter.read (meter.completes reading front)).2 = none ∧
        (linesFrom meter.mark reading.open_ front).1 ≠ [] ∧ (linesFrom meter.mark reading.open_ front).2 = [] := by
      rw [← List.singleton_append, completes_append, survey_append_of_none fine, none_, List.nil_append] at some_
      obtain ⟨front, back, rfl, values, fine', lines, open_⟩ := ih some_
      have whole := completes_append meter reading [x] front
      rw [List.singleton_append] at whole
      have both : linesFrom meter.mark reading.open_ (x :: front) = _ := linesFrom_append reading.open_ [x] front
      refine ⟨x :: front, back, rfl, ?_, ?_, ?_, ?_⟩
      · rw [whole, survey_append_of_none fine, none_]
        exact values
      · rw [whole, survey_append_of_none fine]
        exact fine'
      · rw [both]
        exact List.append_ne_nil_of_right_ne_nil _ lines
      · rw [both]
        exact open_
    by_cases ends : x = meter.mark
    · have one : linesFrom x reading.open_ [x] = ([reading.open_], []) := linesFrom_mark reading.open_ []
      have line : meter.completes reading [x] = [meter.text reading.begun reading.open_] := by
        unfold completes
        rw [← ends, one]
        rfl
      rw [line] at later
      cases read : meter.read (meter.text reading.begun reading.open_) with
      | error refusal =>
        rw [← List.singleton_append, completes_append, line, List.singleton_append, survey_of_error read] at some_
        exact absurd rfl some_
      | ok values =>
        rw [survey_of_ok read] at later
        by_cases none_ : values = []
        · exact later rfl (by rw [none_]; rfl)
        · refine ⟨[x], text, rfl, ?_, ?_, ?_, ?_⟩
          · rw [line, survey_of_ok read]
            exact List.append_ne_nil_of_left_ne_nil none_ _
          · rw [line, survey_of_ok read]
            rfl
          · rw [← ends, one]
            exact List.cons_ne_nil _ _
          · rw [← ends, one]
    · have nothing : meter.completes reading [x] = [] := by
        unfold completes
        rw [linesFrom_other ends]
        rfl
      rw [nothing] at later
      exact later rfl rfl

section
variable {text : List α}

/-- The values of a text are given where they are not cut off from their lines. -/
theorem exists_valued (fair : Fair meter) (some_ : (survey meter.read (meter.completes .fresh text)).1 ≠ []) :
    ∃ chunks : List (List α), chunks.flatten = text ∧ (meter.run .fresh chunks).1 ≠ [] := by
  obtain ⟨front, back, rfl, values, fine, lines, open_⟩ := exists_cut some_
  have count : (meter.after .fresh front).count = 0 := by
    unfold after
    dsimp only
    rw [if_neg lines, open_, fair.empty]
  refine ⟨[front, back], by simp, ?_⟩
  rw [run_of_ok (push_of_fine fine (by omega))]
  exact List.append_ne_nil_of_left_ne_nil values _

theorem completes_fresh (text : List α) : meter.completes .fresh text = texts meter.text false (linesFrom meter.mark [] text).1 := rfl

theorem lines_ne_nil {mark : α} (marked : mark ∈ text) : (linesFrom mark [] text).1 ≠ [] := by
  obtain ⟨front, rest, rfl, unmarked⟩ := List.eq_append_cons_of_mem marked
  rw [linesFrom_line [] rest unmarked]
  exact List.cons_ne_nil _ _

/-- A text that is not tame fails where it comes in one piece, or where its first line is cut from its end. -/
theorem exists_failing (marked : meter.mark ∈ text)
    (wild : ¬Tame meter (linesFrom meter.mark [] text).1 (linesFrom meter.mark [] text).2) :
    ∃ chunks : List (List α), chunks.flatten = text ∧ meter.run .fresh chunks = ([], true) := by
  have lines := lines_ne_nil marked
  by_cases reads : (survey meter.read (texts meter.text false (linesFrom meter.mark [] text).1)).2 = none
  · by_cases last : meter.weight (linesFrom meter.mark [] text).2 ≤ meter.limit
    · have long : ∃ line ∈ (linesFrom meter.mark [] text).1.head?, meter.limit < line.length := by
        by_contra none_
        refine wild ⟨reads, fun line member => ?_, last⟩
        by_contra long
        exact none_ ⟨line, member, Nat.lt_of_not_le long⟩
      obtain ⟨line, member, long⟩ := long
      cases shape : (linesFrom meter.mark [] text).1 with
      | nil => exact absurd shape lines
      | cons first later =>
        rw [shape] at member
        obtain rfl := Option.some.inj member
        obtain ⟨front, rest, rfl, same, unmarked⟩ := first_line shape
        rw [List.nil_append] at same
        obtain ⟨refusal, failed⟩ : ∃ refusal, meter.push .fresh front = .error refusal := by
          apply push_of_heavy
          unfold after
          rw [show (Reading.fresh : Reading α).open_ = [] from rfl, linesFrom_open [] unmarked]
          rw [same] at long
          simpa [Reading.fresh] using long
        exact ⟨[front, rest], by simp, run_of_error failed _⟩
    · obtain ⟨refusal, failed⟩ : ∃ refusal, meter.push .fresh text = .error refusal := by
        apply push_of_heavy
        unfold after
        dsimp only
        rw [if_neg (show ¬(linesFrom meter.mark Reading.fresh.open_ text).1 = [] from lines)]
        exact Nat.lt_of_not_le last
      exact ⟨[text], by simp, run_of_error failed _⟩
  · obtain ⟨refusal, failed⟩ : ∃ refusal, meter.push .fresh text = .error refusal := push_of_refused reads
    exact ⟨[text], by simp, run_of_error failed _⟩

/-- A text without values that is not barren can be read to its end. -/
theorem exists_ending (marked : meter.mark ∈ text)
    (values : (survey meter.read (texts meter.text false (linesFrom meter.mark [] text).1)).1 = [])
    (fertile : ¬Barren meter (linesFrom meter.mark [] text).1 (linesFrom meter.mark [] text).2) :
    ∃ chunks : List (List α), chunks.flatten = text ∧ (meter.run .fresh chunks).2 = false := by
  have lines := lines_ne_nil marked
  obtain ⟨front, whole, shape⟩ := last_line lines
  have unmarked : meter.mark ∉ (linesFrom meter.mark [] text).2 := open_unmarked List.not_mem_nil text
  have reads : (survey meter.read (texts meter.text false (linesFrom meter.mark [] text).1)).2 = none := by
    by_contra refused
    exact fertile ⟨values, .inl refused⟩
  have closes : ∀ refusal, meter.close true (linesFrom meter.mark [] text).2 ≠ .error refusal :=
    fun refusal failed => fertile ⟨values, .inr (.inl ⟨refusal, failed⟩)⟩
  have light : ¬meter.Beyond (linesFrom meter.mark [] text).2 := fun beyond => fertile ⟨values, .inr (.inr beyond)⟩
  unfold Beyond at light
  simp only [not_forall, Nat.not_lt, exists_prop] at light
  obtain ⟨first, second, same, within⟩ := light
  rw [same] at whole unmarked closes
  rw [List.mem_append, not_or] at unmarked
  have early : linesFrom meter.mark [] (front ++ first) = ((linesFrom meter.mark [] text).1, first) := by
    rw [linesFrom_append, shape, linesFrom_open [] unmarked.1, List.append_nil]
    rfl
  have one : meter.push .fresh (front ++ first) = .ok ([], ⟨true, first, meter.weight first⟩) := by
    have next : meter.after .fresh (front ++ first) = ⟨true, first, meter.weight first⟩ := by
      unfold after
      rw [show (Reading.fresh : Reading α).open_ = [] from rfl, early]
      simp [lines]
    have completes : meter.completes .fresh (front ++ first) = texts meter.text false (linesFrom meter.mark [] text).1 := by
      rw [completes_fresh, early]
    rw [push_of_fine (by rw [completes]; exact reads) (by rw [next]; dsimp only; omega), next, completes, values]
  have two : meter.push ⟨true, first, meter.weight first⟩ second =
      .ok ([], ⟨true, first ++ second, meter.weight first + second.length⟩) := by
    have open_ := linesFrom_open first unmarked.2
    have next : meter.after ⟨true, first, meter.weight first⟩ second = ⟨true, first ++ second, meter.weight first + second.length⟩ := by
      unfold after
      rw [open_]
      rfl
    have completes : meter.completes ⟨true, first, meter.weight first⟩ second = [] := by
      unfold Meter.completes
      rw [open_]
      rfl
    rw [push_of_fine (by rw [completes]; rfl) (by rw [next]; exact within), next, completes]
    rfl
  refine ⟨[front ++ first, second], by rw [whole]; simp, ?_⟩
  rw [run_of_ok one, run_of_ok two, run, ending]
  cases closed : meter.close true (first ++ second) with
  | error refusal => exact absurd closed (closes refusal)
  | ok values => rfl

end

/-- **When the cuts do not matter.** -/
theorem run_independent_iff (fair : Fair meter) (text : List α) :
    (∀ first second : List (List α), first.flatten = text → second.flatten = text →
        meter.run .fresh first = meter.run .fresh second) ↔
      meter.mark ∉ text ∨ Tame meter (linesFrom meter.mark [] text).1 (linesFrom meter.mark [] text).2 ∨
        Barren meter (linesFrom meter.mark [] text).1 (linesFrom meter.mark [] text).2 := by
  constructor
  · intro same
    by_contra neither
    rw [not_or, not_or, not_not] at neither
    obtain ⟨marked, wild, fertile⟩ := neither
    obtain ⟨failing, whole, failed⟩ := exists_failing marked wild
    by_cases values : (survey meter.read (texts meter.text false (linesFrom meter.mark [] text).1)).1 = []
    · obtain ⟨ending, whole', ends⟩ := exists_ending marked values fertile
      rw [same ending failing whole' whole, failed] at ends
      cases ends
    · obtain ⟨valued, whole', some_⟩ := exists_valued fair values
      rw [same valued failing whole' whole, failed] at some_
      exact some_ rfl
  · have all (outcome : List β × Bool) (each : ∀ chunks : List (List α), chunks.flatten = text → meter.run .fresh chunks = outcome) :
        ∀ first second : List (List α), first.flatten = text → second.flatten = text →
          meter.run .fresh first = meter.run .fresh second :=
      fun first second whole whole' => (each first whole).trans (each second whole').symm
    by_cases marked : meter.mark ∈ text
    · have lines := lines_ne_nil marked
      rintro (unmarked | tame | barren)
      · exact absurd marked unmarked
      · refine all ((survey meter.read (meter.completes .fresh text)).1 ++ (meter.ending true (meter.after .fresh text).open_).1,
          (meter.ending true (meter.after .fresh text).open_).2) ?_
        rintro chunks rfl
        refine run_tame fair counted_fresh chunks tame.reads (fun _ => ?_) tame.last
        cases shape : (linesFrom meter.mark [] chunks.flatten).1 with
        | nil => exact absurd shape lines
        | cons line later =>
          have first := tame.first
          rw [shape] at first
          exact ⟨line, congrArg List.head? shape, first line rfl⟩
      · apply all ([], true)
        rintro chunks rfl
        refine run_barren counted_fresh (Nat.zero_le _) chunks ?_ barren.values barren.fails
        unfold after
        rw [show (Reading.fresh : Reading α).open_ = [] from rfl]
        simp [lines]
    · intro _
      refine all (if meter.limit < ([] ++ text).length then ([], true) else meter.ending false ([] ++ text)) ?_
      rintro chunks rfl
      exact run_unmarked rfl rfl (show Reading.fresh.count ≤ meter.limit from Nat.zero_le _) chunks marked

end Meter

end Foundation
