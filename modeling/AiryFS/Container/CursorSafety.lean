import AiryFS.Container.Cursor

/-! A cursor tells what became of every step of its batch. -/

set_option autoImplicit false

namespace AiryFS

open Foundation

open Hrana (HranaValue Col StmtResult BatchResult)

namespace Cursor

/-! ## Members -/

@[simp] theorem get_none (name : String) : get none name = none := rfl

@[simp] theorem get_objectOf_nil (name : String) : get (objectOf []) name = none := rfl

/-- The last member of a name is the one that counts. -/
@[simp] theorem get_objectOf_cons (member : String × Option Json) (members : List (String × Option Json)) (name : String) :
    get (objectOf (member :: members)) name =
      (get (objectOf members) name).or (if member.1 = name then member.2 else none) := by
  obtain ⟨first, value⟩ := member
  cases value with
  | none => simp [get, objectOf]
  | some value =>
    by_cases same : first = name
    · simp only [get, objectOf, Json.field, List.find?_append, same, List.filterMap_cons, Option.map_some, List.reverse_cons,
        Option.bind_some, List.find?_cons, decide_true, if_true]
      generalize List.find? _ (List.filterMap _ members).reverse = found
      cases found <;> rfl
    · have different : ¬first.toList = name.toList := fun equal => same (String.toList_inj.mp equal)
      simp [get, objectOf, Json.field, List.find?_append, same, different]

@[simp] theorem truthy_objectOf (members : List (String × Option Json)) : truthy (objectOf members) = true := rfl

@[simp] theorem isText_textJson (found text : String) : isText (textJson found) text = decide (found = text) := by
  simp [isText, textJson, String.toList_inj]

@[simp] theorem readText_textJson (text : String) : readText (textJson text) = some text.toList := rfl

@[simp] theorem readNullable_nullable (value : Option Text) : readNullable (nullable value) = some value := by
  cases value <;> rfl

@[simp] theorem readNatural_naturalJson (value : Nat) : readNatural (naturalJson value) = some value := by
  simp [readNatural, naturalJson]

/-! ## Values, columns and rows read back -/

theorem readValue_valueJson (value : HranaValue) : readValue (valueJson value) = some value := by
  cases value <;> simp [valueJson, readValue, readText]

theorem readCol_colJson (col : Col) : readCol (colJson col) = some col := by
  simp [readCol, colJson]

theorem readItems_map {α : Type} {read : Json → Option α} {write : α → Json} (back : ∀ value, read (write value) = some value)
    (values : List α) : readItems read (.array (values.map write)) = some values := by
  unfold readItems
  induction values with
  | nil => rfl
  | cons value values ih =>
    simp only [List.map_cons, List.mapM_cons, back] at ih ⊢
    rw [ih]
    rfl

/-! ## Events read back -/

theorem readEvent_failed (i : Nat) (message code : Text) :
    readEvent (objectOf [("type", textJson "step_error"), ("step", naturalJson i),
      ("error", objectOf [("message", some (.string message)), ("code", some (.string code))])]) =
      some (.failed i message code) := by
  simp [readEvent, readText]

theorem readEvent_begun (i : Nat) (cols : List Col) :
    readEvent (objectOf [("type", textJson "step_begin"), ("step", naturalJson i), ("cols", some (.array (cols.map colJson)))]) =
      some (.started i cols) := by
  simp [readEvent, readItems_map readCol_colJson]

theorem readEvent_ended (affectedRowCount : Nat) (lastInsertRowid : Option Text) :
    readEvent (objectOf [("type", textJson "step_end"), ("affected_row_count", naturalJson affectedRowCount),
      ("last_inserted_rowid", nullable lastInsertRowid)]) = some (.ended affectedRowCount lastInsertRowid) := by
  simp [readEvent]

/-! ## Steps read back -/

theorem rowLine_rowJson (row : List HranaValue) :
    rowLine (rowJson row) = objectOf [("type", textJson "row"), ("row", some (.array (row.map valueJson)))] := by
  simp [rowLine, rowJson, orElse, truthy]

theorem readEvent_row (row : List HranaValue) : readEvent (rowLine (rowJson row)) = some (.row row) := by
  rw [rowLine_rowJson]
  simp [readEvent, readItems_map readValue_valueJson]

/-- The code of an error that has none. -/
def codeOf (code : Option Text) : Text := if code.getD [] = [] then "UNKNOWN".toList else code.getD []

/-- What a cursor has to say of a step. -/
def StepOutcome.report (i : Nat) : StepOutcome → List Report
  | .skipped => []
  | .failed message code => [⟨i, .failed message (codeOf code)⟩]
  | .executed result => [⟨i, .executed result.cols result.rows result.affectedRowCount result.lastInsertRowid⟩]

/-- The reports of the steps from an index on. -/
def reportsFrom : Nat → List StepOutcome → List Report
  | _, [] => []
  | i, step :: steps => step.report i ++ reportsFrom (i + 1) steps

def reports (steps : List StepOutcome) : List Report := reportsFrom 0 steps

/-- The row of an insertion has a number, so it is not written as an empty text. -/
def StepOutcome.Named : StepOutcome → Prop
  | .executed result => result.lastInsertRowid ≠ some []
  | _ => True

theorem assemble_rows (begun : Begun) (rows : List (List HranaValue)) (lines : List Json) :
    assemble (some begun) (rows.map (fun row => rowLine (rowJson row)) ++ lines) =
      assemble (some { begun with rows := begun.rows ++ rows }) lines := by
  induction rows generalizing begun with
  | nil => simp
  | cons row rows ih =>
    have first : assemble (some begun) (rowLine (rowJson row) :: (rows.map (fun row => rowLine (rowJson row)) ++ lines)) =
        assemble (some { begun with rows := begun.rows ++ [row] }) (rows.map (fun row => rowLine (rowJson row)) ++ lines) := by
      simp [assemble, readEvent_row]
    rw [List.map_cons, List.cons_append, first, ih, List.append_assoc]
    rfl

theorem orElse_naturalJson (value : Nat) : orElse (naturalJson value) (naturalJson 0) = naturalJson value := by
  by_cases zero : value = 0
  · subst zero
    rfl
  · simp [orElse, truthy, naturalJson, zero]

theorem orElse_nullable {value : Option Text} (named : value ≠ some []) : orElse (nullable value) .null = nullable value := by
  cases value with
  | none => rfl
  | some text =>
    have filled : text ≠ [] := fun empty => named (by rw [empty])
    simp [orElse, truthy, nullable, filled]

theorem stepLines_failed (i : Nat) (message : Text) (code : Option Text) :
    stepLines i (StepOutcome.failed message code).errorJson (StepOutcome.failed message code).resultJson =
      [objectOf [("type", textJson "step_error"), ("step", naturalJson i),
        ("error", objectOf [("message", some (.string message)), ("code", some (.string (codeOf code)))])]] := by
  have spelled : orElse (code.map Json.string) (textJson "UNKNOWN") = .string (codeOf code) := by
    cases code with
    | none => rfl
    | some code => by_cases empty : code = [] <;> simp [codeOf, orElse, truthy, empty, textJson]
  simp [stepLines, StepOutcome.errorJson, spelled]

theorem stepLines_executed (i : Nat) {result : StmtResult} (named : (StepOutcome.executed result).Named) :
    stepLines i (StepOutcome.executed result).errorJson (StepOutcome.executed result).resultJson =
      objectOf [("type", textJson "step_begin"), ("step", naturalJson i), ("cols", some (.array (result.cols.map colJson)))] ::
        ((result.rows.map fun row => rowLine (rowJson row)) ++
        [objectOf [("type", textJson "step_end"), ("affected_row_count", naturalJson result.affectedRowCount),
          ("last_inserted_rowid", nullable result.lastInsertRowid)]]) := by
  have list : ∀ items, orElse (some (.array items)) (.array []) = .array items := fun _ => rfl
  have none_ : truthy .null = false := rfl
  simp [stepLines, StepOutcome.errorJson, StepOutcome.resultJson, stmtResultJson, none_, list, itemsOf,
    orElse_naturalJson, orElse_nullable named, Function.comp_def]

/-- The events of one step are its report. -/
theorem assemble_step (i : Nat) {step : StepOutcome} (named : step.Named) (lines : List Json) :
    assemble none (stepLines i step.errorJson step.resultJson ++ lines) = (assemble none lines).map (step.report i ++ ·) := by
  cases step with
  | skipped => simp [StepOutcome.errorJson, StepOutcome.resultJson, stepLines, truthy, StepOutcome.report]
  | failed message code =>
    rw [stepLines_failed, List.singleton_append]
    simp only [assemble, readEvent_failed]
    rfl
  | executed result =>
    have begun : ∀ rest, assemble none (objectOf [("type", textJson "step_begin"), ("step", naturalJson i),
        ("cols", some (.array (result.cols.map colJson)))] :: rest) = assemble (some ⟨i, result.cols, []⟩) rest := by
      intro rest
      simp only [assemble, readEvent_begun]
    have ended : ∀ rows, assemble (some ⟨i, result.cols, rows⟩) (objectOf [("type", textJson "step_end"),
        ("affected_row_count", naturalJson result.affectedRowCount),
        ("last_inserted_rowid", nullable result.lastInsertRowid)] :: lines) =
        (assemble none lines).map
          (⟨i, .executed result.cols rows result.affectedRowCount result.lastInsertRowid⟩ :: ·) := by
      intro rows
      simp only [assemble, readEvent_ended]
    rw [stepLines_executed i named, List.cons_append, List.append_assoc, begun, assemble_rows, List.singleton_append, ended]
    rfl

theorem assemble_steps (front : List StepOutcome) {steps : List StepOutcome} (named : ∀ step ∈ steps, step.Named) :
    assemble none (batchLines ((front ++ steps).map StepOutcome.errorJson) front.length (steps.map StepOutcome.resultJson)) =
      some (reportsFrom front.length steps) := by
  induction steps generalizing front with
  | nil => rfl
  | cons step steps ih =>
    have later := ih (front ++ [step]) fun other member => named other (List.mem_cons_of_mem _ member)
    rw [List.append_assoc, List.singleton_append, List.length_append, List.length_singleton] at later
    have here : ((front ++ step :: steps).map StepOutcome.errorJson)[front.length]? = some step.errorJson := by simp
    rw [List.map_cons, batchLines, here, assemble_step _ (named step List.mem_cons_self), later]
    rfl

theorem cursorLines_pipelineJson (baton : Option Text) (steps : List StepOutcome) :
    cursorLines (pipelineJson baton steps) = objectOf [("baton", nullable baton), ("base_url", some .null)] ::
      batchLines (steps.map StepOutcome.errorJson) 0 (steps.map StepOutcome.resultJson) := by
  have list : ∀ items, orElse (some (.array items)) (.array []) = .array items := fun _ => rfl
  simp [cursorLines, pipelineJson, batchResultJson, list, itemsOf]

/-! ## The reports -/

theorem le_of_mem_reportsFrom {k : Nat} {steps : List StepOutcome} {report : Report} (member : report ∈ reportsFrom k steps) :
    k ≤ report.step := by
  induction steps generalizing k with
  | nil => cases member
  | cons step steps ih =>
    rcases List.mem_append.mp member with here | later
    · cases step with
      | skipped => cases here
      | failed message code => rw [List.mem_singleton.mp here]
      | executed result => rw [List.mem_singleton.mp here]
    · exact Nat.le_of_succ_le (ih later)

theorem step_of_mem_report {i : Nat} {step : StepOutcome} {report : Report} (member : report ∈ step.report i) :
    report.step = i := by
  cases step with
  | skipped => cases member
  | failed message code => rw [List.mem_singleton.mp member]
  | executed result => rw [List.mem_singleton.mp member]

/-- The steps are reported in order. -/
theorem reportsFrom_increasing (k : Nat) (steps : List StepOutcome) :
    (reportsFrom k steps).Pairwise fun first second => first.step < second.step := by
  induction steps generalizing k with
  | nil => exact .nil
  | cons step steps ih =>
    refine List.pairwise_append.mpr ⟨?_, ih (k + 1), ?_⟩
    · cases step with
      | skipped => exact .nil
      | failed message code => exact List.pairwise_singleton _ _
      | executed result => exact List.pairwise_singleton _ _
    · intro first here second later
      have bound := le_of_mem_reportsFrom later
      rw [step_of_mem_report here]
      omega

/-- What is reported of a step is what became of it. -/
theorem filter_reportsFrom (k : Nat) {steps : List StepOutcome} {i : Nat} {step : StepOutcome} (there : steps[i]? = some step) :
    (reportsFrom k steps).filter (fun report => report.step = k + i) = step.report (k + i) := by
  induction steps generalizing k i with
  | nil => cases there
  | cons first steps ih =>
    rw [reportsFrom, List.filter_append]
    cases i with
    | zero =>
      cases there
      have own : (step.report k).filter (fun report => report.step = k + 0) = step.report k :=
        List.filter_eq_self.mpr fun report member => decide_eq_true (step_of_mem_report member)
      have others : (reportsFrom (k + 1) steps).filter (fun report => report.step = k + 0) = [] := by
        refine List.filter_eq_nil_iff.mpr fun report member => ?_
        have bound := le_of_mem_reportsFrom member
        simp only [decide_eq_true_eq]
        omega
      rw [own, others, List.append_nil]
      rfl
    | succ i =>
      have own : (first.report k).filter (fun report => report.step = k + (i + 1)) = [] := by
        refine List.filter_eq_nil_iff.mpr fun report member => ?_
        have index := step_of_mem_report member
        simp only [decide_eq_true_eq]
        omega
      have later := ih (k + 1) (by simpa using there)
      have index : k + 1 + i = k + (i + 1) := by omega
      rw [index] at later
      rw [own, later, List.nil_append]

/-! ## Numbers -/

/-- The numbers of a result are spelled so that they read back. -/
structure SpelledResult (numeral : Rat → Text) (result : StmtResult) : Prop where
  affectedRowCount : Json.Legible numeral result.affectedRowCount
  rowsRead : Json.Legible numeral result.rowsRead
  rowsWritten : Json.Legible numeral result.rowsWritten
  queryDurationMs : Json.Legible numeral result.queryDurationMs
  floats : ∀ row ∈ result.rows, ∀ value, .float value ∈ row → Json.Legible numeral value

structure Spelled (numeral : Rat → Text) (steps : List StepOutcome) : Prop where
  indexes : ∀ i < steps.length, Json.Legible numeral (i : Rat)
  results : ∀ result, .executed result ∈ steps → SpelledResult numeral result

variable {numeral : Rat → Text}

@[simp] theorem printable_array (items : List Json) :
    Json.Printable numeral (.array items) ↔ ∀ item ∈ items, Json.Printable numeral item := by
  induction items with
  | nil => simp [Json.Printable, Json.PrintableItems]
  | cons item items ih =>
    rw [List.forall_mem_cons, ← ih]
    rfl

@[simp] theorem printable_objectOf (members : List (String × Option Json)) :
    Json.Printable numeral (objectOf members) ↔
      ∀ member ∈ members, ∀ value, member.2 = some value → Json.Printable numeral value := by
  induction members with
  | nil => simp [objectOf, Json.Printable, Json.PrintableMembers]
  | cons member members ih =>
    rw [List.forall_mem_cons, ← ih]
    obtain ⟨name, value⟩ := member
    cases value with
    | none => simp [objectOf]
    | some value => simp [objectOf, Json.Printable, Json.PrintableMembers]

@[simp] theorem printable_textJson (text : String) : Json.Printable numeral (textJson text) := trivial

@[simp] theorem printable_string (text : Text) : Json.Printable numeral (.string text) := trivial

@[simp] theorem printable_null : Json.Printable numeral .null := trivial

@[simp] theorem printable_nullable (value : Option Text) : Json.Printable numeral (nullable value) := by
  cases value <;> trivial

@[simp] theorem printable_naturalJson (value : Nat) :
    Json.Printable numeral (naturalJson value) ↔ Json.Legible numeral (value : Rat) := Iff.rfl

theorem SpelledResult.row {result : StmtResult} (spelled : SpelledResult numeral result) {row : List HranaValue}
    (member : row ∈ result.rows) : Json.Printable numeral (.array (row.map valueJson)) := by
  rw [printable_array]
  intro item listed
  obtain ⟨value, inside, rfl⟩ := List.mem_map.mp listed
  cases value with
  | float number =>
    have legible : Json.Printable numeral (.number (some number)) := spelled.floats row member number inside
    simpa [valueJson] using legible
  | null => simp [valueJson]
  | integer value => simp [valueJson]
  | text value => simp [valueJson]
  | blob base64 => simp [valueJson]

theorem printable_cols (cols : List Col) : Json.Printable numeral (.array (cols.map colJson)) := by
  simp [colJson]

theorem Spelled.pipeline (baton : Option Text) {steps : List StepOutcome} (spelled : Spelled numeral steps) :
    Json.Printable numeral (pipelineJson baton steps) := by
  have results : ∀ step ∈ steps, Json.Printable numeral step.resultJson := by
    intro step member
    cases step with
    | skipped => trivial
    | failed message code => trivial
    | executed result =>
      have numbers := spelled.results result member
      have rows : ∀ row ∈ result.rows, Json.Printable numeral (rowJson row) := fun row inside => by
        simpa [rowJson] using numbers.row inside
      have cols := @printable_cols numeral result.cols
      simp only [printable_array, List.mem_map, forall_exists_index, and_imp, forall_apply_eq_imp_iff₂] at cols
      simp [StepOutcome.resultJson, stmtResultJson, numbers.affectedRowCount, numbers.rowsRead, numbers.rowsWritten,
        numbers.queryDurationMs]
      exact ⟨cols, rows⟩
  have errors : ∀ step ∈ steps, Json.Printable numeral step.errorJson := by
    intro step member
    cases step with
    | skipped => trivial
    | executed result => trivial
    | failed message code => simp [StepOutcome.errorJson]
  simp [pipelineJson, batchResultJson]
  exact ⟨results, errors⟩

theorem printable_batchLines (front : List StepOutcome) {steps : List StepOutcome} (named : ∀ step ∈ steps, step.Named)
    (spelled : Spelled numeral (front ++ steps)) :
    ∀ line ∈ batchLines ((front ++ steps).map StepOutcome.errorJson) front.length (steps.map StepOutcome.resultJson),
      Json.Printable numeral line := by
  induction steps generalizing front with
  | nil => simp [batchLines]
  | cons step steps ih =>
    have later := ih (front ++ [step]) (fun other member => named other (List.mem_cons_of_mem _ member))
      (by rwa [List.append_assoc, List.singleton_append])
    rw [List.append_assoc, List.singleton_append, List.length_append, List.length_singleton] at later
    have here : ((front ++ step :: steps).map StepOutcome.errorJson)[front.length]? = some step.errorJson := by simp
    have index : Json.Legible numeral (front.length : Rat) := spelled.indexes front.length (by simp)
    intro line member
    rw [List.map_cons, batchLines, here] at member
    rcases List.mem_append.mp member with own | rest
    · cases step with
      | skipped => simp [stepLines, StepOutcome.errorJson, StepOutcome.resultJson, truthy] at own
      | failed message code =>
        rw [stepLines_failed, List.mem_singleton] at own
        rw [own]
        simp [index]
      | executed result =>
        have numbers := spelled.results result (by simp)
        rw [stepLines_executed _ (named _ List.mem_cons_self)] at own
        rcases List.mem_cons.mp own with begun | own
        · rw [begun]
          simpa [index] using @printable_cols numeral result.cols
        · rcases List.mem_append.mp own with row | ended
          · obtain ⟨row, inside, rfl⟩ := List.mem_map.mp row
            rw [rowLine_rowJson]
            simpa using numbers.row inside
          · rw [List.mem_singleton.mp ended]
            simp [numbers.affectedRowCount]
    · exact later line rest

theorem Spelled.lines (baton : Option Text) {steps : List StepOutcome} (named : ∀ step ∈ steps, step.Named)
    (spelled : Spelled numeral steps) :
    ∀ line ∈ cursorLines (pipelineJson baton steps), Json.Printable numeral line := by
  rw [cursorLines_pipelineJson]
  intro line member
  rcases List.mem_cons.mp member with header | event
  · rw [header]
    simp
  · exact printable_batchLines [] named spelled line event

/-! ## Faithfulness -/

/-- The cursor of a batch is read as what became of its steps: in the order of the steps, of a
failed one its error, of an executed one everything the response has, and of a skipped one
nothing. -/
theorem cursor_faithful (baton : Option Text) {steps : List StepOutcome} (named : ∀ step ∈ steps, step.Named)
    (spelled : Spelled numeral steps) :
    (handleCursor numeral (Json.print numeral (pipelineJson baton steps))).bind readCursor = some (baton, reports steps) ∧
      (reports steps).Pairwise (fun first second => first.step < second.step) ∧
      ∀ i step, steps[i]? = some step → (reports steps).filter (fun report => report.step = i) = step.report i := by
  refine ⟨?_, reportsFrom_increasing 0 steps, ?_⟩
  · have lines := Json.parseLines_printLines (spelled.lines baton named)
    rw [handleCursor, Json.parse_print (spelled.pipeline baton), Option.map_some, Option.bind_some, readCursor, lines,
      cursorLines_pipelineJson]
    have events := assemble_steps [] named
    simp only [List.nil_append, List.length_nil] at events
    simp [events, reports]
  · intro i step there
    simpa [reports] using filter_reportsFrom 0 there

/-- Naturals as they are spelled. -/
def plainNumeral (value : Rat) : Text := Nat.toDigits 10 value.num.toNat

theorem legible_plainNumeral {n : Nat} (small : n < 2 ^ 53) : Json.Legible plainNumeral (n : Rat) :=
  ⟨Json.toDouble_natCast small, fun _ ends => Json.parseNumber_natural n ends⟩

def sampleResult : StmtResult := { Hrana.EMPTY_RESULT with
  cols := [⟨some "id".toList, none⟩]
  rows := [[.integer "7".toList], [.null]]
  affectedRowCount := 2
  lastInsertRowid := some "7".toList }

theorem cursor_faithful_sample :
    (handleCursor plainNumeral (Json.print plainNumeral
      (pipelineJson none [.executed sampleResult, .skipped, .failed "busy".toList none]))).bind readCursor =
      some (none, reports [.executed sampleResult, .skipped, .failed "busy".toList none]) := by
  refine (cursor_faithful none ?_ ?_).1
  · intro step member
    simp only [List.mem_cons, List.not_mem_nil, or_false] at member
    rcases member with rfl | rfl | rfl
    · exact show sampleResult.lastInsertRowid ≠ some [] by decide
    · trivial
    · trivial
  · refine ⟨fun i small => legible_plainNumeral (lt_trans small (by decide)), ?_⟩
    intro result member
    obtain rfl : result = sampleResult := by simpa using member
    refine ⟨legible_plainNumeral (by decide), legible_plainNumeral (by decide), legible_plainNumeral (by decide),
      legible_plainNumeral (by decide), ?_⟩
    intro row inside value listed
    simp only [sampleResult, List.mem_cons, List.not_mem_nil, or_false] at inside
    rcases inside with rfl | rfl <;> simp at listed

end Cursor

end AiryFS
