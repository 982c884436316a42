import AiryFS.Foundation.JsonLines
import AiryFS.Hrana.HranaServer

/-! Cursors of the container bridge: the response to a batch, flattened into lines.

A batch comes back as two lists with an entry for every step. A cursor writes what happened as
events, one on a line, and leaves out the steps that were skipped. Its reader puts the events
together again by where they stand.
-/

set_option autoImplicit false

namespace AiryFS

open Foundation

open Hrana (HranaValue Col StmtResult BatchResult)

namespace Cursor

/-! ## Responses -/

/-- What became of a step. -/
inductive StepOutcome where
  | skipped
  | failed (message : Text) (code : Option Text)
  | executed (result : StmtResult)
  deriving DecidableEq

/-- An object of the members that are defined. -/
def objectOf (members : List (String × Option Json)) : Json :=
  .object (members.filterMap fun member => member.2.map fun value => (member.1.toList, value))

def textJson (text : String) : Json := .string text.toList

def nullable (value : Option Text) : Json := value.elim .null .string

def naturalJson (value : Nat) : Json := .number (some (value : Rat))

def valueJson : HranaValue → Json
  | .null => objectOf [("type", textJson "null")]
  | .integer value => objectOf [("type", textJson "integer"), ("value", some (.string value))]
  | .float value => objectOf [("type", textJson "float"), ("value", some (.number (some value)))]
  | .text value => objectOf [("type", textJson "text"), ("value", some (.string value))]
  | .blob base64 => objectOf [("type", textJson "blob"), ("base64", some (.string base64))]

def colJson (col : Col) : Json := objectOf [("name", nullable col.name), ("decltype", nullable col.decltype)]

def rowJson (row : List HranaValue) : Json := objectOf [("values", some (.array (row.map valueJson)))]

def stmtResultJson (result : StmtResult) : Json := objectOf [
  ("cols", some (.array (result.cols.map colJson))),
  ("rows", some (.array (result.rows.map rowJson))),
  ("affected_row_count", naturalJson result.affectedRowCount),
  ("last_insert_rowid", nullable result.lastInsertRowid),
  ("replication_index", nullable result.replicationIndex),
  ("rows_read", naturalJson result.rowsRead),
  ("rows_written", naturalJson result.rowsWritten),
  ("query_duration_ms", naturalJson result.queryDurationMs)]

namespace StepOutcome

def resultJson : StepOutcome → Json
  | .executed result => stmtResultJson result
  | _ => .null

def errorJson : StepOutcome → Json
  | .failed message code => objectOf [("message", some (.string message)), ("code", code.map .string)]
  | _ => .null

end StepOutcome

def batchResultJson (steps : List StepOutcome) : Json := objectOf [
  ("step_results", some (.array (steps.map StepOutcome.resultJson))),
  ("step_errors", some (.array (steps.map StepOutcome.errorJson)))]

/-- The response to a pipeline of one batch. -/
def pipelineJson (baton : Option Text) (steps : List StepOutcome) : Json := objectOf [
  ("baton", nullable baton),
  ("base_url", some .null),
  ("results", some (.array [objectOf [
    ("type", textJson "ok"),
    ("response", objectOf [("type", textJson "batch"), ("result", batchResultJson steps)])]]))]

/-! ## Flattening -/

/-- What a condition takes for true. -/
def truthy : Json → Bool
  | .null => false
  | .bool value => value
  | .number value => value ≠ some 0
  | .string text => text ≠ []
  | .array _ => true
  | .object _ => true

/-- `value?.name` -/
def get (value : Option Json) (name : String) : Option Json := value.bind fun value => value.field name.toList

/-- `value || other` -/
def orElse (value : Option Json) (other : Json) : Json :=
  match value with
  | some value => if truthy value then value else other
  | none => other

def isText (value : Option Json) (text : String) : Bool :=
  match value with
  | some (.string found) => found = text.toList
  | _ => false

/-- The items of what is a list. -/
def itemsOf : Json → List Json
  | .array items => items
  | _ => []

def rowLine (row : Json) : Json := objectOf [("type", textJson "row"), ("row", orElse (get row "values") row)]

def stepLines (i : Nat) (stepError stepResult : Option Json) : List Json :=
  if stepError.any truthy then
    [objectOf [("type", textJson "step_error"), ("step", naturalJson i),
      ("error", objectOf [("message", get stepError "message"),
        ("code", orElse (get stepError "code") (textJson "UNKNOWN"))])]]
  else if !stepResult.any truthy then []
  else
    objectOf [("type", textJson "step_begin"), ("step", naturalJson i), ("cols", orElse (get stepResult "cols") (.array []))] ::
    (itemsOf (orElse (get stepResult "rows") (.array []))).map rowLine ++
    [objectOf [("type", textJson "step_end"),
      ("affected_row_count", orElse (get stepResult "affected_row_count") (naturalJson 0)),
      ("last_inserted_rowid", orElse (get stepResult "last_insert_rowid") .null)]]

/-- The loop over the results, from the index on. -/
def batchLines (stepErrors : List Json) : Nat → List Json → List Json
  | _, [] => []
  | i, stepResult :: stepResults => stepLines i stepErrors[i]? stepResult ++ batchLines stepErrors (i + 1) stepResults

def cursorLines (pipelineResp : Json) : List Json :=
  objectOf [("baton", get pipelineResp "baton"), ("base_url", get pipelineResp "base_url")] ::
  let batchResult := (get pipelineResp "results").bind fun results => (itemsOf results)[0]?
  if isText (get batchResult "type") "ok" && isText (get (get batchResult "response") "type") "batch" then
    let result := get (get batchResult "response") "result"
    let stepResults := itemsOf (orElse (get result "step_results") (.array []))
    let stepErrors := itemsOf (orElse (get result "step_errors") (.array []))
    batchLines stepErrors 0 stepResults
  else if isText (get batchResult "type") "error" then
    [objectOf [("type", textJson "error"), ("error", orElse (get (get batchResult "error") "message") (textJson "unknown error"))]]
  else []

/-- The text of the cursor, from the frame that answers the batch. -/
def handleCursor (numeral : Rat → Text) (responseFrame : Text) : Option Text :=
  (Json.parse responseFrame).map fun pipelineResp => Json.printLines numeral (cursorLines pipelineResp)

/-! ## Reading a cursor -/

inductive Outcome where
  | failed (message code : Text)
  | executed (cols : List Col) (rows : List (List HranaValue)) (affectedRowCount : Nat) (lastInsertRowid : Option Text)
  deriving DecidableEq

structure Report where
  step : Nat
  outcome : Outcome
  deriving DecidableEq

def readText : Json → Option Text
  | .string text => some text
  | _ => none

def readNullable : Json → Option (Option Text)
  | .null => some none
  | .string text => some (some text)
  | _ => none

def readNatural : Json → Option Nat
  | .number (some value) => if value.den = 1 ∧ 0 ≤ value.num then some value.num.toNat else none
  | _ => none

def readItems {α : Type} (read : Json → Option α) : Json → Option (List α)
  | .array items => items.mapM read
  | _ => none

def readValue (value : Json) : Option HranaValue :=
  let type := get value "type"
  if isText type "null" then some .null
  else if isText type "integer" then ((get value "value").bind readText).map .integer
  else if isText type "float" then
    match get value "value" with
    | some (.number (some number)) => some (.float number)
    | _ => none
  else if isText type "text" then ((get value "value").bind readText).map .text
  else if isText type "blob" then ((get value "base64").bind readText).map .blob
  else none

def readCol (value : Json) : Option Col := do
  return ⟨← (get value "name").bind readNullable, ← (get value "decltype").bind readNullable⟩

inductive Event where
  | failed (step : Nat) (message code : Text)
  | started (step : Nat) (cols : List Col)
  | row (values : List HranaValue)
  | ended (affectedRowCount : Nat) (lastInsertRowid : Option Text)

def readEvent (line : Json) : Option Event :=
  let type := get line "type"
  if isText type "step_error" then do
    return .failed (← (get line "step").bind readNatural) (← (get (get line "error") "message").bind readText)
      (← (get (get line "error") "code").bind readText)
  else if isText type "step_begin" then do
    return .started (← (get line "step").bind readNatural) (← (get line "cols").bind (readItems readCol))
  else if isText type "row" then do
    return .row (← (get line "row").bind (readItems readValue))
  else if isText type "step_end" then do
    return .ended (← (get line "affected_row_count").bind readNatural) (← (get line "last_inserted_rowid").bind readNullable)
  else none

/-- A step whose end has not been read. -/
structure Begun where
  step : Nat
  cols : List Col
  rows : List (List HranaValue)

/-- The reports of a list of events. A step that does not end, and an event out of place, are refused. -/
def assemble : Option Begun → List Json → Option (List Report)
  | none, [] => some []
  | some _, [] => none
  | begun, line :: lines =>
    match begun, readEvent line with
    | none, some (.failed step message code) => (assemble none lines).map (⟨step, .failed message code⟩ :: ·)
    | none, some (.started step cols) => assemble (some ⟨step, cols, []⟩) lines
    | some begun, some (.row values) => assemble (some { begun with rows := begun.rows ++ [values] }) lines
    | some begun, some (.ended affectedRowCount lastInsertRowid) =>
      (assemble none lines).map (⟨begun.step, .executed begun.cols begun.rows affectedRowCount lastInsertRowid⟩ :: ·)
    | _, _ => none

/-- The baton and the reports of a cursor. -/
def readCursor (text : Text) : Option (Option Text × List Report) :=
  match Json.parseLines text with
  | some (header :: lines) => do
    let baton ← (get header "baton").bind readNullable
    let reports ← assemble none lines
    return (baton, reports)
  | _ => none

end Cursor

end AiryFS
