import AiryFS.Foundation.Attempt
import AiryFS.Hrana.Statements

/-! A Hrana server: statements, batches and sequences against the database of a durable object.

The database is the filesystem tables and whatever else is stored beside them. The server only
reaches it through `exec`, which may fail after it has changed something, as a text of several
statements can, and through the compound statements, which run in a transaction of their own.
-/

set_option autoImplicit false

namespace AiryFS

open Foundation

namespace Hrana

/-! ## The database -/

structure Database (τ : Type) where
  volume : Volume
  other : τ
  deriving DecidableEq

structure SqlCursorResult where
  columnNames : List Text
  rows : List (List (Text × SqlValue))
  rowsRead : Nat
  rowsWritten : Nat

/-- `row[column]`. -/
def columnOf (row : List (Text × SqlValue)) (column : Text) : Option SqlValue :=
  (row.find? fun entry => entry.1 = column).map (·.2)

structure SqlBackend (τ : Type) where
  exec : Text → List SqlValue → Attempt Failure (Database τ) SqlCursorResult

/-- What a compound statement does to the tables, all or nothing. -/
def onVolume {τ α : Type} (operation : Volume → Except Failure (α × Volume)) : Attempt Failure (Database τ) α :=
  fun database =>
    match operation database.volume with
    | .ok (value, volume) => .ok value { database with volume }
    | .error failure => .error failure database

/-! ## Compound statements -/

inductive Compound where
  | pwrite
  | createNode
  | link
  | truncate
  | rename
  deriving DecidableEq, Repr

namespace Compound

def recognise (query : Text) : Option Compound :=
  if isRemotePwriteV1 query then some .pwrite
  else if isRemoteCreateNodeV1 query then some .createNode
  else if isRemoteLinkV1 query then some .link
  else if isRemoteTruncateV1 query then some .truncate
  else if isRemoteRenameV1 query then some .rename
  else none

def name : Compound → String
  | .pwrite => "airyfs_pwrite_v1"
  | .createNode => "airyfs_create_node_v1"
  | .link => "airyfs_link_v1"
  | .truncate => "airyfs_truncate_v1"
  | .rename => "airyfs_rename_v1"

def execute (volume : Volume) (bindings : List JsValue) : Compound → Except Failure (Int × Volume)
  | .pwrite => Remote.executeRemotePwrite volume bindings
  | .createNode => Remote.executeRemoteCreateNode volume bindings
  | .link => Remote.executeRemoteLink volume bindings
  | .truncate => Remote.executeRemoteTruncate volume bindings
  | .rename => Remote.executeRemoteRename volume bindings

def result (outcome : Int) : Compound → StmtResult
  | .pwrite => integerResult "bytes_written" outcome
  | _ => statusResult outcome

/-- Without a `transactionSync` there is no compound statement. -/
def run {τ : Type} (compound : Compound) (transactionSync : Bool) (bindings : List JsValue) :
    Attempt Failure (Database τ) StmtResult := do
  Attempt.lift (refuse (transactionSync = false) (.error (compound.name ++ " requires transaction support")))
  let outcome ← onVolume fun volume => compound.execute volume bindings
  return compound.result outcome

end Compound

/-! ## Statements -/

/-- The values of a statement, in the order in which they are bound. -/
def Stmt.bindings (stmt : Stmt) : Except Failure (List SqlValue) := (stmt.args ++ stmt.namedArgs).mapM hranaToJs

section
variable {τ : Type} (numeral : Rat → Text) (backend : SqlBackend τ)

def TABLE_INFO : Text := "SELECT cid, name, type, \"notnull\", dflt_value, pk FROM pragma_table_info(?)".toList

def TABLE_INFO_COLUMNS : List Text := ["cid", "name", "type", "notnull", "dflt_value", "pk"].map String.toList

def simulateTableInfo (tableName : Text) : Attempt Failure (Database τ) StmtResult := do
  let result ← backend.exec TABLE_INFO [.text tableName]
  return { EMPTY_RESULT with
    cols := TABLE_INFO_COLUMNS.map fun column => { name := some column, decltype := none }
    rows := result.rows.map fun row => TABLE_INFO_COLUMNS.map fun column => jsToHrana numeral (columnOf row column)
    rowsRead := result.rowsRead }

def LAST_INSERT_ROWID : Text := "SELECT last_insert_rowid() as rid".toList

/-- The row a statement that wrote something inserted last, if that can be asked. -/
def lastInsertRowid : Attempt Failure (Database τ) (Option Text) := do
  match ← Attempt.caught (backend.exec LAST_INSERT_ROWID []) with
  | .ok cursor => return stringOf numeral (cursor.rows.head?.bind fun row => columnOf row "rid".toList)
  | .error _ => return none

/-- A statement the database runs as it is. -/
def executePlain (query : Text) (bindings : List SqlValue) : Attempt Failure (Database τ) StmtResult := do
  let cursor ← backend.exec query bindings
  let rowid ← if cursor.rowsWritten > 0 then lastInsertRowid numeral backend else pure none
  return { EMPTY_RESULT with
    cols := cursor.columnNames.map fun column => { name := some column, decltype := none }
    rows := cursor.rows.map fun row => cursor.columnNames.map fun column => jsToHrana numeral (columnOf row column)
    affectedRowCount := cursor.rowsWritten
    lastInsertRowid := rowid
    rowsRead := cursor.rowsRead
    rowsWritten := cursor.rowsWritten }

def executeStmtSync (transactionSync : Bool) (stmt : Stmt) : Attempt Failure (Database τ) StmtResult :=
  let query := stmt.query
  if isBlockedStatement query then pure EMPTY_RESULT
  else if isPragma query then
    match tableInfo query with
    | some table => simulateTableInfo numeral backend table
    | none => pure EMPTY_RESULT
  else do
    let bindings ← Attempt.lift stmt.bindings
    match Compound.recognise query with
    | some compound => compound.run transactionSync (bindings.map SqlValue.toJs)
    | none => executePlain numeral backend query bindings

end

/-! ## Batches -/

/-- A condition as a request carries it. -/
inductive Condition where
  | ok (step : Option Int)
  | error (step : Option Int)
  | not (cond : Condition)
  | and (conds : List Condition)
  | or (conds : List Condition)
  | isAutocommit
  /-- A value without a type, or with one that is not known. -/
  | other
  /-- `null`, `undefined` or a combination of what is not a list: reading it throws. -/
  | malformed (message : String)

structure BatchStep where
  /-- Nothing when the condition is absent or another value that counts as false. -/
  condition : Option Condition
  stmt : Stmt

structure BatchResult where
  stepResults : List (Option StmtResult)
  /-- The messages. -/
  stepErrors : List (Option Text)
  deriving DecidableEq

/-- `step !== undefined && step < entries.length && entries[step] !== null`: there is nothing
before the first entry, and nothing is not `null`. -/
def present {α : Type} (entries : List (Option α)) : Option Int → Bool
  | none => false
  | some step => decide (step < entries.length) && (decide (step < 0) || (entries[step.toNat]?).join.isSome)

mutual

def evaluateCondition (results : List (Option StmtResult)) (errors : List (Option Text)) : Condition → Except Failure Bool
  | .ok step => return present results step
  | .error step => return present errors step
  | .not cond => do
    let holds ← evaluateCondition results errors cond
    return !holds
  | .and conds => everyCondition results errors conds
  | .or conds => someCondition results errors conds
  | .isAutocommit => return true
  | .other => return true
  | .malformed message => throw (.coded "TypeError" message)

def everyCondition (results : List (Option StmtResult)) (errors : List (Option Text)) :
    List Condition → Except Failure Bool
  | [] => return true
  | cond :: conds => do
    let holds ← evaluateCondition results errors cond
    if holds then everyCondition results errors conds else return false

def someCondition (results : List (Option StmtResult)) (errors : List (Option Text)) :
    List Condition → Except Failure Bool
  | [] => return false
  | cond :: conds => do
    let holds ← evaluateCondition results errors cond
    if holds then return true else someCondition results errors conds

end

/-- What a batch has come to. -/
structure Progress where
  results : List (Option StmtResult)
  errors : List (Option Text)
  wrote : Bool

namespace Progress

def start : Progress := ⟨[], [], false⟩

def skip (progress : Progress) : Progress :=
  { progress with results := progress.results ++ [none], errors := progress.errors ++ [none] }

/-- A step that ran, with the statement and how it ended. -/
def record (progress : Progress) (stmt : Stmt) : Except Failure StmtResult → Progress
  | .ok result => ⟨progress.results ++ [some result], progress.errors ++ [none],
      progress.wrote || isMutatingStatement stmt.query⟩
  | .error failure => ⟨progress.results ++ [none], progress.errors ++ [some failure.text], progress.wrote⟩

def result (progress : Progress) : BatchResult := ⟨progress.results, progress.errors⟩

end Progress

/-- `!step.condition || evaluateCondition(step.condition)`. -/
def BatchStep.wanted (step : BatchStep) (progress : Progress) : Except Failure Bool :=
  match step.condition with
  | none => return true
  | some condition => evaluateCondition progress.results progress.errors condition

/-- The loop over the steps, with what runs a statement. -/
@[grind =]
def executeSteps {σ : Type} (run : Stmt → Attempt Failure σ StmtResult) :
    List BatchStep → Progress → Attempt Failure σ Progress
  | [], progress => return progress
  | step :: steps, progress => do
    let wanted ← Attempt.lift (step.wanted progress)
    if wanted then
      let outcome ← Attempt.caught (run step.stmt)
      executeSteps run steps (progress.record step.stmt outcome)
    else executeSteps run steps progress.skip

def isOkCondition (condition : Option Condition) (step : Nat) : Bool :=
  match condition with
  | some (.ok (some value)) => value == step
  | _ => false

def isNotOkCondition (condition : Option Condition) (step : Nat) : Bool :=
  match condition with
  | some (.not cond) => isOkCondition (some cond) step
  | _ => false

/-- The statement without its blanks, in upper case. -/
def Stmt.word (stmt : Stmt) : Text := toUpperCase (trim stmt.query)

/-- Where the body of a batch begins and ends that is one transaction. -/
def canonicalTransactionalBody (steps : List BatchStep) : Option (Nat × Nat) :=
  let reads (index : Nat) (word : String) : Bool := (steps[index]?).any fun step => step.stmt.word == word.toList
  let condition (index : Nat) : Option Condition := (steps[index]?).bind (·.condition)
  if steps.length < 3 then none
  else
    let last := steps.length - 1
    let commit := last - 1
    if (condition 0).isSome || !reads 0 "BEGIN TRANSACTION" then none
    else if !reads commit "COMMIT" then none
    else if !reads last "ROLLBACK" then none
    else if !(List.range' 1 (commit - 1)).all fun index => isOkCondition (condition index) (index - 1) then none
    else if !isOkCondition (condition commit) (commit - 1) then none
    else if !isNotOkCondition (condition last) commit then none
    else some (1, commit)

structure TransactionalBatchFailure where
  cause : Failure
  results : List (Option StmtResult)

section
variable {τ : Type} (numeral : Rat → Text) (backend : SqlBackend τ)

/-- The callback of the transaction. -/
def executeBody : List BatchStep → List (Option StmtResult) →
    Attempt TransactionalBatchFailure (Database τ) (List (Option StmtResult))
  | [], results => return results
  | step :: steps, results => fun database =>
    match executeStmtSync numeral backend false step.stmt database with
    | .ok result database => executeBody steps (results ++ [some result]) database
    | .error cause database => .error ⟨cause, results⟩ database

/-- The result and whether something was written. -/
def executeTransactionalBatch (steps : List BatchStep) (body : Nat × Nat) :
    Attempt Failure (Database τ) (BatchResult × Bool) := fun database =>
  let statements := (steps.drop body.1).take (body.2 - body.1)
  match Attempt.atomic (executeBody numeral backend statements [some EMPTY_RESULT]) database with
  | .ok results database =>
    let stepResults := results ++ [some EMPTY_RESULT, none]
    .ok (⟨stepResults, stepResults.map fun _ => none⟩, statements.any fun step => isMutatingStatement step.stmt.query) database
  | .error failure database =>
    let skipped := body.2 - (failure.results.length + 1)
    .ok (⟨failure.results ++ [none] ++ List.replicate skipped none ++ [none, some EMPTY_RESULT],
      failure.results.map (fun _ => none) ++ [some failure.cause.text] ++ List.replicate skipped none ++ [none, none]⟩, false) database

def executeBatch (transactionSync : Bool) (steps : List BatchStep) : Attempt Failure (Database τ) (BatchResult × Bool) :=
  match if transactionSync then canonicalTransactionalBody steps else none with
  | some body => executeTransactionalBatch numeral backend steps body
  | none => do
    let progress ← executeSteps (executeStmtSync numeral backend transactionSync) steps .start
    return (progress.result, progress.wrote)

end

/-! ## Requests -/

inductive StreamRequest where
  | close
  | execute (stmt : Stmt)
  | batch (steps : List BatchStep)
  | getAutocommit
  | sequence (sql : Option Text) (sqlId : Option Int)
  | storeSql (sql : Text) (sqlId : Int)
  | closeSql (sqlId : Int)
  | describe (sql : Option Text) (sqlId : Option Int)
  /-- Any other type. -/
  | other (type : String)

inductive StreamResponse where
  | close
  | execute (result : StmtResult)
  | batch (result : BatchResult)
  | getAutocommit (isAutocommit : Bool)
  | sequence
  | storeSql
  | closeSql
  | describe (params : List Text) (cols : List Col) (isExplain isReadonly : Bool)
  deriving DecidableEq

structure HranaServer (τ : Type) where
  baton : Option Text
  storedSql : List (Int × Text)
  database : Database τ
  /-- The database as it was when `onWrite` was last invoked, or when the server started. -/
  seen : Database τ
  deriving DecidableEq

namespace HranaServer

variable {τ : Type}

def start (database : Database τ) : HranaServer τ := ⟨none, [], database, database⟩

def resolveSql (server : HranaServer τ) (sql : Option Text) (sqlId : Option Int) : Except Failure Text :=
  match sql, sqlId with
  | some text, _ => return text
  | none, some id => do
    let shown := toString id
    let stored ← required (server.storedSql.find? fun entry => entry.1 = id) (.error s!"Unknown stored SQL id: {shown}")
    return stored.2
  | none, none => throw (.error "SQL text or sql_id is required")

def resolveStmt (server : HranaServer τ) (stmt : Stmt) : Except Failure Stmt := do
  let sql ← server.resolveSql stmt.sql stmt.sqlId
  return { stmt with sql := some sql }

def resolveStep (server : HranaServer τ) (step : BatchStep) : Except Failure BatchStep := do
  let stmt ← server.resolveStmt step.stmt
  return { step with stmt }

/-- What is asked of the server without changing it. -/
def ask {α : Type} (question : HranaServer τ → Except Failure α) : Attempt Failure (HranaServer τ) α := fun server =>
  Attempt.lift (question server) server

def onDatabase {α : Type} (computation : Attempt Failure (Database τ) α) : Attempt Failure (HranaServer τ) α :=
  Attempt.within HranaServer.database (fun database server => { server with database }) computation

variable (numeral : Rat → Text) (backend : SqlBackend τ) (transactionSync : Bool) (onWrite : Database τ → Except Failure Unit)

/-- `await this.onWrite?.()`, which may itself throw. -/
def notify : Attempt Failure (HranaServer τ) Unit := fun server =>
  Attempt.lift (onWrite server.database) { server with seen := server.database }

/-- The parts of a sequence between its semicolons. -/
def executeSequence : List Text → Attempt Failure (Database τ) Unit
  | [] => return
  | part :: parts => do
    let t := trim part
    if t = [] || isBlockedStatement t || isPragma t then executeSequence parts
    else
      let _ ← backend.exec t []
      executeSequence parts

def handleStreamRequest : StreamRequest → Attempt Failure (HranaServer τ) StreamResponse
  | .close => fun server => .ok .close { server with baton := none, storedSql := [] }
  | .execute stmt => do
    let statement ← ask (resolveStmt · stmt)
    let result ← onDatabase (executeStmtSync numeral backend transactionSync statement)
    if isReadOnlyStatement statement.query then return .execute result
    else
      notify onWrite
      return .execute result
  | .batch steps => do
    let resolvedSteps ← ask fun server => steps.mapM server.resolveStep
    let (result, wrote) ← onDatabase (executeBatch numeral backend transactionSync resolvedSteps)
    if wrote then
      notify onWrite
      return .batch result
    else return .batch result
  | .getAutocommit => return .getAutocommit true
  | .sequence sql sqlId => do
    let seqSql ← ask (resolveSql · sql sqlId)
    onDatabase (executeSequence backend (seqSql.splitOn ';'))
    notify onWrite
    return .sequence
  | .storeSql sql sqlId => fun server =>
    .ok .storeSql { server with storedSql := (sqlId, sql) :: server.storedSql.filter fun entry => entry.1 ≠ sqlId }
  | .closeSql sqlId => fun server =>
    .ok .closeSql { server with storedSql := server.storedSql.filter fun entry => entry.1 ≠ sqlId }
  | .describe sql sqlId => do
    let _ ← ask (resolveSql · sql sqlId)
    return .describe [] [] false false
  | .other type => throw (.error s!"Unsupported stream request: {type}")

/-- One request of a pipeline: a failure is an error in the response. -/
def handleRequest (server : HranaServer τ) (request : StreamRequest) : Except Text StreamResponse × HranaServer τ :=
  match handleStreamRequest numeral backend transactionSync onWrite request server with
  | .ok response server => (.ok response, server)
  | .error failure server => (.error failure.text, server)

structure PipelineResponse where
  baton : Option Text
  results : List (Except Text StreamResponse)

def handleRequests (server : HranaServer τ) : List StreamRequest → List (Except Text StreamResponse) × HranaServer τ
  | [] => ([], server)
  | request :: requests =>
    let (result, server) := handleRequest numeral backend transactionSync onWrite server request
    let (results, server) := handleRequests server requests
    (result :: results, server)

/-- The end of a pipeline, by whether it had a `close`. -/
def handOver (server : HranaServer τ) (hasClose : Bool) : HranaServer τ :=
  if !hasClose && server.baton.isNone then { server with baton := some "airyfs-1".toList } else server

def handlePipeline (server : HranaServer τ) (requests : List StreamRequest) : PipelineResponse × HranaServer τ :=
  let (results, server) := handleRequests numeral backend transactionSync onWrite server requests
  let server := server.handOver (requests.any fun request => request matches .close)
  (⟨server.baton, results⟩, server)

end HranaServer

end Hrana

end AiryFS
