import AiryFS.Foundation.Runs
import AiryFS.Hrana.HranaServer

/-! When a change to the database is followed by a call of `onWrite`.

A server is up to date while the database is as it was when `onWrite` was last invoked. Every
request keeps it so, except that a request may give up after it has changed something.
-/

set_option autoImplicit false

namespace AiryFS

open Foundation

namespace Hrana

/-! ## Trimming -/

theorem trimStart_trimStart (text : Text) : trimStart (trimStart text) = trimStart text :=
  List.dropWhile_idempotent isSpace text

/-- What is cut off at the end was not at the front. -/
theorem trimStart_rdropWhile {text : Text} (trimmed : trimStart text = text) :
    trimStart (text.rdropWhile isSpace) = text.rdropWhile isSpace := by
  cases cut : text.rdropWhile isSpace with
  | nil => rfl
  | cons first rest =>
    obtain ⟨back, whole⟩ : first :: rest <+: text := cut ▸ List.rdropWhile_prefix isSpace text
    have solid : isSpace first = false := by
      by_contra blank
      rw [← whole] at trimmed
      have shorter := congrArg List.length trimmed
      have bound := List.length_dropWhile_le isSpace (rest ++ back)
      simp only [trimStart, List.cons_append, List.dropWhile_cons, (by simpa using blank : isSpace first = true), if_true,
        List.length_cons] at shorter
      omega
    exact List.dropWhile_cons_of_neg (by simp [solid])

theorem trim_trim (text : Text) : trim (trim text) = trim text := by
  unfold trim
  rw [trimStart_rdropWhile (trimStart_trimStart text)]
  exact List.rdropWhile_idempotent isSpace _

theorem remoteCompound_trim (fn : String) (argCount : Nat) (sql : Text) :
    remoteCompound fn argCount (trim sql) = remoteCompound fn argCount sql := by
  simp only [remoteCompound, trim_trim]

/-- A compound statement is never taken for one that only reads. -/
theorem isReadOnlyStatement_compound {query : Text} {compound : Compound} (recognised : Compound.recognise query = some compound) :
    isReadOnlyStatement query = false := by
  simp only [Compound.recognise, isRemotePwriteV1, isRemoteCreateNodeV1, isRemoteLinkV1, isRemoteTruncateV1,
    isRemoteRenameV1] at recognised
  simp only [isReadOnlyStatement, isRemotePwriteV1, isRemoteCreateNodeV1, isRemoteLinkV1, isRemoteTruncateV1,
    isRemoteRenameV1, remoteCompound_trim]
  split
  · rfl
  · refine if_pos ?_
    by_contra unknown
    simp only [Bool.or_eq_true, not_or, Bool.not_eq_true] at unknown
    simp [unknown] at recognised

/-! ## What a statement changes -/

section
variable {τ : Type} (numeral : Rat → Text) (backend : SqlBackend τ) (transactionSync : Bool)

/-- A statement that only reads changes nothing, whether or not it fails. -/
def ReadsOnly : Prop :=
  ∀ query bindings database, isReadOnlyStatement query = true →
    Attempt.Post (backend.exec query bindings) database (fun _ database' => database' = database)
      (fun _ database' => database' = database)

/-- If the database fails to run the statement here, it leaves nothing of it behind. -/
def Stmt.Undone (stmt : Stmt) (database : Database τ) : Prop :=
  ∀ bindings failure database', isBlockedStatement stmt.query = false → isPragma stmt.query = false →
    Compound.recognise stmt.query = none → stmt.bindings = .ok bindings →
    backend.exec stmt.query bindings database = .error failure database' → database' = database

theorem onVolume_undone {α : Type} (operation : Volume → Except Failure (α × Volume)) (database : Database τ) :
    Attempt.Post (onVolume operation) database (fun _ _ => True) (fun _ database' => database' = database) := by
  unfold Attempt.Post onVolume
  cases operation database.volume with
  | ok outcome => trivial
  | error failure => rfl

variable (readsOnly : ReadsOnly backend)
include readsOnly

theorem simulateTableInfo_unchanged (table : Text) (database : Database τ) :
    Attempt.Post (simulateTableInfo numeral backend table) database (fun _ database' => database' = database)
      (fun _ database' => database' = database) := by
  unfold simulateTableInfo
  rw [Attempt.post_bind]
  exact (readsOnly TABLE_INFO _ database (by decide +kernel)).mono (fun _ _ same => same) (fun _ _ same => same)

theorem lastInsertRowid_unchanged (database : Database τ) :
    Attempt.Post (lastInsertRowid numeral backend) database (fun _ database' => database' = database) (fun _ _ => False) := by
  unfold lastInsertRowid
  rw [Attempt.post_bind, Attempt.post_caught]
  exact (readsOnly LAST_INSERT_ROWID [] database (by decide +kernel)).mono (fun _ _ same => same) (fun _ _ same => same)

/-- A statement that goes well changes something only if it counts as mutating, and one that fails
only if the database does not undo it. -/
theorem executeStmtSync_changes (stmt : Stmt) (database : Database τ) :
    Attempt.Post (executeStmtSync numeral backend transactionSync stmt) database
      (fun _ database' => isMutatingStatement stmt.query = false → database' = database)
      (fun _ database' => stmt.Undone backend database → database' = database) := by
  unfold executeStmtSync
  dsimp only
  cases blocked : isBlockedStatement stmt.query with
  | true => exact fun _ => rfl
  | false =>
    cases pragma : isPragma stmt.query with
    | true =>
      cases table : tableInfo stmt.query with
      | none => exact fun _ => rfl
      | some name =>
        exact (simulateTableInfo_unchanged numeral backend readsOnly name database).mono (fun _ _ same _ => same)
          (fun _ _ same _ => same)
    | false =>
      simp only [Bool.false_eq_true, if_false]
      rw [Attempt.post_bind, Attempt.post_lift]
      refine ⟨fun bindings converted => ?_, fun failure _ _ => rfl⟩
      cases recognised : Compound.recognise stmt.query with
      | some compound =>
        have mutating : isMutatingStatement stmt.query = true := by
          simp [isMutatingStatement, blocked, pragma, isReadOnlyStatement_compound recognised]
        simp only [Compound.run, mutating]
        rw [Attempt.post_bind, Attempt.post_lift]
        refine ⟨fun _ _ => ?_, fun _ _ _ => rfl⟩
        rw [Attempt.post_bind]
        exact (onVolume_undone _ database).mono (fun _ _ _ unmoved => nomatch unmoved) (fun _ _ same _ => same)
      | none =>
        have ended : Attempt.Post (backend.exec stmt.query bindings) database
            (fun _ database' => isMutatingStatement stmt.query = false → database' = database)
            (fun _ database' => stmt.Undone backend database → database' = database) := by
          unfold Attempt.Post
          cases ran : backend.exec stmt.query bindings database with
          | error failure database' =>
            exact fun undone => undone bindings failure database' blocked pragma recognised converted ran
          | ok cursor database' =>
            intro unmoved
            have reading : isReadOnlyStatement stmt.query = true := by
              simpa [isMutatingStatement, blocked, pragma] using unmoved
            exact (readsOnly stmt.query bindings database reading).of_ok ran
        simp only [executePlain]
        rw [Attempt.post_bind]
        refine ended.mono (fun cursor database' read => ?_) fun _ _ same => same
        split
        · -- asking for the last row reads only
          rw [Attempt.post_bind]
          exact (lastInsertRowid_unchanged numeral backend readsOnly database').mono
            (fun _ _ same unmoved => same.trans (read unmoved)) (fun _ _ impossible => impossible.elim)
        · exact read

/-! ## What a batch changes -/

omit readsOnly in
/-- The steps of a batch, as they run: no statement leaves anything behind when it fails, and no
condition is malformed that is read after a change. -/
def CarefulSteps (start : Database τ) : List BatchStep → Progress → Database τ → Prop
  | [], _, _ => True
  | step :: steps, progress, database =>
    match step.wanted progress with
    | .error _ => database = start
    | .ok false => CarefulSteps start steps progress.skip database
    | .ok true =>
      step.stmt.Undone backend database ∧
        match executeStmtSync numeral backend transactionSync step.stmt database with
        | .ok result database' => CarefulSteps start steps (progress.record step.stmt (.ok result)) database'
        | .error failure database' => CarefulSteps start steps (progress.record step.stmt (.error failure)) database'

/-- A batch that has changed something has noted that it wrote. -/
theorem executeSteps_changes {start : Database τ} {steps : List BatchStep} {progress : Progress} {database : Database τ}
    (careful : CarefulSteps numeral backend transactionSync start steps progress database)
    (noted : progress.wrote = false → database = start) :
    Attempt.Post (executeSteps (executeStmtSync numeral backend transactionSync) steps progress) database
      (fun progress' database' => progress'.wrote = false → database' = start) (fun _ database' => database' = start) := by
  induction steps generalizing progress database with
  | nil => exact noted
  | cons step steps ih =>
    rw [executeSteps, Attempt.post_bind, Attempt.post_lift]
    unfold CarefulSteps at careful
    refine ⟨fun wanted evaluated => ?_, fun failure evaluated => ?_⟩
    · rw [evaluated] at careful
      cases wanted with
      | false => exact ih careful noted
      | true =>
        obtain ⟨undone, later⟩ := careful
        have here := executeStmtSync_changes numeral backend transactionSync readsOnly step.stmt database
        simp only [if_true]
        rw [Attempt.post_bind, Attempt.post_caught]
        unfold Attempt.Post at here ⊢
        cases ran : executeStmtSync numeral backend transactionSync step.stmt database with
        | ok result database' =>
          rw [ran] at here later
          refine ih later fun unnoted => ?_
          simp only [Progress.record, Bool.or_eq_false_iff] at unnoted
          exact (here unnoted.2).trans (noted unnoted.1)
        | error failure database' =>
          rw [ran] at here later
          exact ih later fun unnoted => (here undone).trans (noted unnoted)
    · rw [evaluated] at careful
      exact careful

/-- The same of a batch that is one transaction. -/
theorem executeBody_changes (steps : List BatchStep) (results : List (Option StmtResult)) (database : Database τ) :
    Attempt.Post (executeBody numeral backend steps results) database
      (fun _ database' => (steps.any fun step => isMutatingStatement step.stmt.query) = false → database' = database)
      (fun _ _ => True) := by
  induction steps generalizing results database with
  | nil => exact fun _ => rfl
  | cons step steps ih =>
    have here := executeStmtSync_changes numeral backend false readsOnly step.stmt database
    unfold Attempt.Post at here ⊢
    cases ran : executeStmtSync numeral backend false step.stmt database with
    | error cause database' => simp [executeBody, ran]
    | ok result database' =>
      rw [ran] at here
      have rest := ih (results ++ [some result]) database'
      simp only [executeBody, ran]
      refine rest.mono (fun results' database'' unchanged unmoved => ?_) fun _ _ _ => trivial
      simp only [List.any_cons, Bool.or_eq_false_iff] at unmoved
      exact (unchanged unmoved.2).trans (here unmoved.1)

theorem executeTransactionalBatch_changes (steps : List BatchStep) (body : Nat × Nat) (database : Database τ) :
    Attempt.Post (executeTransactionalBatch numeral backend steps body) database
      (fun outcome database' => outcome.2 = false → database' = database) (fun _ _ => False) := by
  have inner := executeBody_changes numeral backend readsOnly ((steps.drop body.1).take (body.2 - body.1))
    [some EMPTY_RESULT] database
  unfold Attempt.Post at inner ⊢
  split at inner
  · rename_i results database' ran
    simp only [executeTransactionalBatch, Attempt.atomic, ran]
    exact inner
  · rename_i failure database' ran
    simp only [executeTransactionalBatch, Attempt.atomic, ran]
    exact fun _ => trivial

theorem executeBatch_changes {steps : List BatchStep} {database : Database τ}
    (careful : (if transactionSync then canonicalTransactionalBody steps else none) = none →
      CarefulSteps numeral backend transactionSync database steps .start database) :
    Attempt.Post (executeBatch numeral backend transactionSync steps) database
      (fun outcome database' => outcome.2 = false → database' = database) (fun _ database' => database' = database) := by
  unfold executeBatch
  cases transactional : (if transactionSync then canonicalTransactionalBody steps else none) with
  | some body =>
    exact (executeTransactionalBatch_changes numeral backend readsOnly steps body database).mono (fun _ _ same => same)
      (fun _ _ impossible => impossible.elim)
  | none =>
    dsimp only
    rw [Attempt.post_bind]
    exact executeSteps_changes numeral backend transactionSync readsOnly (careful transactional) fun _ => rfl

omit readsOnly in
/-- The parts of a sequence, as they run: one that fails has nothing in front of it that changed
something, and leaves nothing behind itself. -/
def CarefulSequence (start : Database τ) : List Text → Database τ → Prop
  | [], _ => True
  | part :: parts, database =>
    let t := trim part
    if t = [] || isBlockedStatement t || isPragma t then CarefulSequence start parts database
    else match backend.exec t [] database with
      | .ok _ database' => CarefulSequence start parts database'
      | .error _ database' => database' = start

omit readsOnly in
theorem executeSequence_changes {start : Database τ} {parts : List Text} {database : Database τ}
    (careful : CarefulSequence backend start parts database) :
    Attempt.Post (HranaServer.executeSequence backend parts) database (fun _ _ => True) (fun _ database' => database' = start) := by
  induction parts generalizing database with
  | nil => trivial
  | cons part parts ih =>
    simp only [HranaServer.executeSequence]
    unfold CarefulSequence at careful
    dsimp only at careful
    split
    · rename_i skipped
      rw [if_pos skipped] at careful
      exact ih careful
    · rename_i sent
      rw [if_neg sent] at careful
      rw [Attempt.post_bind]
      unfold Attempt.Post
      cases ran : backend.exec (trim part) [] database with
      | ok cursor database' =>
        rw [ran] at careful
        exact ih careful
      | error failure database' =>
        rw [ran] at careful
        exact careful

end

/-! ## Requests -/

namespace HranaServer

section
variable {τ : Type} (numeral : Rat → Text) (backend : SqlBackend τ) (transactionSync : Bool) (onWrite : Database τ → Except Failure Unit)

/-- `onWrite` has been invoked since the database last changed. -/
def UpToDate (server : HranaServer τ) : Prop := server.seen = server.database

/-- What a request must not do where it arrives: fail after it has changed something. -/
def Careful (server : HranaServer τ) : StreamRequest → Prop
  | .execute stmt => ∀ statement, server.resolveStmt stmt = .ok statement → statement.Undone backend server.database
  | .batch steps => ∀ resolved, steps.mapM server.resolveStep = .ok resolved →
      (if transactionSync then canonicalTransactionalBody resolved else none) = none →
      CarefulSteps numeral backend transactionSync server.database resolved .start server.database
  | .sequence sql sqlId => ∀ text, server.resolveSql sql sqlId = .ok text →
      CarefulSequence backend server.database (text.splitOn ';') server.database
  | _ => True

theorem post_ask {α : Type} {question : HranaServer τ → Except Failure α} {server : HranaServer τ}
    {returned : α → HranaServer τ → Prop} {thrown : Failure → HranaServer τ → Prop} :
    Attempt.Post (ask question) server returned thrown ↔
      (∀ value, question server = .ok value → returned value server) ∧
        (∀ failure, question server = .error failure → thrown failure server) := Attempt.post_lift

/-- Whether or not `onWrite` throws, it was invoked. -/
theorem notify_upToDate (server : HranaServer τ) :
    Attempt.Post (notify onWrite) server (fun _ server' => server'.UpToDate) (fun _ server' => server'.UpToDate) := by
  change Attempt.Post (Attempt.lift (onWrite server.database)) { server with seen := server.database } _ _
  rw [Attempt.post_lift]
  exact ⟨fun _ _ => rfl, fun _ _ => rfl⟩

theorem notified {α : Type} (response : α) (server : HranaServer τ) :
    Attempt.Post (notify onWrite >>= fun _ => pure response) server (fun _ server' => server'.UpToDate)
      (fun _ server' => server'.UpToDate) := by
  rw [Attempt.post_bind]
  exact notify_upToDate onWrite server

/-- A server whose database is still the same is still up to date. -/
theorem UpToDate.of_same {server : HranaServer τ} (current : server.UpToDate) {database : Database τ}
    (same : database = server.database) : ({ server with database } : HranaServer τ).UpToDate := by
  rw [same]
  exact current

theorem handleStreamRequest_upToDate (readsOnly : ReadsOnly backend) {server : HranaServer τ} (current : server.UpToDate)
    (request : StreamRequest) (careful : server.Careful numeral backend transactionSync request) :
    Attempt.Post (handleStreamRequest numeral backend transactionSync onWrite request) server
      (fun _ server' => server'.UpToDate) (fun _ server' => server'.UpToDate) := by
  cases request with
  | close => exact current
  | getAutocommit => exact current
  | storeSql sql sqlId => exact current
  | closeSql sqlId => exact current
  | other type => exact current
  | describe sql sqlId =>
    rw [handleStreamRequest, Attempt.post_bind, post_ask]
    exact ⟨fun _ _ => current, fun _ _ => current⟩
  | execute stmt =>
    rw [handleStreamRequest, Attempt.post_bind, post_ask]
    refine ⟨fun statement resolved => ?_, fun _ _ => current⟩
    rw [Attempt.post_bind, onDatabase, Attempt.post_within]
    refine (executeStmtSync_changes numeral backend transactionSync readsOnly statement server.database).mono
      (fun result database' unmoved => ?_) fun failure database' undone => current.of_same (undone (careful statement resolved))
    split
    · rename_i reading
      exact current.of_same (unmoved (by simp [isMutatingStatement, reading]))
    · exact notified onWrite _ _
  | batch steps =>
    rw [handleStreamRequest, Attempt.post_bind, post_ask]
    refine ⟨fun resolved same => ?_, fun _ _ => current⟩
    rw [Attempt.post_bind, onDatabase, Attempt.post_within]
    refine (executeBatch_changes numeral backend transactionSync readsOnly (careful resolved same)).mono
      (fun outcome database' unnoted => ?_) fun failure database' unchanged => current.of_same unchanged
    obtain ⟨result, wrote⟩ := outcome
    cases wrote with
    | true => exact notified onWrite _ _
    | false => exact current.of_same (unnoted rfl)
  | sequence sql sqlId =>
    rw [handleStreamRequest, Attempt.post_bind, post_ask]
    refine ⟨fun text resolved => ?_, fun _ _ => current⟩
    rw [Attempt.post_bind, onDatabase, Attempt.post_within]
    exact (executeSequence_changes backend (careful text resolved)).mono (fun _ _ _ => notified onWrite _ _)
      fun failure database' unchanged => current.of_same unchanged

/-! ## Runs -/

/-- What a connection makes a server do. -/
inductive ServerAction where
  | request (request : StreamRequest)
  /-- The end of a pipeline, by whether it had a `close`. -/
  | handOver (hasClose : Bool)

def step (server : HranaServer τ) : ServerAction → HranaServer τ
  | .request request => (handleRequest numeral backend transactionSync onWrite server request).2
  | .handOver hasClose => server.handOver hasClose

def Allowed (server : HranaServer τ) : ServerAction → Prop
  | .request request => server.Careful numeral backend transactionSync request
  | .handOver _ => True

theorem step_upToDate (readsOnly : ReadsOnly backend) (server : HranaServer τ) (action : ServerAction)
    (current : server.UpToDate) (allowed : server.Allowed numeral backend transactionSync action) :
    (server.step numeral backend transactionSync onWrite action).UpToDate := by
  cases action with
  | request request =>
    have post := handleStreamRequest_upToDate numeral backend transactionSync onWrite readsOnly current request allowed
    unfold Attempt.Post at post
    simp only [step, handleRequest]
    split at post
    · rename_i response server' ran
      rw [ran]
      exact post
    · rename_i failure server' ran
      rw [ran]
      exact post
  | handOver hasClose =>
    simp only [step, handOver]
    split
    · exact current
    · exact current

/-- Whatever is requested in whatever pipelines, as long as no request fails after it has changed
something, `onWrite` has been invoked since the last change wherever the server stands. -/
theorem no_change_unnoticed (readsOnly : ReadsOnly backend) (database : Database τ) (actions reached : List ServerAction)
    (careful : Guarded (step numeral backend transactionSync onWrite) (Allowed numeral backend transactionSync)
      (start database) actions) (earlier : reached <+: actions) :
    (run (step numeral backend transactionSync onWrite) (start database) reached).UpToDate :=
  run_invariant_reached (step_upToDate numeral backend transactionSync onWrite readsOnly) rfl careful earlier

end

/-! ## A sequence that gives up -/

/-- A database that counts the statements that write, and knows no statement `FAIL`. -/
def counting : SqlBackend Nat := ⟨fun query _ database =>
  if isReadOnlyStatement query then .ok ⟨[], [], 0, 0⟩ database
  else if query = "FAIL".toList then .error (.error "near \"FAIL\": syntax error") database
  else .ok ⟨[], [], 0, 1⟩ { database with other := database.other + 1 }⟩

theorem counting_readsOnly : ReadsOnly counting := by
  intro query bindings database reading
  simp [Attempt.Post, counting, reading]

theorem counting_writes {query : Text} (writes : isReadOnlyStatement query = false) (known : query ≠ "FAIL".toList)
    (bindings : List SqlValue) (database : Database Nat) :
    counting.exec query bindings database = .ok ⟨[], [], 0, 1⟩ { database with other := database.other + 1 } := by
  simp only [counting, writes, Bool.false_eq_true, if_false, if_neg known]

def update : Stmt := { sql := some "UPDATE t SET n = n + 1".toList, sqlId := none, args := [], namedArgs := [] }

theorem no_change_unnoticed_update :
    (run (step (fun _ => []) counting true fun _ => .ok ()) (start ⟨Volume.fresh 0, 0⟩)
      [.request (.execute update), .handOver false]).UpToDate := by
  refine no_change_unnoticed (fun _ => []) counting true (fun _ => .ok ()) counting_readsOnly ⟨Volume.fresh 0, 0⟩
    [.request (.execute update), .handOver false] _ ⟨?_, trivial, trivial⟩ (List.prefix_refl _)
  rintro statement same bindings failure database' - - - - ran
  cases same
  rw [counting_writes (by decide +kernel) (by decide +kernel)] at ran
  cases ran

/-- The first part of the sequence is run and stays, the second one fails, and nobody hears of it. -/
theorem sequence_unnoticed :
    let server := (handleRequest (fun _ => []) counting true (fun _ => .ok ()) (start ⟨Volume.fresh 0, 0⟩)
      (.sequence (some "UPDATE t SET n = n + 1; FAIL".toList) none))
    server.1 = .error "near \"FAIL\": syntax error".toList ∧ server.2.database.other = 1 ∧ server.2.seen.other = 0 := by
  decide +kernel

end HranaServer

end Hrana

end AiryFS
