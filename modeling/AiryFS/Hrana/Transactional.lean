import AiryFS.Hrana.HranaServer

/-! A batch that is one transaction, and the same batch taken step by step.

The steps of such a batch begin a transaction, run a body in which every step waits for the one
before, commit if the body went well and roll back if it did not. What they mean is their plain
evaluation against a database that has transactions; the server replaces it with a callback.
-/

set_option autoImplicit false

namespace AiryFS

open Foundation

namespace Hrana

/-! ## A database with transactions -/

/-- The transaction of a connection, with the database as it was when it began. -/
inductive Transaction (τ : Type) where
  | idle
  | active (saved : Database τ)
  | ended
  deriving DecidableEq

structure Session (τ : Type) where
  database : Database τ
  transaction : Transaction τ
  deriving DecidableEq

/-- Whether a statement begins or ends a transaction, or a part of one. -/
def Stmt.controls (stmt : Stmt) : Bool :=
  isBlockedStatement stmt.query || ["BEGIN TRANSACTION", "COMMIT", "ROLLBACK"].any fun word => stmt.word == word.toList

section
variable {τ : Type}

/-- The course of one transaction. -/
def Session.control (session : Session τ) (word : Text) : Option (Session τ) :=
  match session.transaction with
  | .idle =>
    if word = "BEGIN TRANSACTION".toList then some { session with transaction := .active session.database } else none
  | .active saved =>
    if word = "COMMIT".toList then some { session with transaction := .ended }
    else if word = "ROLLBACK".toList then some ⟨saved, .ended⟩
    else none
  | .ended => none

/-- A statement that is no transaction control. -/
def Session.onDatabase {α : Type} (computation : Attempt Failure (Database τ) α) : Attempt Failure (Session τ) α :=
  Attempt.within Session.database (fun database session => { session with database }) computation

variable (numeral : Rat → Text) (backend : SqlBackend τ) (nested : Text → Attempt Failure (Session τ) StmtResult)

/-- A statement against a database with transactions. What it does with transaction control that is
not the course of the one transaction, such as a savepoint or a second transaction, is `nested`. -/
def plainStmt (stmt : Stmt) : Attempt Failure (Session τ) StmtResult := fun session =>
  if stmt.controls then
    match session.control stmt.word with
    | some next => .ok EMPTY_RESULT next
    | none => nested stmt.query session
  else Session.onDatabase (executeStmtSync numeral backend true stmt) session

/-- The condition of every step is evaluated, and every statement is sent to the database. -/
def plainBatch (steps : List BatchStep) : Attempt Failure (Session τ) Progress :=
  executeSteps (plainStmt numeral backend nested) steps .start

/-- Both evaluations give the same results and errors and end in the same database, with the
transaction ended; and a batch with an error has changed nothing. -/
def Agrees (steps : List BatchStep) (body : Nat × Nat) (database : Database τ) : Prop :=
  ∃ result wrote final progress,
    executeTransactionalBatch numeral backend steps body database = .ok (result, wrote) final ∧
    plainBatch numeral backend nested steps ⟨database, .idle⟩ = .ok progress ⟨final, .ended⟩ ∧
    progress.result = result ∧
    (∀ error ∈ result.stepErrors, error ≠ none → final = database)

end

/-! ## The body -/

/-- Whether a statement gets as far as the database. -/
def Stmt.proceeds (stmt : Stmt) : Bool :=
  stmt.controls || isPragma stmt.query || stmt.bindings.isOk

def Stmt.compound (stmt : Stmt) : Option Compound :=
  if isPragma stmt.query then none else Compound.recognise stmt.query

/-- The statements of a body in front of the first one whose values do not convert. -/
def reached (body : List Stmt) : List Stmt := body.takeWhile Stmt.proceeds

/-- The body of a transaction that the callback can run. -/
def Supported (body : List Stmt) : Prop := ∀ stmt ∈ reached body, stmt.controls = false ∧ stmt.compound = none

instance (body : List Stmt) : Decidable (Supported body) := inferInstanceAs (Decidable (∀ stmt ∈ reached body, _))

/-- Every step waits for the one before it, which for the first is the step `start`. -/
def ChainedFrom (start : Nat) (steps : List BatchStep) : Prop :=
  ∀ (index : Nat) (step : BatchStep), steps[index]? = some step → isOkCondition step.condition (start + index)

theorem chainedFrom_cons {start : Nat} {step : BatchStep} {steps : List BatchStep} (chained : ChainedFrom start (step :: steps)) :
    isOkCondition step.condition start ∧ ChainedFrom (start + 1) steps := by
  constructor
  · exact chained 0 step rfl
  · intro index next found
    have holds := chained (index + 1) next found
    rwa [show start + (index + 1) = start + 1 + index by omega] at holds

theorem chainedFrom_front {start : Nat} {front back : List BatchStep} (chained : ChainedFrom start (front ++ back)) :
    ChainedFrom start front := by
  intro index step found
  refine chained index step ?_
  rw [List.getElem?_append_left (List.getElem?_eq_some_iff.mp found).1, found]

/-- The body with the frame around it. -/
structure CanonicalBatch (first : BatchStep) (middle : List BatchStep) (commit last : BatchStep) : Prop where
  first_condition : first.condition = none
  first_word : first.stmt.word = "BEGIN TRANSACTION".toList
  chained : ChainedFrom 0 middle
  commit_word : commit.stmt.word = "COMMIT".toList
  commit_condition : isOkCondition commit.condition middle.length
  last_word : last.stmt.word = "ROLLBACK".toList
  last_condition : isNotOkCondition last.condition (middle.length + 1)

theorem exists_last_two {α : Type} {values : List α} (long : 2 ≤ values.length) : ∃ front a b, values = front ++ [a, b] := by
  rcases List.eq_nil_or_concat values with empty | ⟨front, b, rfl⟩
  · rw [empty] at long
    cases long
  rcases List.eq_nil_or_concat front with empty | ⟨front, a, rfl⟩
  · rw [empty] at long
    simp at long
  exact ⟨front, a, b, by simp⟩

/-- A recognised batch is a framed body. -/
theorem canonical_batch {steps : List BatchStep} {body : Nat × Nat}
    (canonical : canonicalTransactionalBody steps = some body) :
    ∃ first middle commit last, steps = first :: (middle ++ [commit, last]) ∧ body = (1, middle.length + 1) ∧
      CanonicalBatch first middle commit last := by
  have long : 3 ≤ steps.length := by
    by_contra short
    simp [canonicalTransactionalBody, show steps.length < 3 by omega] at canonical
  cases steps with
  | nil => cases long
  | cons first rest =>
    obtain ⟨middle, commit, last, rfl⟩ := exists_last_two (Nat.le_of_succ_le_succ long)
    refine ⟨first, middle, commit, last, rfl, ?_⟩
    have commit_at : (first :: (middle ++ [commit, last]))[middle.length + 1]? = some commit := by simp
    have last_at : (first :: (middle ++ [commit, last]))[middle.length + 1 + 1]? = some last := by simp
    have count : (first :: (middle ++ [commit, last])).length = middle.length + 3 := by simp
    simp only [canonicalTransactionalBody, count, Option.ite_none_left_eq_some, Nat.add_sub_cancel, commit_at, last_at,
      Nat.reduceSubDiff, List.getElem?_cons_zero, Option.bind_some, Option.any_some] at canonical
    simp only [Bool.not_eq_true, Bool.not_eq_false', Bool.or_eq_false_iff, beq_iff_eq,
      Option.isSome_eq_false_iff, Option.isNone_iff_eq_none, List.all_eq_true, Option.some.injEq] at canonical
    obtain ⟨-, ⟨unconditional, begins⟩, commits, rolls, chained, committed, rolled, rfl⟩ := canonical
    refine ⟨rfl, unconditional, begins, fun index step found => ?_, commits, committed, rolls, rolled⟩
    have inside : index < middle.length := (List.getElem?_eq_some_iff.mp found).1
    have holds := chained (index + 1) (List.mem_range'_1.mpr ⟨by omega, by omega⟩)
    rw [List.getElem?_cons_succ, List.getElem?_append_left inside, found] at holds
    rw [Nat.zero_add]
    exact holds

theorem framed_body (first commit last : BatchStep) (middle : List BatchStep) :
    ((first :: (middle ++ [commit, last])).drop 1).take (middle.length + 1 - 1) = middle := by
  simp

/-! ## Running the steps -/

theorem executeSteps_append {σ : Type} (run : Stmt → Attempt Failure σ StmtResult) (front back : List BatchStep)
    (progress : Progress) :
    executeSteps run (front ++ back) progress = executeSteps run front progress >>= executeSteps run back := by
  induction front generalizing progress with
  | nil => rfl
  | cons step steps ih =>
    simp only [List.cons_append, executeSteps, bind_assoc]
    congr 1
    funext wanted
    cases wanted with
    | false => simpa using ih progress.skip
    | true =>
      simp only [ih, if_true, bind_assoc]

theorem executeSteps_skip {σ : Type} {run : Stmt → Attempt Failure σ StmtResult} {step : BatchStep} {progress : Progress}
    (unwanted : step.wanted progress = .ok false) (steps : List BatchStep) (state : σ) :
    executeSteps run (step :: steps) progress state = executeSteps run steps progress.skip state := by
  rw [executeSteps, unwanted]
  rfl

theorem executeSteps_record {σ : Type} {run : Stmt → Attempt Failure σ StmtResult} {step : BatchStep} {progress : Progress}
    (wanted : step.wanted progress = .ok true) {state state' : σ} {outcome : Except Failure StmtResult}
    (ran : Attempt.caught (run step.stmt) state = .ok outcome state') (steps : List BatchStep) :
    executeSteps run (step :: steps) progress state = executeSteps run steps (progress.record step.stmt outcome) state' := by
  rw [executeSteps, wanted]
  exact Attempt.bind_of_ok ran _

/-- A condition on the step before it is decided by the last result. -/
theorem wanted_ok {step : BatchStep} {results : List (Option StmtResult)}
    (condition : isOkCondition step.condition results.length) (entry : Option StmtResult) (errors : List (Option Text))
    (wrote : Bool) :
    step.wanted ⟨results ++ [entry], errors, wrote⟩ = .ok entry.isSome := by
  unfold isOkCondition at condition
  split at condition
  · rename_i value same
    rw [BatchStep.wanted, same, show value = (results.length : Int) by simpa using condition]
    simp [evaluateCondition, present, pure, Except.pure]
  · cases condition

theorem wanted_not_ok {step : BatchStep} {results : List (Option StmtResult)}
    (condition : isNotOkCondition step.condition results.length) (entry : Option StmtResult) (errors : List (Option Text))
    (wrote : Bool) :
    step.wanted ⟨results ++ [entry], errors, wrote⟩ = .ok !entry.isSome := by
  unfold isNotOkCondition at condition
  split at condition
  · rename_i cond same
    have inner : (BatchStep.mk (some cond) step.stmt).wanted ⟨results ++ [entry], errors, wrote⟩ = .ok entry.isSome :=
      wanted_ok condition entry errors wrote
    simp only [BatchStep.wanted] at inner
    simp [BatchStep.wanted, same, evaluateCondition, inner, bind, Except.bind, pure, Except.pure]
  · cases condition

/-- After a step that did not go well no other step of the body runs. -/
theorem executeSteps_after_failure {σ : Type} (run : Stmt → Attempt Failure σ StmtResult) {steps : List BatchStep}
    {results : List (Option StmtResult)} (chained : ChainedFrom results.length steps) (errors : List (Option Text))
    (wrote : Bool) (state : σ) :
    executeSteps run steps ⟨results ++ [none], errors, wrote⟩ state =
      .ok ⟨results ++ [none] ++ List.replicate steps.length none, errors ++ List.replicate steps.length none, wrote⟩ state := by
  induction steps generalizing results errors with
  | nil => simp [executeSteps, pure, EStateM.pure]
  | cons step steps ih =>
    have ⟨condition, chained⟩ := chainedFrom_cons chained
    rw [executeSteps_skip (wanted_ok condition none errors wrote)]
    have further : ChainedFrom (results ++ [none]).length steps := by simpa using chained
    have rest := ih further (errors ++ [none])
    simp only [List.append_assoc, List.singleton_append] at rest
    simp only [Progress.skip, List.append_assoc, List.singleton_append, List.length_cons, List.replicate_succ]
    exact rest

section
variable {τ : Type} (numeral : Rat → Text) (backend : SqlBackend τ) (nested : Text → Attempt Failure (Session τ) StmtResult)

theorem plainStmt_of_uncontrolled {stmt : Stmt} (uncontrolled : stmt.controls = false) :
    plainStmt numeral backend nested stmt = Session.onDatabase (executeStmtSync numeral backend true stmt) := by
  funext session
  simp only [plainStmt, uncontrolled, Bool.false_eq_true, if_false]

/-- A statement that takes the transaction its course. -/
theorem plainStmt_of_control {stmt : Stmt} (controls : stmt.controls = true) {session next : Session τ}
    (course : session.control stmt.word = some next) :
    Attempt.caught (plainStmt numeral backend nested stmt) session = .ok (.ok EMPTY_RESULT) next := by
  simp only [Attempt.caught, plainStmt, controls, if_true, course]

theorem controls_of_word {stmt : Stmt} (word : String) (known : word ∈ ["BEGIN TRANSACTION", "COMMIT", "ROLLBACK"])
    (same : stmt.word = word.toList) : stmt.controls = true := by
  rw [Stmt.controls, Bool.or_eq_true, List.any_eq_true]
  exact .inr ⟨word, known, beq_iff_eq.mpr same⟩

/-- A statement whose values do not convert fails before it reaches the database. -/
theorem executeStmtSync_of_stuck {stmt : Stmt} (stuck : stmt.proceeds = false) :
    ∃ failure, ∀ transactionSync database,
      executeStmtSync numeral backend transactionSync stmt database = .error failure database := by
  simp only [Stmt.proceeds, Stmt.controls, Bool.or_eq_false_iff] at stuck
  obtain ⟨⟨⟨unblocked, -⟩, plain⟩, unconverted⟩ := stuck
  cases converted : stmt.bindings with
  | ok bindings =>
    rw [converted] at unconverted
    cases unconverted
  | error failure =>
    refine ⟨failure, fun transactionSync database => ?_⟩
    simp only [executeStmtSync, unblocked, plain, converted]
    rfl

/-- Only a compound statement needs the transactions. -/
theorem executeStmtSync_alone {stmt : Stmt} (alone : stmt.proceeds = true → stmt.compound = none) :
    executeStmtSync numeral backend true stmt = executeStmtSync numeral backend false stmt := by
  cases proceeds : stmt.proceeds with
  | false =>
    obtain ⟨failure, fails⟩ := executeStmtSync_of_stuck numeral backend proceeds
    funext database
    rw [fails, fails]
  | true =>
    have single := alone proceeds
    unfold Stmt.compound at single
    unfold executeStmtSync
    cases pragma : isPragma stmt.query with
    | true => simp only [pragma, if_true]
    | false =>
      simp only [pragma, Bool.false_eq_true, if_false] at single
      simp only [single]

theorem Session.onDatabase_ok {α : Type} {computation : Attempt Failure (Database τ) α} {database database' : Database τ}
    {value : α} (ran : computation database = .ok value database') (transaction : Transaction τ) :
    Attempt.caught (Session.onDatabase computation) ⟨database, transaction⟩ = .ok (.ok value) ⟨database', transaction⟩ := by
  simp only [Attempt.caught, Session.onDatabase, Attempt.within, ran]

theorem Session.onDatabase_error {α : Type} {computation : Attempt Failure (Database τ) α} {database database' : Database τ}
    {failure : Failure} (ran : computation database = .error failure database') (transaction : Transaction τ) :
    Attempt.caught (Session.onDatabase computation) ⟨database, transaction⟩ = .ok (.error failure) ⟨database', transaction⟩ := by
  simp only [Attempt.caught, Session.onDatabase, Attempt.within, ran]

theorem Session.error_of_onDatabase {α : Type} {computation : Attempt Failure (Database τ) α} {session session' : Session τ}
    {failure : Failure} (ran : Attempt.caught (Session.onDatabase computation) session = .ok (.error failure) session') :
    ∃ database, computation session.database = .error failure database := by
  unfold Attempt.caught Session.onDatabase Attempt.within at ran
  cases ended : computation session.database with
  | ok value database =>
    rw [ended] at ran
    cases ran
  | error other database =>
    rw [ended] at ran
    cases ran
    exact ⟨database, rfl⟩

theorem supported_cons {stmt : Stmt} {stmts : List Stmt} (supported : Supported (stmt :: stmts)) :
    stmt.controls = false ∧ (stmt.proceeds = true → stmt.compound = none ∧ Supported stmts) := by
  unfold Supported reached at supported
  cases proceeds : stmt.proceeds with
  | false =>
    simp only [Stmt.proceeds, Bool.or_eq_false_iff] at proceeds
    simp [proceeds]
  | true =>
    simp only [List.takeWhile_cons, proceeds, if_true, List.forall_mem_cons] at supported
    exact ⟨supported.1.1, fun _ => ⟨supported.1.2, supported.2⟩⟩

/-- What the callback makes of a body is what its plain evaluation makes of it in a transaction. -/
theorem body_agrees {steps : List BatchStep} (supported : Supported (steps.map (·.stmt)))
    {results : List (Option StmtResult)} (chained : ChainedFrom results.length steps) (result : StmtResult) (wrote : Bool)
    (database saved : Database τ) :
    Attempt.Post (executeBody numeral backend steps (results ++ [some result])) database
      (fun results' database' => ∃ front last wrote', results' = front ++ [some last] ∧
        front.length = results.length + steps.length ∧
        executeSteps (plainStmt numeral backend nested) steps
          ⟨results ++ [some result], (results ++ [some result]).map fun _ => none, wrote⟩ ⟨database, .active saved⟩ =
        .ok ⟨results', results'.map fun _ => none, wrote'⟩ ⟨database', .active saved⟩)
      (fun failure _ => ∃ database' wrote', failure.results.length ≤ results.length + steps.length ∧
        let skipped := results.length + steps.length - failure.results.length
        executeSteps (plainStmt numeral backend nested) steps
          ⟨results ++ [some result], (results ++ [some result]).map fun _ => none, wrote⟩ ⟨database, .active saved⟩ =
        .ok ⟨failure.results ++ [none] ++ List.replicate skipped none,
          failure.results.map (fun _ => none) ++ [some failure.cause.text] ++ List.replicate skipped none, wrote'⟩
          ⟨database', .active saved⟩) := by
  induction steps generalizing results result wrote database with
  | nil => exact ⟨results, result, wrote, rfl, rfl, rfl⟩
  | cons step steps ih =>
    have ⟨condition, chained⟩ := chainedFrom_cons chained
    have ⟨uncontrolled, single⟩ := supported_cons supported
    have alike := executeStmtSync_alone numeral backend fun proceeds => (single proceeds).1
    have plain := plainStmt_of_uncontrolled numeral backend nested uncontrolled
    have wanted := wanted_ok condition (some result) ((results ++ [some result]).map fun _ => none) wrote
    have further : ChainedFrom (results ++ [some result]).length steps := by simpa using chained
    unfold Attempt.Post executeBody
    cases ran : executeStmtSync numeral backend false step.stmt database with
    | ok next database' =>
      have proceeds : step.stmt.proceeds = true := by
        by_contra stuck
        obtain ⟨failure, fails⟩ := executeStmtSync_of_stuck numeral backend (by simpa using stuck)
        rw [fails] at ran
        cases ran
      have rest := ih (single proceeds).2 further next (wrote || isMutatingStatement step.stmt.query) database'
      rw [← alike] at ran
      have recorded := @executeSteps_record _ (plainStmt numeral backend nested) _ _ wanted _ _ _
        (by rw [plain]; exact Session.onDatabase_ok ran (.active saved)) steps
      refine Attempt.Post.mono rest ?_ ?_
      · rintro results' final ⟨front, last, wrote', same, count, evaluated⟩
        refine ⟨front, last, wrote', same, by simp at count ⊢; omega, ?_⟩
        rw [recorded, ← evaluated]
        simp [Progress.record]
      · rintro failure final ⟨final', wrote', count, evaluated⟩
        have skipped : (results ++ [some result]).length + steps.length - failure.results.length =
            results.length + (steps.length + 1) - failure.results.length := by simp; omega
        refine ⟨final', wrote', by simp at count ⊢; omega, ?_⟩
        rw [skipped] at evaluated
        dsimp only
        rw [recorded, List.length_cons, ← evaluated]
        simp [Progress.record]
    | error cause database' =>
      rw [← alike] at ran
      have recorded := @executeSteps_record _ (plainStmt numeral backend nested) _ _ wanted _ _ _
        (by rw [plain]; exact Session.onDatabase_error ran (.active saved)) steps
      have rest := executeSteps_after_failure (plainStmt numeral backend nested) further
        (((results ++ [some result]).map fun _ => none) ++ [some cause.text]) wrote ⟨database', .active saved⟩
      refine ⟨database', wrote, by simp, ?_⟩
      have skipped : results.length + (step :: steps).length - (results ++ [some result]).length = steps.length := by
        simp; omega
      dsimp only
      rw [skipped, recorded]
      exact rest

/-! ## The whole batch -/

section
variable {first commit last : BatchStep} {middle : List BatchStep} (batch : CanonicalBatch first middle commit last)
include batch

omit batch in
theorem CanonicalBatch.first_wanted (batch : CanonicalBatch first middle commit last) : first.wanted .start = .ok true := by
  rw [BatchStep.wanted, batch.first_condition]
  rfl

omit batch in
theorem CanonicalBatch.begin_transaction (batch : CanonicalBatch first middle commit last) (database : Database τ) :
    Attempt.caught (plainStmt numeral backend nested first.stmt) ⟨database, .idle⟩ =
      .ok (.ok EMPTY_RESULT) ⟨database, .active database⟩ := by
  refine plainStmt_of_control numeral backend nested (controls_of_word "BEGIN TRANSACTION" (by simp) batch.first_word) ?_
  rw [batch.first_word]
  rfl

/-- After a body that went well the transaction is committed. -/
theorem executeSteps_commit {front : List (Option StmtResult)} (count : front.length = middle.length) (result : StmtResult)
    (errors : List (Option Text)) (wrote : Bool) (database saved : Database τ) :
    ∃ wrote', executeSteps (plainStmt numeral backend nested) [commit, last]
        ⟨front ++ [some result], errors, wrote⟩ ⟨database, .active saved⟩ =
      .ok ⟨front ++ [some result] ++ [some EMPTY_RESULT, none], errors ++ [none, none], wrote'⟩ ⟨database, .ended⟩ := by
  have wanted := wanted_ok (count.symm ▸ batch.commit_condition) (some result) errors wrote
  have committed : Attempt.caught (plainStmt numeral backend nested commit.stmt) ⟨database, .active saved⟩ =
      .ok (.ok EMPTY_RESULT) ⟨database, .ended⟩ := by
    refine plainStmt_of_control numeral backend nested (controls_of_word "COMMIT" (by simp) batch.commit_word) ?_
    rw [batch.commit_word]
    rfl
  rw [executeSteps_record wanted committed]
  have further : isNotOkCondition last.condition (front ++ [some result]).length := by
    rw [List.length_append, count]
    exact batch.last_condition
  have unwanted := wanted_not_ok further (some EMPTY_RESULT) (errors ++ [none])
    (wrote || isMutatingStatement commit.stmt.query)
  rw [Progress.record, executeSteps_skip unwanted]
  exact ⟨wrote || isMutatingStatement commit.stmt.query, by simp [executeSteps, Progress.skip, pure, EStateM.pure]⟩

/-- After one that did not it is rolled back. -/
theorem executeSteps_rollback {front : List (Option StmtResult)} (count : front.length = middle.length)
    (errors : List (Option Text)) (wrote : Bool) (database saved : Database τ) :
    ∃ wrote', executeSteps (plainStmt numeral backend nested) [commit, last]
        ⟨front ++ [none], errors, wrote⟩ ⟨database, .active saved⟩ =
      .ok ⟨front ++ [none] ++ [none, some EMPTY_RESULT], errors ++ [none, none], wrote'⟩ ⟨saved, .ended⟩ := by
  have unwanted := wanted_ok (count.symm ▸ batch.commit_condition) none errors wrote
  rw [executeSteps_skip unwanted]
  have further : isNotOkCondition last.condition (front ++ [none]).length := by
    rw [List.length_append, count]
    exact batch.last_condition
  have wanted := wanted_not_ok further none (errors ++ [none]) wrote
  have rolled : Attempt.caught (plainStmt numeral backend nested last.stmt) ⟨database, .active saved⟩ =
      .ok (.ok EMPTY_RESULT) ⟨saved, .ended⟩ := by
    refine plainStmt_of_control numeral backend nested (controls_of_word "ROLLBACK" (by simp) batch.last_word) ?_
    rw [batch.last_word]
    rfl
  rw [Progress.skip, executeSteps_record wanted rolled]
  exact ⟨wrote || isMutatingStatement last.stmt.query, by simp [executeSteps, Progress.record, pure, EStateM.pure]⟩

/-- A batch whose body needs nothing of the transactions agrees with its plain evaluation. -/
theorem agrees_of_supported (supported : Supported (middle.map (·.stmt))) (database : Database τ) :
    Agrees numeral backend nested (first :: (middle ++ [commit, last])) (1, middle.length + 1) database := by
  have chained : ChainedFrom ([] : List (Option StmtResult)).length middle := batch.chained
  have begun : executeSteps (plainStmt numeral backend nested) (first :: (middle ++ [commit, last])) .start ⟨database, .idle⟩ =
      executeSteps (plainStmt numeral backend nested) (middle ++ [commit, last])
        (Progress.start.record first.stmt (.ok EMPTY_RESULT)) ⟨database, .active database⟩ :=
    executeSteps_record batch.first_wanted (batch.begin_transaction numeral backend nested database) _
  have agreed := body_agrees numeral backend nested supported chained EMPTY_RESULT
    (isMutatingStatement first.stmt.query) database database
  unfold Attempt.Post at agreed
  unfold Agrees plainBatch
  simp only [executeTransactionalBatch, framed_body, Attempt.atomic, begun, executeSteps_append]
  split at agreed
  · rename_i results final ran
    obtain ⟨front, result, wrote, rfl, count, evaluated⟩ := agreed
    obtain ⟨wrote', committed⟩ := executeSteps_commit numeral backend nested batch
      (count.trans (Nat.zero_add _)) result ((front ++ [some result]).map fun _ => none) wrote final database
    have whole := Attempt.bind_of_ok evaluated (executeSteps (plainStmt numeral backend nested) [commit, last])
    rw [List.nil_append] at ran
    rw [ran]
    refine ⟨_, _, final, _, rfl, whole.trans committed, by simp [Progress.result], ?_⟩
    -- no step of the body has an error
    intro error member present
    obtain ⟨entry, -, rfl⟩ := List.mem_map.mp member
    exact absurd rfl present
  · rename_i failure final ran
    obtain ⟨final', wrote, count, evaluated⟩ := agreed
    have skipped : middle.length + 1 - (failure.results.length + 1) = ([] : List (Option StmtResult)).length + middle.length - failure.results.length := by
      simp
    have moved : failure.results ++ [none] ++ List.replicate (middle.length + 1 - (failure.results.length + 1)) none =
        failure.results ++ List.replicate (middle.length + 1 - (failure.results.length + 1)) none ++ [none] := by
      rw [List.append_assoc, List.append_assoc, List.singleton_append, ← List.replicate_succ, List.replicate_succ']
    have long : (failure.results ++ List.replicate (middle.length + 1 - (failure.results.length + 1)) none).length = middle.length := by
      simp at count ⊢
      omega
    dsimp only at evaluated
    rw [← skipped, moved] at evaluated
    obtain ⟨wrote', rolled⟩ := executeSteps_rollback numeral backend nested batch long
      (failure.results.map (fun _ => none) ++ [some failure.cause.text] ++
        List.replicate (middle.length + 1 - (failure.results.length + 1)) none) wrote final' database
    have whole := Attempt.bind_of_ok evaluated (executeSteps (plainStmt numeral backend nested) [commit, last])
    rw [List.nil_append] at ran
    rw [ran]
    refine ⟨_, _, database, _, rfl, whole.trans rolled, ?_, fun _ _ _ => rfl⟩
    rw [← moved, Progress.result]

end

end

end Hrana

end AiryFS
