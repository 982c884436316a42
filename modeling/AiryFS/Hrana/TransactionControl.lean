import AiryFS.Hrana.Transactional

/-! What in the body of a transactional batch tells its callback from its plain evaluation.

A compound statement fails in the callback, and a statement that controls transactions does nothing
there. Each is told apart on a database of its own choice, on which every other statement goes well.
-/

set_option autoImplicit false

namespace AiryFS

open Foundation

namespace Hrana

/-! ## Compound statements in the body -/

/-- Whatever goes wrong, it is not reported with this message. -/
def Avoids {α : Type} (message : Text) (outcome : Except Failure α) : Prop :=
  ∀ failure, outcome = .error failure → failure.text ≠ message

section
variable {α β : Type} {message : Text}

theorem avoids_ok (value : α) : Avoids message (.ok value) := by
  intro failure same
  cases same

theorem avoids_error {failure : Failure} (other : failure.text ≠ message) : Avoids message (.error failure : Except Failure α) := by
  intro found same
  cases same
  exact other

theorem avoids_bind {first : Except Failure α} {next : α → Except Failure β} (front : Avoids message first)
    (back : ∀ value, Avoids message (next value)) : Avoids message (first >>= next) := by
  cases first with
  | ok value => exact back value
  | error failure => exact avoids_error (front failure rfl)

theorem avoids_refuse {condition : Prop} [Decidable condition] {failure : Failure} (other : failure.text ≠ message) :
    Avoids message (refuse condition failure) := by
  unfold refuse
  split
  · exact avoids_error other
  · exact avoids_ok ()

end

/-- The complaint of a compound statement that has no transactions. -/
def Compound.complaint (compound : Compound) : Failure := .error (compound.name ++ " requires transaction support")

/-- A volume without a single inode. -/
def vacant : Volume := { Volume.fresh 0 with inode := .empty }

/-- A property of the first letter of a message. -/
def Begins (message : String) (letter : Char → Bool) : Bool := message.toList.head?.any letter

theorem begins_append {front back : String} {letter : Char → Bool} (begins : Begins front letter = true) :
    Begins (front ++ back) letter = true := by
  unfold Begins at begins ⊢
  rw [String.toList_append, List.head?_append]
  cases first : front.toList.head? with
  | none =>
    rw [first] at begins
    cases begins
  | some found =>
    rw [first] at begins
    exact begins

theorem complaint_begins (compound : Compound) : Begins (compound.name ++ " requires transaction support") (· = 'a') = true := by
  cases compound <;> exact begins_append (by decide)

section
variable (compound : Compound)

/-- A message that begins with another letter is another message. -/
theorem text_ne_complaint {message : String} (begins : Begins message (· ≠ 'a') = true) :
    (Failure.error message).text ≠ compound.complaint.text := by
  intro same
  have complaint := complaint_begins compound
  have letters : (compound.name ++ " requires transaction support").toList = message.toList := same.symm
  unfold Begins at begins complaint
  rw [letters] at complaint
  cases first : message.toList.head? with
  | none =>
    rw [first] at begins
    cases begins
  | some found => simp_all

/-- A shorter message is another message. -/
theorem text_ne_of_short {letters name : List Char} {message : String} (spelled : message.toList = letters)
    (named : compound.name.toList = name) (short : letters.length < name.length + 29) :
    (Failure.error message).text ≠ compound.complaint.text := by
  intro same
  have ending : " requires transaction support".toList.length = 29 := congrArg List.length String.toList_ofList
  have letters : message.toList = (compound.name ++ " requires transaction support").toList := same
  rw [spelled, String.toList_append, named] at letters
  rw [letters, List.length_append, ending] at short
  exact Nat.lt_irrefl _ short

variable {value : JsValue} {name : String} (begins : Begins name (· ≠ 'a') = true)
include begins

theorem avoids_requireSafeInteger : Avoids compound.complaint.text (Remote.requireSafeInteger value name) := by
  unfold Remote.requireSafeInteger
  split
  · split
    · exact avoids_ok _
    · exact avoids_error (text_ne_complaint compound (begins_append begins))
  · exact avoids_error (text_ne_complaint compound (begins_append begins))

theorem avoids_requireText : Avoids compound.complaint.text (Remote.requireText value name) := by
  unfold Remote.requireText
  split
  · exact avoids_ok _
  · exact avoids_error (text_ne_complaint compound (begins_append begins))

omit begins in
theorem avoids_requireBytes : Avoids compound.complaint.text (Remote.requireBytes value) := by
  unfold Remote.requireBytes
  split
  · exact avoids_ok _
  · exact avoids_error (text_ne_complaint compound (by decide))

end

theorem avoids_pwrite (bindings : List JsValue) :
    Avoids Compound.pwrite.complaint.text (Remote.executeRemotePwrite vacant bindings) := by
  unfold Remote.executeRemotePwrite Remote.Pwrite.parse
  refine avoids_bind ?_ fun call => avoids_bind ?_ fun volume => avoids_ok _
  · refine avoids_bind (avoids_refuse (text_ne_of_short .pwrite String.toList_ofList String.toList_ofList (by decide))) fun _ => ?_
    refine avoids_bind (avoids_requireSafeInteger .pwrite (by decide)) fun ino => ?_
    refine avoids_bind (avoids_requireSafeInteger .pwrite (by decide)) fun offset => ?_
    refine avoids_bind (avoids_requireBytes .pwrite) fun data => ?_
    refine avoids_bind (avoids_requireSafeInteger .pwrite (by decide)) fun chunkSize => ?_
    refine avoids_bind (avoids_requireSafeInteger .pwrite (by decide)) fun nowSecs => ?_
    refine avoids_bind (avoids_requireSafeInteger .pwrite (by decide)) fun nowNsecs => ?_
    refine avoids_bind (avoids_refuse (text_ne_complaint .pwrite (by decide))) fun _ => ?_
    exact avoids_bind (avoids_refuse (text_ne_complaint .pwrite (by decide))) fun _ => avoids_ok _
  · -- the message names the inode, and begins with another letter
    have missing : vacant.inode? call.ino = none := rfl
    simp only [Remote.Pwrite.run, missing, refuse, if_true]
    exact avoids_error (text_ne_complaint .pwrite (begins_append (by decide)))

theorem avoids_createNode (bindings : List JsValue) :
    Avoids Compound.createNode.complaint.text (Remote.executeRemoteCreateNode vacant bindings) := by
  unfold Remote.executeRemoteCreateNode Remote.CreateNode.parse
  refine avoids_bind ?_ fun call => avoids_ok _
  refine avoids_bind (avoids_refuse (text_ne_of_short .createNode String.toList_ofList String.toList_ofList (by decide))) fun _ => ?_
  refine avoids_bind (avoids_requireText .createNode (by decide)) fun kind => ?_
  refine avoids_bind (avoids_requireSafeInteger .createNode (by decide)) fun parentIno => ?_
  refine avoids_bind (avoids_requireText .createNode (by decide)) fun name => ?_
  refine avoids_bind (avoids_requireSafeInteger .createNode (by decide)) fun mode => ?_
  refine avoids_bind (avoids_requireSafeInteger .createNode (by decide)) fun uid => ?_
  refine avoids_bind (avoids_requireSafeInteger .createNode (by decide)) fun gid => ?_
  refine avoids_bind (avoids_requireSafeInteger .createNode (by decide)) fun rdev => ?_
  refine avoids_bind (avoids_requireSafeInteger .createNode (by decide)) fun nowSecs => ?_
  refine avoids_bind (avoids_requireSafeInteger .createNode (by decide)) fun nowNsecs => ?_
  refine avoids_bind ?_ fun kind => avoids_ok _
  unfold Remote.NodeKind.parse
  split
  · exact avoids_ok _
  split
  · exact avoids_ok _
  split
  · exact avoids_bind (avoids_requireText .createNode (by decide)) fun target => avoids_ok _
  · exact avoids_error (text_ne_complaint .createNode (begins_append (by decide)))

theorem avoids_link (bindings : List JsValue) :
    Avoids Compound.link.complaint.text (Remote.executeRemoteLink vacant bindings) := by
  unfold Remote.executeRemoteLink Remote.Link.parse
  refine avoids_bind ?_ fun call => avoids_ok _
  refine avoids_bind (avoids_refuse (text_ne_of_short .link String.toList_ofList String.toList_ofList (by decide))) fun _ => ?_
  refine avoids_bind (avoids_requireSafeInteger .link (by decide)) fun sourceIno => ?_
  refine avoids_bind (avoids_requireSafeInteger .link (by decide)) fun parentIno => ?_
  refine avoids_bind (avoids_requireText .link (by decide)) fun name => ?_
  refine avoids_bind (avoids_requireSafeInteger .link (by decide)) fun nowSecs => ?_
  exact avoids_bind (avoids_requireSafeInteger .link (by decide)) fun nowNsecs => avoids_ok _

theorem avoids_truncate (bindings : List JsValue) :
    Avoids Compound.truncate.complaint.text (Remote.executeRemoteTruncate vacant bindings) := by
  unfold Remote.executeRemoteTruncate Remote.Truncate.parse
  refine avoids_bind ?_ fun call => avoids_ok _
  refine avoids_bind (avoids_refuse (text_ne_of_short .truncate String.toList_ofList String.toList_ofList (by decide))) fun _ => ?_
  refine avoids_bind (avoids_requireSafeInteger .truncate (by decide)) fun ino => ?_
  refine avoids_bind (avoids_requireSafeInteger .truncate (by decide)) fun newSize => ?_
  refine avoids_bind (avoids_requireSafeInteger .truncate (by decide)) fun chunkSize => ?_
  refine avoids_bind (avoids_requireSafeInteger .truncate (by decide)) fun nowSecs => ?_
  refine avoids_bind (avoids_requireSafeInteger .truncate (by decide)) fun nowNsecs => ?_
  exact avoids_bind (avoids_refuse (text_ne_complaint .truncate (by decide))) fun _ => avoids_ok _

theorem avoids_rename (bindings : List JsValue) :
    Avoids Compound.rename.complaint.text (Remote.executeRemoteRename vacant bindings) := by
  unfold Remote.executeRemoteRename Remote.Rename.parse
  refine avoids_bind ?_ fun call => avoids_ok _
  refine avoids_bind (avoids_refuse (text_ne_of_short .rename String.toList_ofList String.toList_ofList (by decide))) fun _ => ?_
  refine avoids_bind (avoids_requireSafeInteger .rename (by decide)) fun oldParentIno => ?_
  refine avoids_bind (avoids_requireText .rename (by decide)) fun oldName => ?_
  refine avoids_bind (avoids_requireSafeInteger .rename (by decide)) fun newParentIno => ?_
  refine avoids_bind (avoids_requireText .rename (by decide)) fun newName => ?_
  refine avoids_bind (avoids_requireSafeInteger .rename (by decide)) fun nowSecs => ?_
  refine avoids_bind (avoids_requireSafeInteger .rename (by decide)) fun nowNsecs => ?_
  exact avoids_bind (avoids_refuse (text_ne_complaint .rename (by decide))) fun _ => avoids_ok _

/-- A compound statement that has its transactions never complains that they are missing. -/
theorem avoids_compound (compound : Compound) (bindings : List JsValue) :
    Avoids compound.complaint.text (compound.execute vacant bindings) := by
  cases compound with
  | pwrite => exact avoids_pwrite bindings
  | createNode => exact avoids_createNode bindings
  | link => exact avoids_link bindings
  | truncate => exact avoids_truncate bindings
  | rename => exact avoids_rename bindings

/-! ## What a compound statement in the body breaks -/

/-- A database on which every statement goes well and does nothing. -/
def quiet : SqlBackend Unit := ⟨fun _ _ => pure ⟨[], [], 0, 0⟩⟩

def quietDatabase : Database Unit := ⟨vacant, ()⟩

/-- The statements that go well there, whether or not there are transactions. -/
def Stmt.goesWell (stmt : Stmt) : Prop := stmt.controls = false ∧ stmt.proceeds = true ∧ stmt.compound = none

section
variable (numeral : Rat → Text)

theorem executeStmtSync_quiet {stmt : Stmt} (well : stmt.goesWell) (transactionSync : Bool) :
    ∃ result, executeStmtSync numeral quiet transactionSync stmt quietDatabase = .ok result quietDatabase := by
  obtain ⟨uncontrolled, proceeds, single⟩ := well
  simp only [Stmt.controls, Bool.or_eq_false_iff] at uncontrolled
  unfold executeStmtSync
  simp only [uncontrolled.1, Bool.false_eq_true, if_false]
  cases pragma : isPragma stmt.query with
  | true =>
    simp only [if_true]
    cases tableInfo stmt.query <;> exact ⟨_, rfl⟩
  | false =>
    simp only [Stmt.compound, pragma, Bool.false_eq_true, if_false] at single ⊢
    cases converted : stmt.bindings with
    | error failure =>
      simp [Stmt.proceeds, Stmt.controls, uncontrolled, pragma, converted, Except.isOk, Except.toBool] at proceeds
    | ok bindings =>
      simp only [single]
      exact ⟨_, rfl⟩

/-- A compound statement in the callback always fails, since it is given no transactions. -/
theorem executeStmtSync_compound {stmt : Stmt} (uncontrolled : stmt.controls = false) (proceeds : stmt.proceeds = true)
    {compound : Compound} (recognised : stmt.compound = some compound) :
    ∃ bindings, (∀ {τ : Type} (backend : SqlBackend τ) (transactionSync : Bool),
      executeStmtSync numeral backend transactionSync stmt = compound.run transactionSync bindings) := by
  simp only [Stmt.controls, Bool.or_eq_false_iff] at uncontrolled
  unfold Stmt.compound at recognised
  cases pragma : isPragma stmt.query with
  | true => simp [pragma] at recognised
  | false =>
    simp only [pragma, Bool.false_eq_true, if_false] at recognised
    cases converted : stmt.bindings with
    | error failure =>
      simp [Stmt.proceeds, Stmt.controls, uncontrolled, pragma, converted, Except.isOk, Except.toBool] at proceeds
    | ok bindings =>
      refine ⟨bindings.map SqlValue.toJs, fun backend transactionSync => ?_⟩
      unfold executeStmtSync
      simp only [uncontrolled.1, pragma, Bool.false_eq_true, if_false, recognised, converted]
      rfl

/-- With its transactions it fails only as its own run does. -/
theorem Compound.execute_of_run {compound : Compound} {bindings : List JsValue} {failure : Failure} {database' : Database Unit}
    (ran : compound.run true bindings quietDatabase = .error failure database') :
    compound.execute vacant bindings = .error failure := by
  have same : compound.run true bindings quietDatabase =
      (onVolume (fun volume => compound.execute volume bindings) >>= fun outcome => pure (compound.result outcome))
        quietDatabase := rfl
  rw [same] at ran
  simp only [onVolume, quietDatabase, bind, EStateM.bind] at ran
  cases executed : compound.execute vacant bindings with
  | ok value =>
    rw [executed] at ran
    cases ran
  | error other =>
    rw [executed] at ran
    cases ran
    rfl

/-- The statements in front of it run in the callback. -/
theorem executeBody_quiet {front : List BatchStep} (well : ∀ step ∈ front, step.stmt.goesWell) (back : List BatchStep)
    (results : List (Option StmtResult)) :
    ∃ more : List (Option StmtResult), more.length = front.length ∧
      executeBody numeral quiet (front ++ back) results quietDatabase =
        executeBody numeral quiet back (results ++ more) quietDatabase := by
  induction front generalizing results with
  | nil => exact ⟨[], rfl, by simp⟩
  | cons step front ih =>
    obtain ⟨result, ran⟩ := executeStmtSync_quiet numeral (well step (by simp)) false
    obtain ⟨more, count, rest⟩ := ih (fun other member => well other (by simp [member])) (results ++ [some result])
    refine ⟨some result :: more, by simp [count], ?_⟩
    simp only [List.cons_append, executeBody, ran]
    simpa using rest

/-- And step by step. -/
theorem executeSteps_quiet (nested : Text → Attempt Failure (Session Unit) StmtResult) {front : List BatchStep}
    (well : ∀ step ∈ front, step.stmt.goesWell) (back : List BatchStep)
    {results : List (Option StmtResult)} (chained : ChainedFrom results.length front) (result : StmtResult)
    (errors : List (Option Text)) (wrote : Bool) :
    ∃ results' result' wrote', results'.length = results.length + front.length ∧
      executeSteps (plainStmt numeral quiet nested) (front ++ back) ⟨results ++ [some result], errors, wrote⟩
        ⟨quietDatabase, .active quietDatabase⟩ =
      executeSteps (plainStmt numeral quiet nested) back
        ⟨results' ++ [some result'], errors ++ List.replicate front.length none, wrote'⟩ ⟨quietDatabase, .active quietDatabase⟩ := by
  induction front generalizing results result errors wrote with
  | nil => exact ⟨results, result, wrote, rfl, by simp⟩
  | cons step front ih =>
    have ⟨condition, further⟩ := chainedFrom_cons chained
    obtain ⟨next, ran⟩ := executeStmtSync_quiet numeral (well step (by simp)) true
    have recorded := @executeSteps_record _ (plainStmt numeral quiet nested) _ _ (wanted_ok condition (some result) errors wrote)
      _ _ _ (by
        rw [plainStmt_of_uncontrolled numeral quiet nested (well step (by simp)).1]
        exact Session.onDatabase_ok ran (.active quietDatabase))
      (front ++ back)
    obtain ⟨results', result', wrote', count, rest⟩ := ih (fun other member => well other (by simp [member]))
      (show ChainedFrom (results ++ [some result]).length front by simpa using further) next (errors ++ [none])
      (wrote || isMutatingStatement step.stmt.query)
    refine ⟨results', result', wrote', by simp at count ⊢; omega, ?_⟩
    rw [List.cons_append, recorded]
    simpa [Progress.record, List.replicate_succ] using rest

end

/-- What the steps have come to is only added to, by one entry for each. -/
theorem executeSteps_extends {σ : Type} {run : Stmt → Attempt Failure σ StmtResult} {steps : List BatchStep}
    {progress progress' : Progress} {state state' : σ} (ran : executeSteps run steps progress state = .ok progress' state') :
    progress.errors <+: progress'.errors ∧ progress.results <+: progress'.results ∧
      progress'.results.length = progress.results.length + steps.length := by
  induction steps generalizing progress state with
  | nil =>
    cases ran
    exact ⟨List.prefix_refl _, List.prefix_refl _, rfl⟩
  | cons step steps ih =>
    have added {entry : Option StmtResult} {error : Option Text} {next : Progress} {state'' : σ}
        (results : next.results = progress.results ++ [entry]) (errors : next.errors = progress.errors ++ [error])
        (ran : executeSteps run steps next state'' = .ok progress' state') :
        progress.errors <+: progress'.errors ∧ progress.results <+: progress'.results ∧
          progress'.results.length = progress.results.length + (steps.length + 1) := by
      have ⟨moreErrors, moreResults, count⟩ := ih ran
      rw [errors] at moreErrors
      rw [results] at moreResults count
      refine ⟨(List.prefix_append _ _).trans moreErrors, (List.prefix_append _ _).trans moreResults, ?_⟩
      rw [count, List.length_append, List.length_singleton]
      omega
    cases evaluated : step.wanted progress with
    | error failure =>
      rw [executeSteps, evaluated] at ran
      cases ran
    | ok wanted =>
      cases wanted with
      | false =>
        rw [executeSteps_skip evaluated] at ran
        exact added rfl rfl ran
      | true =>
        obtain ⟨outcome, middle, ended⟩ := Attempt.caught_total (run step.stmt) state
        rw [executeSteps_record evaluated ended] at ran
        cases outcome with
        | ok result => exact added rfl rfl ran
        | error failure => exact added rfl rfl ran

/-- A body that is not supported has a first statement in the way. -/
theorem exists_unsupported {middle : List BatchStep} (unsupported : ¬Supported (middle.map (·.stmt))) :
    ∃ front step back, middle = front ++ step :: back ∧ (∀ other ∈ front, other.stmt.goesWell) ∧
      step.stmt.proceeds = true ∧ (step.stmt.controls = false → ∃ compound, step.stmt.compound = some compound) := by
  induction middle with
  | nil => exact absurd (fun stmt member => by simp [reached] at member) unsupported
  | cons step middle ih =>
    cases proceeds : step.stmt.proceeds with
    | false => exact absurd (fun stmt member => by simp [reached, proceeds] at member) unsupported
    | true =>
      by_cases well : step.stmt.controls = false ∧ step.stmt.compound = none
      · have later : ¬Supported (middle.map (·.stmt)) := by
          intro supported
          refine unsupported fun stmt member => ?_
          simp only [reached, List.map_cons, List.takeWhile_cons, proceeds, if_true, List.mem_cons] at member
          cases member with
          | inl same => rwa [same]
          | inr later => exact supported stmt later
        obtain ⟨front, other, back, same, wellBefore, found⟩ := ih later
        refine ⟨step :: front, other, back, by simp [same], ?_, found⟩
        intro one member
        cases List.mem_cons.mp member with
        | inl first => exact first ▸ ⟨well.1, proceeds, well.2⟩
        | inr inside => exact wellBefore one inside
      · refine ⟨[], step, middle, rfl, by simp, proceeds, fun uncontrolled => ?_⟩
        exact Option.ne_none_iff_exists'.mp fun none => well ⟨uncontrolled, none⟩

section
variable (numeral : Rat → Text) (nested : Text → Attempt Failure (Session Unit) StmtResult)
variable {first commit last step : BatchStep} {front back : List BatchStep} {compound : Compound}
variable (batch : CanonicalBatch first (front ++ step :: back) commit last) (well : ∀ other ∈ front, other.stmt.goesWell)
  (uncontrolled : step.stmt.controls = false) (proceeds : step.stmt.proceeds = true)
  (recognised : step.stmt.compound = some compound)
include well uncontrolled proceeds recognised

/-- The callback reports that there are no transactions. -/
theorem executeTransactionalBatch_compound (first commit last : BatchStep) (back : List BatchStep) :
    ∃ result wrote, executeTransactionalBatch numeral quiet (first :: (front ++ step :: back ++ [commit, last]))
        (1, (front ++ step :: back).length + 1) quietDatabase = .ok (result, wrote) quietDatabase ∧
      result.stepErrors[front.length + 1]? = some (some compound.complaint.text) := by
  obtain ⟨bindings, runs⟩ := executeStmtSync_compound numeral uncontrolled proceeds recognised
  obtain ⟨more, count, stopped⟩ := executeBody_quiet numeral well (step :: back) [some EMPTY_RESULT]
  have failed : executeBody numeral quiet (step :: back) ([some EMPTY_RESULT] ++ more) quietDatabase =
      .error ⟨compound.complaint, [some EMPTY_RESULT] ++ more⟩ quietDatabase := by
    simp only [executeBody, runs]
    rfl
  simp only [executeTransactionalBatch, framed_body, Attempt.atomic, stopped, failed]
  refine ⟨_, _, rfl, ?_⟩
  have before : (([some EMPTY_RESULT] ++ more).map fun _ => (none : Option Text)).length = front.length + 1 := by
    simp [count]
  simp only [List.append_assoc]
  rw [List.getElem?_append_right (Nat.le_of_eq before), before, Nat.sub_self]
  rfl

include batch

/-- Its plain evaluation does not. -/
theorem plainBatch_compound {progress : Progress} {session : Session Unit}
    (ran : plainBatch numeral quiet nested (first :: (front ++ step :: back ++ [commit, last])) ⟨quietDatabase, .idle⟩ =
      .ok progress session) : progress.errors[front.length + 1]? ≠ some (some compound.complaint.text) := by
  obtain ⟨bindings, runs⟩ := executeStmtSync_compound numeral uncontrolled proceeds recognised
  have chained : ChainedFrom ([] : List (Option StmtResult)).length front := chainedFrom_front batch.chained
  obtain ⟨results, result, wrote, count, before⟩ := executeSteps_quiet numeral nested well
    (step :: back ++ [commit, last]) chained EMPTY_RESULT [none] (isMutatingStatement first.stmt.query)
  have condition : isOkCondition step.condition results.length := by
    have here := batch.chained front.length step (by simp)
    rwa [Nat.zero_add, ← (Nat.zero_add front.length ▸ count : results.length = front.length)] at here
  obtain ⟨outcome, session', ended⟩ := Attempt.caught_total (plainStmt numeral quiet nested step.stmt)
    ⟨quietDatabase, .active quietDatabase⟩
  unfold plainBatch at ran
  rw [executeSteps_record batch.first_wanted (batch.begin_transaction numeral quiet nested quietDatabase), List.append_assoc] at ran
  have further := before.symm.trans ran
  rw [List.cons_append, executeSteps_record (wanted_ok condition (some result) ([none] ++ List.replicate front.length none) wrote) ended] at further
  obtain ⟨⟨later, kept⟩, -⟩ := executeSteps_extends further
  rw [← kept]
  cases outcome with
  | ok value => simp [Progress.record]
  | error failure =>
    rw [plainStmt_of_uncontrolled numeral quiet nested uncontrolled, runs] at ended
    obtain ⟨database, failed⟩ := Session.error_of_onDatabase ended
    have avoided := avoids_compound compound bindings failure (Compound.execute_of_run failed)
    simpa [Progress.record] using avoided

/-- A compound statement that is reached tells the two evaluations apart. -/
theorem not_agrees_of_compound :
    ¬Agrees numeral quiet nested (first :: (front ++ step :: back ++ [commit, last]))
      (1, (front ++ step :: back).length + 1) quietDatabase := by
  rintro ⟨result, wrote, final, progress, fast, plain, rfl, -⟩
  obtain ⟨result, wrote', complained, complaint⟩ := executeTransactionalBatch_compound numeral well uncontrolled
    proceeds recognised first commit last back
  rw [complained] at fast
  cases fast
  exact plainBatch_compound numeral nested batch well uncontrolled proceeds recognised plain complaint

end

/-! ## Transaction control in the body -/

/-- A result that no statement has on the quiet database. -/
def strange : StmtResult := { EMPTY_RESULT with rowsRead := 1 }

/-- A database that answers transaction control out of course with the strange result. -/
def answering : Text → Attempt Failure (Session Unit) StmtResult := fun _ => pure strange

section
variable (numeral : Rat → Text)

theorem rowsRead_quiet {stmt : Stmt} {database database' : Database Unit} {result : StmtResult}
    (ran : executeStmtSync numeral quiet false stmt database = .ok result database') : result.rowsRead = 0 := by
  simp only [executeStmtSync] at ran
  cases blocked : isBlockedStatement stmt.query with
  | true =>
    rw [blocked] at ran
    cases ran
    rfl
  | false =>
    simp only [blocked, Bool.false_eq_true, if_false] at ran
    cases pragma : isPragma stmt.query with
    | true =>
      simp only [pragma, if_true] at ran
      cases table : tableInfo stmt.query <;>
      · rw [table] at ran
        cases ran
        rfl
    | false =>
      simp only [pragma, Bool.false_eq_true, if_false] at ran
      cases converted : stmt.bindings with
      | error failure =>
        rw [converted] at ran
        cases ran
      | ok bindings =>
        rw [converted] at ran
        cases recognised : Compound.recognise stmt.query <;>
        · rw [recognised] at ran
          cases ran
          try rfl

theorem executeBody_not_strange (steps : List BatchStep) {results : List (Option StmtResult)} (database : Database Unit)
    (familiar : some strange ∉ results) :
    Attempt.Post (executeBody numeral quiet steps results) database
      (fun results' _ => some strange ∉ results') (fun failure _ => some strange ∉ failure.results) := by
  induction steps generalizing results database with
  | nil => exact familiar
  | cons step steps ih =>
    unfold Attempt.Post executeBody
    cases ran : executeStmtSync numeral quiet false step.stmt database with
    | error cause database' => exact familiar
    | ok result database' =>
      refine ih _ fun member => ?_
      cases List.mem_append.mp member with
      | inl earlier => exact familiar earlier
      | inr last =>
        have same : strange = result := by simpa using last
        have read := rowsRead_quiet numeral ran
        rw [← same] at read
        cases read

/-- The callback never gives the strange result. -/
theorem executeTransactionalBatch_not_strange {steps : List BatchStep} {body : Nat × Nat} {database database' : Database Unit}
    {result : BatchResult} {wrote : Bool}
    (ran : executeTransactionalBatch numeral quiet steps body database = .ok (result, wrote) database') :
    some strange ∉ result.stepResults := by
  have familiar := executeBody_not_strange numeral (steps.drop body.1 |>.take (body.2 - body.1)) database
    (show some strange ∉ [some EMPTY_RESULT] by decide)
  have empty : some strange ≠ some EMPTY_RESULT := by decide
  unfold Attempt.Post at familiar
  split at familiar
  · rename_i results final body_ran
    simp only [executeTransactionalBatch, Attempt.atomic, body_ran] at ran
    cases ran
    simpa [empty] using familiar
  · rename_i failure final body_ran
    simp only [executeTransactionalBatch, Attempt.atomic, body_ran] at ran
    cases ran
    simp [empty, familiar]

end

section
variable (numeral : Rat → Text) (backend : SqlBackend Unit)

/-- Transaction control that is out of course is answered with the strange result. -/
theorem plainStmt_answering {stmt : Stmt} (controls : stmt.controls = true) {session : Session Unit}
    (out : session.control stmt.word = none) :
    Attempt.caught (plainStmt numeral backend answering stmt) session = .ok (.ok strange) session := by
  simp only [Attempt.caught, plainStmt, controls, if_true, out]
  rfl

theorem plainStmt_ended {stmt : Stmt} {session session' : Session Unit} {outcome : Except Failure StmtResult}
    (ended : session.transaction = .ended)
    (ran : Attempt.caught (plainStmt numeral backend answering stmt) session = .ok outcome session') :
    session'.transaction = .ended := by
  cases controls : stmt.controls with
  | true =>
    rw [plainStmt_answering numeral backend controls (by rw [Session.control, ended])] at ran
    cases ran
    exact ended
  | false =>
    rw [plainStmt_of_uncontrolled numeral backend answering controls] at ran
    unfold Attempt.caught Session.onDatabase Attempt.within at ran
    cases done : executeStmtSync numeral backend true stmt session.database <;>
    · rw [done] at ran
      cases ran
      exact ended

/-- A transaction that has ended stays so. -/
theorem executeSteps_ended {steps : List BatchStep} {progress progress' : Progress} {session session' : Session Unit}
    (ran : executeSteps (plainStmt numeral backend answering) steps progress session = .ok progress' session')
    (ended : session.transaction = .ended) : session'.transaction = .ended := by
  induction steps generalizing progress session with
  | nil =>
    cases ran
    exact ended
  | cons step steps ih =>
    cases evaluated : step.wanted progress with
    | error failure =>
      rw [executeSteps, evaluated] at ran
      cases ran
    | ok wanted =>
      cases wanted with
      | false =>
        rw [executeSteps_skip evaluated] at ran
        exact ih ran ended
      | true =>
        obtain ⟨outcome, middle, done⟩ := Attempt.caught_total (plainStmt numeral backend answering step.stmt) session
        rw [executeSteps_record evaluated done] at ran
        exact ih ran (plainStmt_ended numeral backend ended done)

variable {first commit last : BatchStep} {middle : List BatchStep} (batch : CanonicalBatch first middle commit last)
include batch

/-- Then the end of the batch is out of course, whether it is the commit or the rollback. -/
theorem strange_of_ended {front : List (Option StmtResult)} (count : front.length = middle.length) {entry : Option StmtResult}
    {errors : List (Option Text)} {wrote : Bool} {progress : Progress} {session session' : Session Unit}
    (ended : session.transaction = .ended)
    (ran : executeSteps (plainStmt numeral backend answering) [commit, last] ⟨front ++ [entry], errors, wrote⟩ session =
      .ok progress session') : some strange ∈ progress.results := by
  have out (word : Text) : session.control word = none := by rw [Session.control, ended]
  have wanted := wanted_ok (count.symm ▸ batch.commit_condition) entry errors wrote
  cases entry with
  | some result =>
    have answered := plainStmt_answering numeral backend
      (controls_of_word "COMMIT" (by simp) batch.commit_word) (out commit.stmt.word)
    rw [executeSteps_record wanted answered] at ran
    obtain ⟨-, kept, -⟩ := executeSteps_extends ran
    exact kept.subset (by simp [Progress.record])
  | none =>
    have answered := plainStmt_answering numeral backend
      (controls_of_word "ROLLBACK" (by simp) batch.last_word) (out last.stmt.word)
    have further : isNotOkCondition last.condition (front ++ [none]).length := by
      rw [List.length_append, count]
      exact batch.last_condition
    have wantedLast := wanted_not_ok further none (errors ++ [none]) wrote
    rw [executeSteps_skip wanted, Progress.skip, executeSteps_record wantedLast answered] at ran
    obtain ⟨-, kept, -⟩ := executeSteps_extends ran
    exact kept.subset (by simp [Progress.record])

end

section
variable (numeral : Rat → Text)
variable {first commit last step : BatchStep} {front back : List BatchStep}
variable (batch : CanonicalBatch first (front ++ step :: back) commit last) (well : ∀ other ∈ front, other.stmt.goesWell)
  (controls : step.stmt.controls = true)
include batch well controls

/-- Transaction control in the body either is out of course itself or puts the end out of course. -/
theorem plainBatch_control {progress : Progress} {session : Session Unit}
    (ran : plainBatch numeral quiet answering (first :: (front ++ step :: back ++ [commit, last])) ⟨quietDatabase, .idle⟩ =
      .ok progress session) : some strange ∈ progress.results := by
  have chained : ChainedFrom ([] : List (Option StmtResult)).length front := chainedFrom_front batch.chained
  obtain ⟨results, result, wrote, count, before⟩ := executeSteps_quiet numeral answering well
    (step :: back ++ [commit, last]) chained EMPTY_RESULT [none] (isMutatingStatement first.stmt.query)
  have condition : isOkCondition step.condition results.length := by
    have here := batch.chained front.length step (by simp)
    rwa [Nat.zero_add, ← (Nat.zero_add front.length ▸ count : results.length = front.length)] at here
  unfold plainBatch at ran
  rw [executeSteps_record batch.first_wanted (batch.begin_transaction numeral quiet answering quietDatabase), List.append_assoc] at ran
  have further := before.symm.trans ran
  rw [List.cons_append] at further
  cases course : (⟨quietDatabase, .active quietDatabase⟩ : Session Unit).control step.stmt.word with
  | none =>
    rw [executeSteps_record (wanted_ok condition (some result) ([none] ++ List.replicate front.length none) wrote) (plainStmt_answering numeral quiet controls course)] at further
    obtain ⟨-, kept, -⟩ := executeSteps_extends further
    exact kept.subset (by simp [Progress.record])
  | some next =>
    rw [executeSteps_record (wanted_ok condition (some result) ([none] ++ List.replicate front.length none) wrote) (plainStmt_of_control numeral quiet answering controls course), executeSteps_append] at further
    have ended : next.transaction = .ended := by
      simp only [Session.control] at course
      split at course
      · cases course
        rfl
      split at course
      · cases course
        rfl
      · cases course
    cases rest : executeSteps (plainStmt numeral quiet answering) back
        (Progress.record ⟨results ++ [some result], [none] ++ List.replicate front.length none, wrote⟩ step.stmt
          (.ok EMPTY_RESULT)) next with
    | error failure session' =>
      rw [Attempt.bind_of_error rest] at further
      cases further
    | ok middle session' =>
      rw [Attempt.bind_of_ok rest] at further
      obtain ⟨-, -, long⟩ := executeSteps_extends rest
      have nonempty : middle.results ≠ [] := by
        intro empty
        simp only [empty, Progress.record, List.length_nil, List.length_append, List.length_singleton] at long
        omega
      have split := List.dropLast_append_getLast nonempty
      have same : middle = ⟨middle.results.dropLast ++ [middle.results.getLast nonempty], middle.errors, middle.wrote⟩ := by
        rw [split]
      rw [same] at further
      refine strange_of_ended numeral quiet batch ?_ (executeSteps_ended numeral quiet rest ended) further
      simp [long, Progress.record] at count ⊢
      omega

end

/-- The callback agrees with the plain evaluation of a batch whatever the database exactly when its
body, as far as it gets, needs no transactions and does not control them. -/
theorem transactional_batch {steps : List BatchStep} {body : Nat × Nat}
    (canonical : canonicalTransactionalBody steps = some body) :
    (∀ (numeral : Rat → Text) (τ : Type) (backend : SqlBackend τ) (nested : Text → Attempt Failure (Session τ) StmtResult)
      (database : Database τ), Agrees numeral backend nested steps body database) ↔
    Supported (((steps.drop body.1).take (body.2 - body.1)).map (·.stmt)) := by
  obtain ⟨first, middle, commit, last, rfl, rfl, batch⟩ := canonical_batch canonical
  rw [framed_body]
  constructor
  · intro agrees
    by_contra unsupported
    obtain ⟨front, step, back, rfl, well, proceeds, compound⟩ := exists_unsupported unsupported
    have agreed := agrees (fun _ => []) Unit quiet answering quietDatabase
    cases controls : step.stmt.controls with
    | false =>
      obtain ⟨compound, recognised⟩ := compound controls
      exact not_agrees_of_compound _ _ batch well controls proceeds recognised agreed
    | true =>
      obtain ⟨result, wrote, final, progress, fast, plain, same, -⟩ := agreed
      refine executeTransactionalBatch_not_strange _ fast ?_
      rw [← same]
      exact plainBatch_control _ batch well controls plain
  · intro supported numeral τ backend nested database
    exact agrees_of_supported numeral backend nested batch supported database

/-- A batch that makes a directory in the root. -/
def mkdirBatch (sql : String) (args : List HranaValue) : List BatchStep :=
  let stmt (sql : String) (args : List HranaValue) : Stmt := { sql := some sql.toList, sqlId := none, args, namedArgs := [] }
  [⟨none, stmt "BEGIN TRANSACTION" []⟩, ⟨some (.ok (some 0)), stmt sql args⟩, ⟨some (.ok (some 1)), stmt "COMMIT" []⟩,
    ⟨some (.not (.ok (some 2))), stmt "ROLLBACK" []⟩]

/-- As the remote client asks for it: with a compound statement. -/
def compoundBatch : List BatchStep :=
  mkdirBatch "SELECT airyfs_create_node_v1(?, ?, ?, ?, ?, ?, ?, ?, ?, ?)"
    [.text "mkdir".toList, .integer "1".toList, .text "a".toList, .integer "493".toList, .integer "0".toList,
      .integer "0".toList, .integer "0".toList, .null, .integer "1".toList, .integer "0".toList]

def plainInsert : List BatchStep := mkdirBatch "INSERT INTO fs_dentry (name, parent_ino, ino) VALUES (?, 1, 2)" [.text "a".toList]

theorem transactional_batch_insert : canonicalTransactionalBody plainInsert = some (1, 2) ∧
    ∀ (numeral : Rat → Text) (τ : Type) (backend : SqlBackend τ)
      (nested : Text → Attempt Failure (Session τ) StmtResult) (database : Database τ),
      Agrees numeral backend nested plainInsert (1, 2) database :=
  ⟨by decide +kernel, (transactional_batch (by decide +kernel)).mpr (by decide +kernel)⟩

/-- The callback reports that there are no transactions, where the plain evaluation makes the directory. -/
theorem compound_batch_refused : canonicalTransactionalBody compoundBatch = some (1, 2) ∧
    Attempt.Returns (executeTransactionalBatch (fun _ => []) quiet compoundBatch (1, 2)) ⟨Volume.fresh 0, ()⟩
      (fun outcome _ => outcome.1.stepErrors =
        [none, some Compound.createNode.complaint.text, none, none]) = true ∧
    Attempt.Returns (plainBatch (fun _ => []) quiet answering compoundBatch) ⟨⟨Volume.fresh 0, ()⟩, .idle⟩
      (fun progress session => progress.errors = [none, none, none, none] &&
        (session.database.volume.dentry? 1 "a".toList).isSome) = true ∧
    ¬Agrees (fun _ => []) quiet answering compoundBatch (1, 2) ⟨Volume.fresh 0, ()⟩ := by
  have fast : Attempt.Returns (executeTransactionalBatch (fun _ => []) quiet compoundBatch (1, 2)) ⟨Volume.fresh 0, ()⟩
      (fun outcome _ => outcome.1.stepErrors =
        [none, some Compound.createNode.complaint.text, none, none]) = true := by decide +kernel
  have plain : Attempt.Returns (plainBatch (fun _ => []) quiet answering compoundBatch) ⟨⟨Volume.fresh 0, ()⟩, .idle⟩
      (fun progress session => progress.errors = [none, none, none, none] &&
        (session.database.volume.dentry? 1 "a".toList).isSome) = true := by decide +kernel
  refine ⟨by decide +kernel, fast, plain, ?_⟩
  rintro ⟨result, wrote, final, progress, executed, evaluated, rfl, -⟩
  unfold Attempt.Returns at fast plain
  rw [executed] at fast
  rw [evaluated] at plain
  have complained : progress.errors = [none, some Compound.createNode.complaint.text, none, none] := of_decide_eq_true fast
  have silent : progress.errors = [none, none, none, none] := of_decide_eq_true (Bool.and_elim_left plain)
  cases complained.symm.trans silent

end Hrana

end AiryFS
