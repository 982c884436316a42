import AiryFS.Foundation.Asking

/-! Computations that ask a world which changes while they run.

A world may answer a question in several ways, a failure among them, and an answer may leave it
in another state. A computation can be stopped before any of its questions. What is true of
every play that comes to its end is read off the questions, one after the other.
-/

set_option autoImplicit false

namespace Foundation

namespace Asking

variable {Q : Type} {A : Q → Type} {ε σ α β : Type}

/-- What may be answered to a question in a state, and the state that this leaves. -/
abbrev World (A : Q → Type) (σ : Type) : Type := ∀ q, σ → A q → σ → Prop

inductive Outcome (ε α : Type) where
  | returned (value : α)
  | thrown (failure : ε)
  | stopped

inductive Plays (world : World A σ) : Asking A ε α → σ → Outcome ε α → σ → Prop where
  | returned (value : α) (state : σ) : Plays world (.returned value) state (.returned value) state
  | thrown (failure : ε) (state : σ) : Plays world (.thrown failure) state (.thrown failure) state
  | stopped (computation : Asking A ε α) (state : σ) : Plays world computation state .stopped state
  | asked {q : Q} {next : A q → Asking A ε α} {state state' state'' : σ} {answer : A q} {outcome : Outcome ε α} :
      world q state answer state' → Plays world (next answer) state' outcome state'' →
      Plays world (.ask q next) state outcome state''

section Plays
variable {world world' : World A σ} {computation : Asking A ε α} {state state' state'' : σ}

/-- A world that allows more has all the plays. -/
theorem Plays.mono {outcome : Outcome ε α} (plays : Plays world computation state outcome state')
    (wider : ∀ q state answer state', world q state answer state' → world' q state answer state') :
    Plays world' computation state outcome state' := by
  induction plays with
  | returned value state => exact .returned value state
  | thrown failure state => exact .thrown failure state
  | stopped computation state => exact .stopped computation state
  | asked replied plays ih => exact .asked (wider _ _ _ _ replied) ih

theorem Plays.bind {value : α} {next : α → Asking A ε β} {outcome : Outcome ε β}
    (plays : Plays world computation state (.returned value) state') (rest : Plays world (next value) state' outcome state'') :
    Plays world (computation >>= next) state outcome state'' := by
  generalize ended : Outcome.returned value = first at plays
  induction plays with
  | returned other state => cases ended; exact rest
  | thrown failure state => cases ended
  | stopped computation state => cases ended
  | asked replied plays ih => exact .asked replied (ih rest ended)

theorem Plays.bind_thrown {failure : ε} (plays : Plays world computation state (.thrown failure) state') (next : α → Asking A ε β) :
    Plays world (computation >>= next) state (.thrown failure) state' := by
  generalize ended : Outcome.thrown failure = first at plays
  induction plays with
  | returned value state => cases ended
  | thrown other state => cases ended; exact .thrown failure state
  | stopped computation state => cases ended
  | asked replied plays ih => exact .asked replied (ih ended)

end Plays

/-- Whatever the world answers, what is asked of the way the computation ends holds. -/
def Ensures (world : World A σ) (returned : α → σ → Prop) (thrown : ε → σ → Prop) : Asking A ε α → σ → Prop
  | .returned value, state => returned value state
  | .thrown failure, state => thrown failure state
  | .ask q next, state => ∀ answer state', world q state answer state' → Ensures world returned thrown (next answer) state'

section Ensuring
variable {world : World A σ} {computation : Asking A ε α} {state state' : σ}
variable {returned returned' : α → σ → Prop} {thrown thrown' : ε → σ → Prop}

theorem Ensures.mono (ensures : Ensures world returned thrown computation state)
    (returns : ∀ value state', returned value state' → returned' value state')
    (throws : ∀ failure state', thrown failure state' → thrown' failure state') :
    Ensures world returned' thrown' computation state := by
  induction computation generalizing state with
  | returned value => exact returns value state ensures
  | thrown failure => exact throws failure state ensures
  | ask q next ih => exact fun answer state' replied => ih answer (ensures answer state' replied)

theorem Ensures.of_returned (ensures : Ensures world returned thrown computation state) {value : α}
    (plays : Plays world computation state (.returned value) state') : returned value state' := by
  generalize ended : Outcome.returned value = outcome at plays
  induction plays with
  | returned other state => cases ended; exact ensures
  | thrown failure state => cases ended
  | stopped computation state => cases ended
  | asked replied plays ih => exact ih (ensures _ _ replied) ended

theorem Ensures.of_thrown (ensures : Ensures world returned thrown computation state) {failure : ε}
    (plays : Plays world computation state (.thrown failure) state') : thrown failure state' := by
  generalize ended : Outcome.thrown failure = outcome at plays
  induction plays with
  | returned value state => cases ended
  | thrown other state => cases ended; exact ensures
  | stopped computation state => cases ended
  | asked replied plays ih => exact ih (ensures _ _ replied) ended

theorem ensures_question {q : Q} {returned : A q → σ → Prop} : Ensures world returned thrown (question q) state ↔
    ∀ answer state', world q state answer state' → returned answer state' := Iff.rfl

@[simp] theorem ensures_lift {outcome : Except ε α} : Ensures world returned thrown (lift outcome : Asking A ε α) state ↔
    (∀ value, outcome = .ok value → returned value state) ∧ ∀ failure, outcome = .error failure → thrown failure state := by
  cases outcome <;> simp [lift, Ensures]

theorem ensures_consult {q : Q} {outcome : A q → Except ε α} : Ensures world returned thrown (consult q outcome) state ↔
    ∀ answer state', world q state answer state' →
      (∀ value, outcome answer = .ok value → returned value state') ∧
        ∀ failure, outcome answer = .error failure → thrown failure state' :=
  forall_congr' fun _ => forall_congr' fun _ => imp_congr_right fun _ => ensures_lift

theorem ensures_bind {next : α → Asking A ε β} {returned : β → σ → Prop} :
    Ensures world returned thrown (computation >>= next) state ↔
      Ensures world (fun value state => Ensures world returned thrown (next value) state) thrown computation state := by
  induction computation generalizing state with
  | returned value => rfl
  | thrown failure => rfl
  | ask q rest ih => exact forall_congr' fun answer => forall_congr' fun _ => imp_congr_right fun _ => ih answer

theorem ensures_handle {handler : ε → Asking A ε α} : Ensures world returned thrown (tryCatch computation handler) state ↔
    Ensures world returned (fun failure state => Ensures world returned thrown (handler failure) state) computation state := by
  induction computation generalizing state with
  | returned value => rfl
  | thrown failure => rfl
  | ask q rest ih => exact forall_congr' fun answer => forall_congr' fun _ => imp_congr_right fun _ => ih answer

end Ensuring

/-! ## What a computation maintains -/

/-- Whichever way it ends, what held of the state holds of it still. -/
def Maintains (world : World A σ) (invariant : σ → Prop) (computation : Asking A ε α) : Prop :=
  ∀ state, invariant state → Ensures world (fun _ => invariant) (fun _ => invariant) computation state

section Maintaining
variable {world : World A σ} {invariant : σ → Prop} {computation : Asking A ε α}

theorem maintains_pure (value : α) : Maintains world invariant (pure value : Asking A ε α) := fun _ held => held

theorem maintains_throw (failure : ε) : Maintains world invariant (throw failure : Asking A ε α) := fun _ held => held

theorem maintains_consult {q : Q} {outcome : A q → Except ε α}
    (kept : ∀ state answer state', invariant state → world q state answer state' → invariant state') :
    Maintains world invariant (consult q outcome) :=
  fun state held => ensures_consult.mpr fun answer state' replied =>
    ⟨fun _ _ => kept state answer state' held replied, fun _ _ => kept state answer state' held replied⟩

theorem maintains_bind {next : α → Asking A ε β} (first : Maintains world invariant computation)
    (rest : ∀ value, Maintains world invariant (next value)) : Maintains world invariant (computation >>= next) :=
  fun state held => ensures_bind.mpr ((first state held).mono (fun value state' => rest value state') fun _ _ => id)

theorem maintains_handle {handler : ε → Asking A ε α} (first : Maintains world invariant computation)
    (handled : ∀ failure, Maintains world invariant (handler failure)) :
    Maintains world invariant (tryCatch computation handler) :=
  fun state held => ensures_handle.mpr ((first state held).mono (fun _ _ => id) fun failure state' => handled failure state')

end Maintaining

/-! ## Plays that come to their end -/

/-- The world has an answer to everything. -/
def Responsive (world : World A σ) : Prop := ∀ q state, ∃ answer state', world q state answer state'

/-- Where nothing stops it, a computation returns or throws. -/
theorem exists_plays {world : World A σ} (responsive : Responsive world) (computation : Asking A ε α) (state : σ) :
    (∃ value state', Plays world computation state (.returned value) state') ∨
      ∃ failure state', Plays world computation state (.thrown failure) state' := by
  induction computation generalizing state with
  | returned value => exact .inl ⟨value, state, .returned value state⟩
  | thrown failure => exact .inr ⟨failure, state, .thrown failure state⟩
  | ask q next ih =>
    obtain ⟨answer, state', replied⟩ := responsive q state
    rcases ih answer state' with ⟨value, state'', plays⟩ | ⟨failure, state'', plays⟩
    · exact .inl ⟨value, state'', .asked replied plays⟩
    · exact .inr ⟨failure, state'', .asked replied plays⟩

/-- A computation that cannot throw returns as it must. -/
theorem Ensures.returns {world : World A σ} (responsive : Responsive world) {computation : Asking A ε α} {state : σ}
    {returned : α → σ → Prop} (ensures : Ensures world returned (fun _ _ => False) computation state) :
    ∃ value state', Plays world computation state (.returned value) state' ∧ returned value state' := by
  rcases exists_plays responsive computation state with ⟨value, state', plays⟩ | ⟨failure, state', plays⟩
  · exact ⟨value, state', plays, ensures.of_returned plays⟩
  · exact (ensures.of_thrown plays).elim

/-- What every answer keeps between two states is kept between the first and the last. -/
theorem Plays.related {world : World A σ} {relation : σ → σ → Prop} (refl : ∀ state, relation state state)
    (trans : ∀ {first second third}, relation first second → relation second third → relation first third)
    (kept : ∀ q state answer state', world q state answer state' → relation state state')
    {computation : Asking A ε α} {outcome : Outcome ε α} {state state' : σ} (plays : Plays world computation state outcome state') :
    relation state state' := by
  induction plays with
  | returned value state => exact refl state
  | thrown failure state => exact refl state
  | stopped computation state => exact refl state
  | asked replied plays ih => exact trans (kept _ _ _ _ replied) ih

/-- Where a computation was stopped, it might have gone on to one of its ends. -/
theorem Ensures.of_stopped {world : World A σ} {relation : σ → σ → Prop} (responsive : Responsive world)
    (refl : ∀ state, relation state state)
    (trans : ∀ {first second third}, relation first second → relation second third → relation first third)
    (kept : ∀ q state answer state', world q state answer state' → relation state state')
    {returned : α → σ → Prop} {thrown : ε → σ → Prop} {computation : Asking A ε α} {state state' : σ}
    (ensures : Ensures world returned thrown computation state) (plays : Plays world computation state .stopped state') :
    ∃ final, relation state' final ∧ ((∃ value, returned value final) ∨ ∃ failure, thrown failure final) := by
  generalize ended : Outcome.stopped = outcome at plays
  induction plays with
  | returned value state => cases ended
  | thrown failure state => cases ended
  | stopped computation state =>
    rcases exists_plays responsive computation state with ⟨value, final, plays⟩ | ⟨failure, final, plays⟩
    · exact ⟨final, plays.related refl trans kept, .inl ⟨value, ensures.of_returned plays⟩⟩
    · exact ⟨final, plays.related refl trans kept, .inr ⟨failure, ensures.of_thrown plays⟩⟩
  | asked replied plays ih => exact ih (ensures _ _ replied) ended

/-! ## A world that stands still -/

/-- Every question has its one answer in a state, and none changes the state. -/
def still (answer : σ → ∀ q, A q) : World A σ := fun q state given state' => state' = state ∧ given = answer state q

section Still
variable {answer : σ → ∀ q, A q} {computation : Asking A ε α} {state state' : σ}

theorem still_returned {value : α} : Plays (still answer) computation state (.returned value) state' ↔
    state' = state ∧ computation.run (answer state) = .ok value := by
  constructor
  · intro plays
    generalize ended : Outcome.returned value = outcome at plays
    induction plays with
    | returned other state => cases ended; exact ⟨rfl, rfl⟩
    | thrown failure state => cases ended
    | stopped computation state => cases ended
    | asked replied plays ih =>
      obtain ⟨rfl, rfl⟩ := replied
      exact ih ended
  · rintro ⟨rfl, ran⟩
    induction computation with
    | returned other => cases ran; exact .returned value state'
    | thrown failure => cases ran
    | ask q next ih => exact .asked ⟨rfl, rfl⟩ (ih _ ran)

theorem still_thrown {failure : ε} : Plays (still answer) computation state (.thrown failure) state' ↔
    state' = state ∧ computation.run (answer state) = .error failure := by
  constructor
  · intro plays
    generalize ended : Outcome.thrown failure = outcome at plays
    induction plays with
    | returned value state => cases ended
    | thrown other state => cases ended; exact ⟨rfl, rfl⟩
    | stopped computation state => cases ended
    | asked replied plays ih =>
      obtain ⟨rfl, rfl⟩ := replied
      exact ih ended
  · rintro ⟨rfl, ran⟩
    induction computation with
    | returned value => cases ran
    | thrown other => cases ran; exact .thrown failure state'
    | ask q next ih => exact .asked ⟨rfl, rfl⟩ (ih _ ran)

end Still

/-! ## Runs, step by step -/

section Runs
variable (world : ∀ q, A q)

@[simp] theorem run_pure (value : α) : (pure value : Asking A ε α).run world = .ok value := rfl

@[simp] theorem run_lift (outcome : Except ε α) : (lift outcome : Asking A ε α).run world = outcome := by
  cases outcome <;> rfl

theorem run_bind (computation : Asking A ε α) (next : α → Asking A ε β) :
    (computation >>= next).run world = computation.run world >>= fun value => (next value).run world := by
  induction computation with
  | returned value => rfl
  | thrown failure => rfl
  | ask q rest ih => exact ih (world q)

end Runs

end Asking

end Foundation
