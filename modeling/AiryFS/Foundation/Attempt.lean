import AiryFS.Foundation.Fallible

/-! Computations that keep what they have done when they fail.

Unlike a transaction, a failed attempt leaves the state where it stopped. What is true of
a computation whichever way it ends is read off its steps.
-/

set_option autoImplicit false

namespace Foundation

variable {ε σ α β : Type}

abbrev Attempt (ε σ α : Type) : Type := EStateM ε σ α

namespace Attempt

/-- A computation that does not touch the state. -/
def lift (outcome : Except ε α) : Attempt ε σ α := fun state =>
  match outcome with
  | .ok value => .ok value state
  | .error failure => .error failure state

/-- A computation that leaves no trace when it fails. -/
def atomic (computation : Attempt ε σ α) : Attempt ε σ α := fun state =>
  match computation state with
  | .ok value state' => .ok value state'
  | .error failure _ => .error failure state

/-- A computation whose failure is a result like any other. -/
def caught (computation : Attempt ε σ α) : Attempt ε σ (Except ε α) := fun state =>
  match computation state with
  | .ok value state' => .ok (.ok value) state'
  | .error failure state' => .ok (.error failure) state'

/-- A computation on a part of the state. -/
def within {τ : Type} (get : τ → σ) (set : σ → τ → τ) (computation : Attempt ε σ α) : Attempt ε τ α := fun whole =>
  match computation (get whole) with
  | .ok value part => .ok value (set part whole)
  | .error failure part => .error failure (set part whole)

/-- A step that happens as a whole or not at all. -/
def commit (next : σ → Except ε σ) : Attempt ε σ Unit := fun state =>
  match next state with
  | .ok state' => .ok () state'
  | .error failure => .error failure state

/-- The state in which the computation ends, either way. -/
def left (computation : Attempt ε σ α) (state : σ) : σ :=
  match computation state with
  | .ok _ state' => state'
  | .error _ state' => state'

/-- Whichever way the computation ends, what is asked of that way holds. -/
def Post (computation : Attempt ε σ α) (state : σ) (returned : α → σ → Prop) (thrown : ε → σ → Prop) : Prop :=
  match computation state with
  | .ok value state' => returned value state'
  | .error failure state' => thrown failure state'

variable {computation : Attempt ε σ α} {state state' : σ} {returned returned' : α → σ → Prop} {thrown thrown' : ε → σ → Prop}

theorem Post.mono (post : Post computation state returned thrown)
    (returns : ∀ value state', returned value state' → returned' value state')
    (throws : ∀ failure state', thrown failure state' → thrown' failure state') :
    Post computation state returned' thrown' := by
  unfold Post at post ⊢
  split at post
  · exact returns _ _ post
  · exact throws _ _ post

theorem Post.and (post : Post computation state returned thrown) (post' : Post computation state returned' thrown') :
    Post computation state (fun value state => returned value state ∧ returned' value state)
      (fun failure state => thrown failure state ∧ thrown' failure state) := by
  unfold Post at post post' ⊢
  cases ran : computation state <;> rw [ran] at post post' <;> exact ⟨post, post'⟩

/-- What is asked of a return holds of every return. -/
theorem Post.of_ok (post : Post computation state returned thrown) {value : α}
    (ran : computation state = .ok value state') : returned value state' := by
  unfold Post at post
  rw [ran] at post
  exact post

theorem Post.of_error (post : Post computation state returned thrown) {failure : ε}
    (ran : computation state = .error failure state') : thrown failure state' := by
  unfold Post at post
  rw [ran] at post
  exact post

/-- Whether the computation returns so. -/
def Returns (computation : Attempt ε σ α) (state : σ) (check : α → σ → Bool) : Bool :=
  match computation state with
  | .ok value state' => check value state'
  | .error _ _ => false

theorem ok_of_returns {check : α → σ → Bool} (returns : Returns computation state check = true) :
    ∃ value state', computation state = .ok value state' ∧ check value state' = true := by
  unfold Returns at returns
  cases ran : computation state with
  | ok value state' =>
    rw [ran] at returns
    exact ⟨value, state', rfl, returns⟩
  | error failure state' =>
    rw [ran] at returns
    cases returns

theorem Post.of_returns (post : Post computation state returned thrown) {check : α → σ → Bool}
    (returns : Returns computation state check = true) : ∃ value state', check value state' = true ∧ returned value state' := by
  obtain ⟨value, state', ran, checked⟩ := ok_of_returns returns
  exact ⟨value, state', checked, post.of_ok ran⟩

/-- What both ways have in common holds where the computation ends. -/
theorem Post.left {holds : σ → Prop} (post : Post computation state (fun _ => holds) fun _ => holds) :
    holds (computation.left state) := by
  unfold Post at post
  unfold Attempt.left
  cases ran : computation state with
  | ok value state' => rwa [ran] at post
  | error failure state' => rwa [ran] at post

theorem left_of_error {failure : ε} (ran : computation state = .error failure state') : computation.left state = state' := by
  unfold left
  rw [ran]

theorem bind_of_ok {value : α} (ran : computation state = .ok value state') (next : α → Attempt ε σ β) :
    (computation >>= next) state = next value state' := by
  simp only [bind, EStateM.bind, ran]

theorem bind_of_error {failure : ε} (ran : computation state = .error failure state') (next : α → Attempt ε σ β) :
    (computation >>= next) state = .error failure state' := by
  simp only [bind, EStateM.bind, ran]

theorem caught_total (computation : Attempt ε σ α) (state : σ) :
    ∃ outcome state', caught computation state = .ok outcome state' := by
  unfold caught
  cases computation state with
  | ok value state' => exact ⟨.ok value, state', rfl⟩
  | error failure state' => exact ⟨.error failure, state', rfl⟩

@[simp] theorem post_pure {value : α} : Post (pure value) state returned thrown ↔ returned value state := Iff.rfl

theorem post_bind {next : α → Attempt ε σ β} {returned : β → σ → Prop} : Post (computation >>= next) state returned thrown ↔
    Post computation state (fun value state => Post (next value) state returned thrown) thrown := by
  unfold Post
  simp only [bind, EStateM.bind]
  cases computation state <;> rfl

@[simp] theorem post_lift {outcome : Except ε α} : Post (lift outcome) state returned thrown ↔
    (∀ value, outcome = .ok value → returned value state) ∧ (∀ failure, outcome = .error failure → thrown failure state) := by
  cases outcome <;> simp [Post, lift]

@[simp] theorem post_commit {next : σ → Except ε σ} {returned : Unit → σ → Prop} :
    Post (commit next) state returned thrown ↔
      (∀ state', next state = .ok state' → returned () state') ∧ ∀ failure, next state = .error failure → thrown failure state := by
  unfold Post commit
  cases next state <;> simp

/-- A loop over a list, one round after the other. -/
theorem post_forM_cons {value : α} {values : List α} {round : α → Attempt ε σ Unit} {returned : Unit → σ → Prop} :
    Post ((value :: values).forM round) state returned thrown ↔
      Post (round value) state (fun _ state => Post (values.forM round) state returned thrown) thrown := post_bind

theorem post_lift_bind {outcome : Except ε α} {value : α} {next : α → Attempt ε σ β} {returned : β → σ → Prop}
    (known : outcome = .ok value) :
    Post (lift outcome >>= next) state returned thrown ↔ Post (next value) state returned thrown := by
  rw [post_bind, post_lift, known]
  simp

theorem post_catch {handler : ε → Attempt ε σ α} : Post (tryCatch computation handler) state returned thrown ↔
    Post computation state returned fun failure state => Post (handler failure) state returned thrown := by
  unfold Post
  simp only [tryCatch, tryCatchThe, MonadExceptOf.tryCatch]
  delta EStateM.tryCatch
  cases computation state <;> rfl

theorem post_atomic : Post (atomic computation) state returned thrown ↔
    Post computation state returned fun failure _ => thrown failure state := by
  unfold Post atomic
  cases computation state <;> rfl

theorem post_caught {returned : Except ε α → σ → Prop} : Post (caught computation) state returned thrown ↔
    Post computation state (fun value state => returned (.ok value) state) fun failure state => returned (.error failure) state := by
  unfold Post caught
  cases computation state <;> rfl

theorem post_within {τ : Type} {get : τ → σ} {set : σ → τ → τ} {whole : τ} {returned : α → τ → Prop} {thrown : ε → τ → Prop} :
    Post (within get set computation) whole returned thrown ↔
      Post computation (get whole) (fun value part => returned value (set part whole))
        fun failure part => thrown failure (set part whole) := by
  unfold Post within
  cases computation (get whole) <;> rfl

@[simp] theorem post_get {returned : σ → σ → Prop} {thrown : ε → σ → Prop} :
    Post (get : Attempt ε σ σ) state returned thrown ↔ returned state state := Iff.rfl

@[simp] theorem post_throw {failure : ε} :
    Post (throw failure : Attempt ε σ α) state returned thrown ↔ thrown failure state := Iff.rfl

/-! ## What a computation keeps -/

/-- Whichever way it ends, what held of the state holds of it still. -/
def Keeps (invariant : σ → Prop) (computation : Attempt ε σ α) : Prop :=
  ∀ state, invariant state → Post computation state (fun _ => invariant) fun _ => invariant

section Keeping
variable {invariant : σ → Prop}

theorem keeps_pure (value : α) : Keeps invariant (pure value : Attempt ε σ α) := fun _ held => held

theorem keeps_bind {next : α → Attempt ε σ β} (first : Keeps invariant computation) (rest : ∀ value, Keeps invariant (next value)) :
    Keeps invariant (computation >>= next) :=
  fun state held => post_bind.mpr ((first state held).mono (fun value state' => rest value state') fun _ _ => id)

theorem keeps_commit {next : σ → Except ε σ} (kept : ∀ state state', invariant state → next state = .ok state' → invariant state') :
    Keeps invariant (commit next) :=
  fun state held => post_commit.mpr ⟨fun state' done => kept state state' held done, fun _ _ => held⟩

theorem keeps_atomic (kept : Keeps invariant computation) : Keeps invariant (atomic computation) :=
  fun state held => post_atomic.mpr ((kept state held).mono (fun _ _ => id) fun _ _ _ => held)

theorem keeps_within {τ : Type} {get : τ → σ} {set : σ → τ → τ} {held : τ → Prop} (opened : ∀ whole, held whole → invariant (get whole))
    (closed : ∀ part whole, invariant part → held (set part whole)) (kept : Keeps invariant computation) :
    Keeps held (within get set computation) :=
  fun whole holds => post_within.mpr ((kept (get whole) (opened whole holds)).mono
    (fun _ part => closed part whole) fun _ part => closed part whole)

theorem keeps_forM {values : List α} {round : α → Attempt ε σ Unit} (each : ∀ value, Keeps invariant (round value)) :
    Keeps invariant (values.forM round) := by
  induction values with
  | nil => exact keeps_pure ()
  | cons value values ih => exact keeps_bind (each value) fun _ => ih

end Keeping

end Attempt

end Foundation
