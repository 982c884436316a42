import AiryFS.Foundation.Fallible

/-! Computations that ask questions, and what their outcome depends on.

A computation sees the world through the answers to its questions and through nothing else.
Two worlds that answer alike what a run asks give it the same outcome.
-/

set_option autoImplicit false

namespace Foundation

/-- A computation that may ask, return or fail. -/
inductive Asking {Q : Type} (A : Q → Type) (ε α : Type) where
  | returned (value : α)
  | thrown (failure : ε)
  | ask (question : Q) (next : A question → Asking A ε α)

namespace Asking

variable {Q : Type} {A : Q → Type} {ε α β : Type}

def bind : Asking A ε α → (α → Asking A ε β) → Asking A ε β
  | .returned value, next => next value
  | .thrown failure, _ => .thrown failure
  | .ask question rest, next => .ask question fun answer => (rest answer).bind next

def handle : Asking A ε α → (ε → Asking A ε α) → Asking A ε α
  | .returned value, _ => .returned value
  | .thrown failure, handler => handler failure
  | .ask question rest, handler => .ask question fun answer => (rest answer).handle handler

instance : Monad (Asking A ε) where
  pure := .returned
  bind := bind

instance : MonadExceptOf ε (Asking A ε) where
  throw := .thrown
  tryCatch := handle

/-- One question, whose answer is the result. -/
def question (q : Q) : Asking A ε (A q) := .ask q .returned

/-- A computation that asks nothing. -/
def lift : Except ε α → Asking A ε α
  | .ok value => .returned value
  | .error failure => .thrown failure

/-- One question, whose answer may be a failure. -/
def consult (q : Q) (outcome : A q → Except ε α) : Asking A ε α := .ask q fun answer => lift (outcome answer)

/-! ## Runs -/

section Runs
variable (world other : ∀ q, A q)

def run : Asking A ε α → Except ε α
  | .returned value => .ok value
  | .thrown failure => .error failure
  | .ask q next => (next (world q)).run

/-- The questions of a run, in their order. -/
def asked : Asking A ε α → List Q
  | .returned _ => []
  | .thrown _ => []
  | .ask q next => q :: (next (world q)).asked

/-- The outcome depends on nothing but the answers to what was asked. -/
theorem run_congr {computation : Asking A ε α} (alike : ∀ q ∈ computation.asked world, world q = other q) :
    computation.run world = computation.run other := by
  induction computation with
  | returned value => rfl
  | thrown failure => rfl
  | ask q next ih =>
    have first : world q = other q := alike q List.mem_cons_self
    have rest := ih (world q) fun later member => alike later (List.mem_cons_of_mem _ member)
    rw [run, run, rest, first]

end Runs

/-! ## What holds of every question and of either outcome -/

section Posts
variable {world : ∀ q, A q} {allowed : Q → Prop}

/-- Every question is allowed, and what is asked of the way the run ends holds. -/
def Post (world : ∀ q, A q) (allowed : Q → Prop) (returned : α → Prop) (thrown : ε → Prop) : Asking A ε α → Prop
  | .returned value => returned value
  | .thrown failure => thrown failure
  | .ask q next => allowed q ∧ Post world allowed returned thrown (next (world q))

variable {computation : Asking A ε α} {returned returned' : α → Prop} {thrown thrown' : ε → Prop}

theorem Post.mono (post : Post world allowed returned thrown computation) (returns : ∀ value, returned value → returned' value)
    (throws : ∀ failure, thrown failure → thrown' failure) : Post world allowed returned' thrown' computation := by
  induction computation with
  | returned value => exact returns value post
  | thrown failure => exact throws failure post
  | ask q next ih => exact ⟨post.1, ih (world q) post.2⟩

/-- The questions of a run that is so are the allowed ones. -/
theorem Post.asked (post : Post world allowed returned thrown computation) : ∀ q ∈ computation.asked world, allowed q := by
  induction computation with
  | returned value => exact fun _ member => (by cases member)
  | thrown failure => exact fun _ member => (by cases member)
  | ask q next ih =>
    intro other member
    rcases List.mem_cons.mp member with rfl | later
    · exact post.1
    · exact ih (world q) post.2 other later

/-- Where both ways of ending are fine, the questions are all there is to a run. -/
theorem post_iff_asked : Post world allowed (fun _ => True) (fun _ => True) computation ↔
    ∀ q ∈ computation.asked world, allowed q := by
  constructor
  · exact Post.asked
  · intro all
    induction computation with
    | returned value => trivial
    | thrown failure => trivial
    | ask q next ih =>
      exact ⟨all q List.mem_cons_self, ih (world q) fun later member => all later (List.mem_cons_of_mem _ member)⟩

/-- What is asked of a return holds of the value returned. -/
theorem Post.of_ok (post : Post world allowed returned thrown computation) {value : α} (ran : computation.run world = .ok value) :
    returned value := by
  induction computation with
  | returned other => cases ran; exact post
  | thrown failure => cases ran
  | ask q next ih => exact ih (world q) post.2 ran

theorem post_question {q : Q} {returned : A q → Prop} :
    Post world allowed returned thrown (question q) ↔ allowed q ∧ returned (world q) := Iff.rfl

@[simp] theorem post_lift {outcome : Except ε α} : Post world allowed returned thrown (lift outcome : Asking A ε α) ↔
    (∀ value, outcome = .ok value → returned value) ∧ ∀ failure, outcome = .error failure → thrown failure := by
  cases outcome <;> simp [lift, Post]

theorem post_consult {q : Q} {outcome : A q → Except ε α} : Post world allowed returned thrown (consult q outcome) ↔
    allowed q ∧ (∀ value, outcome (world q) = .ok value → returned value) ∧
      ∀ failure, outcome (world q) = .error failure → thrown failure := and_congr_right fun _ => post_lift

theorem post_bind {next : α → Asking A ε β} {returned : β → Prop} :
    Post world allowed returned thrown (computation >>= next) ↔
      Post world allowed (fun value => Post world allowed returned thrown (next value)) thrown computation := by
  induction computation with
  | returned value => rfl
  | thrown failure => rfl
  | ask q rest ih => exact and_congr_right fun _ => ih (world q)

/-- The rest of a computation, where its beginning is known to return. -/
theorem Post.rest {next : α → Asking A ε β} {returned : β → Prop} (post : Post world allowed returned thrown (computation >>= next))
    {value : α} (ran : computation.run world = .ok value) : Post world allowed returned thrown (next value) :=
  (post_bind.mp post).of_ok ran

theorem post_handle {handler : ε → Asking A ε α} :
    Post world allowed returned thrown (tryCatch computation handler) ↔
      Post world allowed returned (fun failure => Post world allowed returned thrown (handler failure)) computation := by
  induction computation with
  | returned value => rfl
  | thrown failure => rfl
  | ask q rest ih => exact and_congr_right fun _ => ih (world q)

end Posts

end Asking

end Foundation
