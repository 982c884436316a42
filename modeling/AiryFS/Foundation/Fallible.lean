import Mathlib.Logic.Basic

/-! Straight-line computations that may stop with a failure.

Each check of a computation is a `refuse` or a `required`, so a successful result can be
taken apart, step by step, into the conditions it passed.
-/

set_option autoImplicit false

namespace Foundation

variable {ε α β : Type}

/-- Stop with the failure when the condition holds. -/
@[grind =]
def refuse (condition : Prop) [Decidable condition] (failure : ε) : Except ε Unit :=
  if condition then .error failure else .ok ()

/-- The value, or the failure when there is none. -/
@[grind =]
def required (value : Option α) (failure : ε) : Except ε α :=
  match value with
  | some found => .ok found
  | none => .error failure

theorem bind_eq_ok {first : Except ε α} {next : α → Except ε β} {result : β} :
    (first >>= next) = .ok result ↔ ∃ value, first = .ok value ∧ next value = .ok result := by
  cases first <;> simp [bind, Except.bind]

theorem ok_bind (value : α) (next : α → Except ε β) : ((Except.ok value : Except ε α) >>= next) = next value := rfl

theorem pure_eq_ok {a b : α} : (pure a : Except ε α) = .ok b ↔ a = b := by
  simp [pure, Except.pure]

theorem refuse_eq_ok {condition : Prop} [Decidable condition] {failure : ε} {u : Unit} :
    refuse condition failure = .ok u ↔ ¬condition := by
  unfold refuse
  split <;> simp_all

theorem required_eq_ok {value : Option α} {failure : ε} {a : α} :
    required value failure = .ok a ↔ value = some a := by
  cases value <;> simp [required]

theorem refuse_of_not {condition : Prop} [Decidable condition] (passed : ¬condition) (failure : ε) :
    refuse condition failure = .ok () := if_neg passed

/-- The state after a transaction: the new one, or the old one when it failed. -/
def settle (state : α) (outcome : Except ε α) : α :=
  match outcome with
  | .ok next => next
  | .error _ => state

/-- What holds before a transaction and after each successful one holds either way. -/
theorem settle_induction {motive : α → Prop} {state : α} {outcome : Except ε α} (before : motive state)
    (after : ∀ next, outcome = .ok next → motive next) : motive (settle state outcome) := by
  cases outcome with
  | ok next => exact after next rfl
  | error failure => exact before

/-- What every round of a loop keeps holds where the loop ends. -/
theorem foldlM_induction {σ : Type} {motive : σ → Prop} {next : σ → α → Except ε σ}
    (keeps : ∀ state value state', motive state → next state value = .ok state' → motive state') {values : List α}
    {state state' : σ} (start : motive state) (done : values.foldlM next state = .ok state') : motive state' := by
  induction values generalizing state with
  | nil =>
    rw [← pure_eq_ok.mp done]
    exact start
  | cons value values ih =>
    rw [List.foldlM_cons] at done
    obtain ⟨middle, first, rest⟩ := bind_eq_ok.mp done
    exact ih (keeps state value middle start first) rest

/-! ## Steps over a list -/

section Mapping
variable {step : α → Except ε β} {listed : List α} {results : List β}

/-- Every value of the list has its result. -/
theorem mapM_ok_mem (mapped : listed.mapM step = .ok results) {value : α} (member : value ∈ listed) :
    ∃ result, step value = .ok result ∧ result ∈ results := by
  induction listed generalizing results with
  | nil => cases member
  | cons first rest ih =>
    rw [List.mapM_cons] at mapped
    obtain ⟨result, ran, mapped⟩ := bind_eq_ok.mp mapped
    obtain ⟨others, later, mapped⟩ := bind_eq_ok.mp mapped
    rw [← pure_eq_ok.mp mapped]
    rcases List.mem_cons.mp member with rfl | deeper
    · exact ⟨result, ran, List.mem_cons_self⟩
    · obtain ⟨own, ran, listed⟩ := ih later deeper
      exact ⟨own, ran, List.mem_cons_of_mem _ listed⟩

/-- Every result comes from a value of the list. -/
theorem mem_of_mapM (mapped : listed.mapM step = .ok results) {result : β} (member : result ∈ results) :
    ∃ value ∈ listed, step value = .ok result := by
  induction listed generalizing results with
  | nil =>
    rw [← pure_eq_ok.mp mapped] at member
    cases member
  | cons first rest ih =>
    rw [List.mapM_cons] at mapped
    obtain ⟨own, ran, mapped⟩ := bind_eq_ok.mp mapped
    obtain ⟨others, later, mapped⟩ := bind_eq_ok.mp mapped
    rw [← pure_eq_ok.mp mapped] at member
    rcases List.mem_cons.mp member with rfl | deeper
    · exact ⟨first, List.mem_cons_self, ran⟩
    · obtain ⟨value, listed, ran⟩ := ih later deeper
      exact ⟨value, List.mem_cons_of_mem _ listed, ran⟩

end Mapping

end Foundation
