import Mathlib.Data.List.Infix
import Mathlib.Tactic.Common

/-! Runs of a state machine whose steps meet a condition on the state they start from. -/

set_option autoImplicit false

namespace Foundation

variable {State Action : Type} (step : State → Action → State) (allowed : State → Action → Prop)

/-- The state after the actions. -/
def run (state : State) (actions : List Action) : State := actions.foldl step state

/-- Every action of the run meets the condition where it is taken. -/
def Guarded : State → List Action → Prop
  | _, [] => True
  | state, action :: rest => allowed state action ∧ Guarded (step state action) rest

instance [∀ state action, Decidable (allowed state action)] :
    ∀ state actions, Decidable (Guarded step allowed state actions)
  | _, [] => isTrue trivial
  | state, action :: rest =>
    have : Decidable (Guarded step allowed (step state action) rest) :=
      instDecidableGuarded (step state action) rest
    inferInstanceAs (Decidable (allowed state action ∧ Guarded step allowed (step state action) rest))

variable {step allowed}

theorem run_concat (state : State) (actions : List Action) (action : Action) :
    run step state (actions ++ [action]) = step (run step state actions) action := by
  rw [run, List.foldl_append]
  rfl

theorem Guarded.append {state : State} {first second : List Action}
    (guarded : Guarded step allowed state (first ++ second)) :
    Guarded step allowed state first ∧ Guarded step allowed (run step state first) second := by
  induction first generalizing state with
  | nil => exact ⟨trivial, guarded⟩
  | cons action rest ih =>
    obtain ⟨now, later⟩ := guarded
    obtain ⟨before, after⟩ := ih later
    exact ⟨⟨now, before⟩, after⟩

theorem Guarded.concat {state : State} {actions : List Action} {action : Action} :
    Guarded step allowed state (actions ++ [action]) ↔
      Guarded step allowed state actions ∧ allowed (run step state actions) action := by
  induction actions generalizing state with
  | nil => exact ⟨fun guarded => ⟨trivial, guarded.1⟩, fun guarded => ⟨guarded.2, trivial⟩⟩
  | cons first rest ih =>
    change _ ∧ Guarded step allowed (step state first) (rest ++ [action]) ↔ _
    rw [ih, ← and_assoc]
    rfl

/-- What every step keeps holds after a run. -/
theorem run_keeps {Invariant : State → Prop} (preserved : ∀ state action, Invariant state → Invariant (step state action))
    {state : State} (start : Invariant state) (actions : List Action) : Invariant (run step state actions) := by
  induction actions generalizing state with
  | nil => exact start
  | cons action rest ih => exact ih (preserved state action start)

/-- What every allowed step keeps holds after a guarded run. -/
theorem run_invariant {Invariant : State → Prop}
    (preserved : ∀ state action, Invariant state → allowed state action → Invariant (step state action))
    {state : State} {actions : List Action} (start : Invariant state)
    (guarded : Guarded step allowed state actions) : Invariant (run step state actions) := by
  induction actions generalizing state with
  | nil => exact start
  | cons action rest ih =>
    obtain ⟨now, later⟩ := guarded
    exact ih (preserved state action start now) later

/-- In particular in every state that the run passes through. -/
theorem run_invariant_reached {Invariant : State → Prop}
    (preserved : ∀ state action, Invariant state → allowed state action → Invariant (step state action))
    {state : State} {actions reached : List Action} (start : Invariant state)
    (guarded : Guarded step allowed state actions) (earlier : reached <+: actions) :
    Invariant (run step state reached) := by
  obtain ⟨rest, spelled⟩ := earlier
  rw [← spelled] at guarded
  exact run_invariant preserved start guarded.append.1

/-- Where a condition is what keeps the invariant and what a good state shows after the step, the run is guarded exactly
when all the states that it reaches are good. -/
theorem reached_iff_guarded {Invariant Good : State → Prop} {state : State} (start : Invariant state)
    (good : ∀ state, Invariant state → Good state)
    (preserved : ∀ state action, Invariant state → allowed state action → Invariant (step state action))
    (shown : ∀ state action, Invariant state → Good (step state action) → allowed state action) (actions : List Action) :
    (∀ reached, reached <+: actions → Good (run step state reached)) ↔ Guarded step allowed state actions := by
  constructor
  · intro all
    induction actions using List.reverseRecOn with
    | nil => trivial
    | append_singleton actions action ih =>
      have guarded := ih fun reached earlier => all reached (earlier.trans (List.prefix_append _ _))
      have after := all (actions ++ [action]) List.prefix_rfl
      rw [run_concat] at after
      exact Guarded.concat.mpr ⟨guarded, shown _ _ (run_invariant preserved start guarded) after⟩
  · intro guarded reached earlier
    exact good _ (run_invariant_reached preserved start guarded earlier)

end Foundation
