import Mathlib.Data.List.Range
import Mathlib.Tactic.Common

/-! A log whose entries are numbered one after the other and whose oldest entries may be gone, and what holds at every point
of a history. -/

set_option autoImplicit false

namespace Foundation

namespace NumberedLog

variable {α : Type} {number : α → Nat} {entries later : List α} {next : Nat}

/-- The entries are the last ones of those numbered from one on. -/
def Numbered (number : α → Nat) (entries : List α) (next : Nat) : Prop :=
  ∃ first, 1 ≤ first ∧ entries.map number = List.range' first entries.length ∧ first + entries.length = next

theorem numbered_nil : Numbered number [] 1 := ⟨1, Nat.le_refl 1, rfl, rfl⟩

theorem Numbered.snoc (numbered : Numbered number entries next) {entry : α} (same : number entry = next) :
    Numbered number (entries ++ [entry]) (next + 1) := by
  obtain ⟨first, positive, numbers, total⟩ := numbered
  refine ⟨first, positive, ?_, by rw [List.length_append, ← total]; rfl⟩
  rw [List.map_append, numbers, List.length_append, List.length_singleton, List.range'_concat, List.map_singleton, same, ← total,
    Nat.one_mul]

/-- Older entries can go. -/
theorem Numbered.suffix (numbered : Numbered number entries next) (suffix : later <:+ entries) : Numbered number later next := by
  obtain ⟨gone, rfl⟩ := suffix
  obtain ⟨first, positive, numbers, total⟩ := numbered
  refine ⟨first + gone.length, Nat.le_add_right_of_le positive, ?_, by rw [← total, List.length_append, Nat.add_assoc]⟩
  rw [List.map_append, List.length_append, ← List.range'_append] at numbers
  have parts := List.append_inj numbers (by simp)
  simpa using parts.2

/-- The numbers that are there. -/
theorem Numbered.exists_iff (numbered : Numbered number entries next) (n : Nat) :
    (∃ entry ∈ entries, number entry = n) ↔ next - entries.length ≤ n ∧ n < next := by
  obtain ⟨first, positive, numbers, total⟩ := numbered
  rw [← List.mem_map, numbers, List.mem_range'_1]
  omega

theorem Numbered.sorted (numbered : Numbered number entries next) : (entries.map number).Pairwise (· < ·) := by
  obtain ⟨first, -, numbers, -⟩ := numbered
  rw [numbers]
  exact List.pairwise_lt_range'

theorem Numbered.positive (numbered : Numbered number entries next) : entries.length < next := by
  obtain ⟨first, positive, -, total⟩ := numbered
  omega

/-- The oldest entry. -/
theorem Numbered.head (numbered : Numbered number entries next) {entry : α} (head : entries.head? = some entry) :
    number entry = next - entries.length := by
  obtain ⟨first, positive, numbers, total⟩ := numbered
  cases entries with
  | nil => cases head
  | cons oldest entries =>
    obtain rfl := Option.some.inj head
    rw [List.map_cons, List.length_cons, List.range'_succ] at numbers
    rw [(List.cons.inj numbers).1, ← total]
    omega

/-- The newest entry. -/
theorem Numbered.last (numbered : Numbered number entries next) {entry : α} (last : entries.getLast? = some entry) :
    number entry + 1 = next := by
  obtain ⟨first, -, numbers, total⟩ := numbered
  obtain ⟨front, rfl⟩ := List.getLast?_eq_some_iff.mp last
  rw [List.map_append, List.length_append, List.length_singleton, List.range'_concat] at numbers
  have newest := (List.append_inj' numbers rfl).2
  rw [List.map_singleton, List.singleton_inj] at newest
  rw [newest, ← total, List.length_append, List.length_singleton]
  omega

end NumberedLog

/-! ## Histories -/

/-- At each point of the history it holds of what came before and what comes. -/
def EachPoint {α : Type} (holds : List α → α → Prop) (history : List α) : Prop :=
  ∀ earlier point later, history = earlier ++ point :: later → holds earlier point

variable {α : Type} {holds : List α → α → Prop}

theorem eachPoint_nil : EachPoint holds [] := by
  intro earlier point later same
  simp at same

theorem EachPoint.snoc {history : List α} {point : α} (each : EachPoint holds history) (last : holds history point) :
    EachPoint holds (history ++ [point]) := by
  intro earlier point' later same
  rcases List.eq_nil_or_concat later with rfl | ⟨front, final, rfl⟩
  · obtain ⟨rfl, here⟩ := List.append_inj' same rfl
    cases here
    exact last
  · rw [List.concat_eq_append, ← List.cons_append, ← List.append_assoc] at same
    exact each earlier point' front (List.append_inj' same rfl).1

end Foundation
