import Mathlib.Tactic.Common

/-! Listing what lies below a node in preorder, down to a depth and up to a number of entries.

The bounded visit shares one accumulator between all depths. It lists what comes first in preorder,
and it marks the list as cut exactly where something comes behind it.
-/

set_option autoImplicit false

namespace Foundation

namespace Preorder

variable {α : Type}

/-- Everything at most so many levels below a node, each before what is below it. -/
@[grind =]
def below (children : α → List α) : Nat → α → List α
  | 0, _ => []
  | depth + 1, x => (children x).flatMap fun y => y :: below children depth y

/-- What has been listed, and whether something was left out. -/
abbrev Listed (α : Type) := List α × Bool

/-- List the items in order while there is room. -/
@[grind =]
def fill (limit : Nat) : List α → Listed α → Listed α
  | [], listed => listed
  | x :: rest, listed => if limit ≤ listed.1.length then (listed.1, true) else fill limit rest (listed.1 ++ [x], listed.2)

/-- The same, going into each item before the next one. -/
@[grind =]
def each (limit : Nat) (enter : α → Listed α → Listed α) : List α → Listed α → Listed α
  | [], listed => listed
  | x :: rest, listed =>
    if limit ≤ listed.1.length then (listed.1, true) else each limit enter rest (enter x (listed.1 ++ [x], listed.2))

@[grind =]
def visit (children : α → List α) (limit : Nat) : Nat → α → Listed α → Listed α
  | 0, _, listed => listed
  | depth + 1, x, listed => if listed.2 then listed else each limit (visit children limit depth) (children x) listed

/-- Something was left out only if there is no room. -/
def Sound (limit : Nat) (listed : Listed α) : Prop := listed.2 = true → limit ≤ listed.1.length

variable {children : α → List α} {limit : Nat} {listed : Listed α}

theorem Sound.extend {x : α} (sound : Sound limit listed) (room : ¬limit ≤ listed.1.length) :
    Sound limit (listed.1 ++ [x], listed.2) := fun marked => absurd (sound marked) room

theorem fill_cut (sound : Sound limit listed) (marked : listed.2 = true) (items : List α) : fill limit items listed = listed := by
  cases items with
  | nil => rfl
  | cons x rest =>
    rw [fill, if_pos (sound marked)]
    exact Prod.ext rfl marked.symm

theorem fill_sound (sound : Sound limit listed) (items : List α) : Sound limit (fill limit items listed) := by
  induction items generalizing listed with
  | nil => exact sound
  | cons x rest ih =>
    rw [fill]
    split
    · rename_i full
      exact fun _ => full
    · rename_i room
      exact ih (sound.extend room)

theorem fill_append (sound : Sound limit listed) (items later : List α) :
    fill limit (items ++ later) listed = fill limit later (fill limit items listed) := by
  induction items generalizing listed with
  | nil => rfl
  | cons x rest ih =>
    rw [List.cons_append, fill, fill]
    split
    · rename_i full
      exact (@fill_cut _ limit (listed.1, true) (fun _ => full) rfl later).symm
    · rename_i room
      exact ih (sound.extend room)

theorem each_eq {enter : α → Listed α → Listed α} {inner : α → List α}
    (enters : ∀ x listed, Sound limit listed → enter x listed = fill limit (inner x) listed) (sound : Sound limit listed)
    (items : List α) : each limit enter items listed = fill limit (items.flatMap fun x => x :: inner x) listed := by
  induction items generalizing listed with
  | nil => rfl
  | cons x rest ih =>
    rw [List.flatMap_cons, List.cons_append, each, fill]
    split
    · rfl
    · rename_i room
      have next : Sound limit (listed.1 ++ [x], listed.2) := sound.extend room
      rw [fill_append next, enters x _ next]
      exact ih (fill_sound next _)

/-- However deep the visit is, it takes up the preorder where the list stands. -/
theorem visit_eq (sound : Sound limit listed) (depth : Nat) (x : α) :
    visit children limit depth x listed = fill limit (below children depth x) listed := by
  induction depth generalizing x listed with
  | zero => rfl
  | succ depth ih =>
    rw [visit, below]
    split
    · rename_i marked
      exact (fill_cut sound marked _).symm
    · exact each_eq (fun y _ sound => ih sound y) sound _

/-- The list is what there is room for, and is cut where there is more. -/
theorem fill_eq {found : List α} (room : found.length ≤ limit) (items : List α) :
    fill limit items (found, false) = ((found ++ items).take limit, decide (limit < (found ++ items).length)) := by
  induction items generalizing found with
  | nil =>
    rw [fill, List.append_nil, List.take_of_length_le room, decide_eq_false (Nat.not_lt.mpr room)]
  | cons x rest ih =>
    rw [fill]
    split
    · rename_i full
      have same : found.length = limit := Nat.le_antisymm room full
      have more : limit < (found ++ x :: rest).length := by
        rw [List.length_append, List.length_cons]
        omega
      rw [List.take_left' same, decide_eq_true more]
    · rename_i free
      have shorter : (found ++ [x]).length ≤ limit := by
        rw [List.length_append, List.length_singleton]
        exact Nat.lt_of_not_le free
      have later := ih shorter
      rwa [List.append_assoc, List.singleton_append] at later

theorem visit_start (children : α → List α) (limit depth : Nat) (x : α) :
    visit children limit depth x ([], false) =
      ((below children depth x).take limit, decide (limit < (below children depth x).length)) := by
  rw [visit_eq fun marked => absurd marked Bool.false_ne_true, fill_eq (Nat.zero_le limit), List.nil_append]

end Preorder

end Foundation
