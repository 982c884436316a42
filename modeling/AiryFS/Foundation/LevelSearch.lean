import Mathlib.Data.List.Chain
import Mathlib.Data.List.Induction
import Mathlib.Tactic.Common

/-! A search by levels for a goal that gives up at a depth.

The search asks for the targets of one vertex at a time, so the graph may grow between two of
its steps. Whatever it is told, it does not miss a goal that few enough edges lead to, of which
each was there all the time.
-/

set_option autoImplicit false

namespace Foundation

structure Search (α : Type) where
  depth : ℕ
  frontier : List α
  next : List α
  seen : List α

/-- Where a search stands: on its way, at its goal, or past everything it looks at. -/
inductive Progress (α : Type) where
  | searching (search : Search α)
  | found
  | finished

namespace Search

variable {α : Type}

/-- Begin a level, unless it is empty or too deep. -/
def enter (bound depth : ℕ) (frontier seen : List α) : Progress α :=
  if depth < bound ∧ frontier ≠ [] then .searching ⟨depth, frontier, [], seen⟩ else .finished

/-- Look at the next vertex, whose targets are given. -/
def advance [DecidableEq α] (bound : ℕ) (goal : α) (targets : α → List α) (search : Search α) : Progress α :=
  match search.frontier with
  | [] => enter bound (search.depth + 1) search.next search.seen
  | vertex :: rest =>
    if vertex = goal then .found
    else if vertex ∈ search.seen then .searching { search with frontier := rest }
    else .searching { search with frontier := rest, next := search.next ++ targets vertex, seen := vertex :: search.seen }

/-- Reached from the start over at most so many edges. -/
def Reached (edge : α → α → Prop) (start : α) : ℕ → α → Prop
  | 0, vertex => vertex = start
  | n + 1, vertex => Reached edge start n vertex ∨ ∃ before, Reached edge start n before ∧ edge before vertex

theorem Reached.mono {edge : α → α → Prop} {start vertex : α} {n m : ℕ} (reached : Reached edge start n vertex) (le : n ≤ m) :
    Reached edge start m vertex := by
  induction le with
  | refl => exact reached
  | step _ ih => exact .inl ih

/-- The vertices so far: those of the finished levels are seen, those of this level seen or to be looked at. -/
structure Covers (edge : α → α → Prop) (start goal : α) (bound : ℕ) (search : Search α) : Prop where
  shallow : search.depth < bound
  level : ∀ vertex, Reached edge start search.depth vertex → vertex ∈ search.seen ∨ vertex ∈ search.frontier
  followed : ∀ vertex ∈ search.seen, ∀ target, edge vertex target →
    target ∈ search.seen ∨ target ∈ search.frontier ∨ target ∈ search.next
  missed : goal ∉ search.seen

/-- What a search has established when it stands there. -/
def Established (edge : α → α → Prop) (start goal : α) (bound : ℕ) : Progress α → Prop
  | .searching search => Covers edge start goal bound search
  | .found => True
  | .finished => ¬Reached edge start (bound - 1) goal

variable {edge : α → α → Prop} {start goal : α} {bound : ℕ}

theorem enter_first (positive : 0 < bound) : Established edge start goal bound (enter bound 0 [start] []) := by
  unfold enter
  rw [if_pos ⟨positive, List.cons_ne_nil _ _⟩]
  refine ⟨positive, ?_, fun vertex member => (List.not_mem_nil member).elim, List.not_mem_nil⟩
  intro vertex reached
  exact .inr (List.mem_singleton.mpr reached)

/-- At the end of a level all of it is seen. -/
theorem Covers.enter {search : Search α} (covers : Covers edge start goal bound search) (done : search.frontier = []) :
    Established edge start goal bound (enter bound (search.depth + 1) search.next search.seen) := by
  have seen : ∀ vertex, Reached edge start search.depth vertex → vertex ∈ search.seen := by
    intro vertex reached
    have inside := covers.level vertex reached
    rw [done] at inside
    simpa using inside
  have followed : ∀ vertex ∈ search.seen, ∀ target, edge vertex target → target ∈ search.seen ∨ target ∈ search.next := by
    intro vertex member target leads
    have inside := covers.followed vertex member target leads
    rw [done] at inside
    simpa using inside
  unfold Search.enter
  split
  · rename_i deeper
    refine ⟨deeper.1, ?_, fun vertex member target leads => (followed vertex member target leads).imp_right .inl, covers.missed⟩
    intro vertex reached
    rcases reached with earlier | ⟨before, earlier, leads⟩
    · exact .inl (seen vertex earlier)
    · exact followed before (seen before earlier) vertex leads
  · rename_i ended
    intro reached
    by_cases deep : search.depth + 1 < bound
    · -- The level was empty, so nothing leads out of what is seen.
      have empty : search.next = [] := not_not.mp fun more => ended ⟨deep, more⟩
      have closed : ∀ n vertex, Reached edge start n vertex → vertex ∈ search.seen := by
        intro n
        induction n with
        | zero => exact fun vertex first => seen vertex (Reached.mono first (Nat.zero_le _))
        | succ n ih =>
          intro vertex step
          rcases step with earlier | ⟨before, earlier, leads⟩
          · exact ih vertex earlier
          · have inside := followed before (ih before earlier) vertex leads
            rw [empty] at inside
            simpa using inside
      exact covers.missed (closed _ _ reached)
    · have shallow := covers.shallow
      exact covers.missed (seen goal (reached.mono (by omega)))

theorem Covers.advance [DecidableEq α] {search : Search α} (covers : Covers edge start goal bound search) {targets : α → List α}
    (told : ∀ vertex target, edge vertex target → target ∈ targets vertex) :
    Established edge start goal bound (search.advance bound goal targets) := by
  unfold Search.advance
  split
  · rename_i done
    exact covers.enter done
  · rename_i vertex rest frontier
    split
    · trivial
    · rename_i other
      split
      · rename_i again
        refine ⟨covers.shallow, ?_, ?_, covers.missed⟩
        · intro reachable reached
          rcases covers.level reachable reached with old | waiting
          · exact .inl old
          · rw [frontier] at waiting
            rcases List.mem_cons.mp waiting with rfl | later
            · exact .inl again
            · exact .inr later
        · intro source member target leads
          rcases covers.followed source member target leads with old | waiting | later
          · exact .inl old
          · rw [frontier] at waiting
            rcases List.mem_cons.mp waiting with rfl | later
            · exact .inl again
            · exact .inr (.inl later)
          · exact .inr (.inr later)
      · refine ⟨covers.shallow, ?_, ?_, ?_⟩
        · intro reachable reached
          rcases covers.level reachable reached with old | waiting
          · exact .inl (List.mem_cons_of_mem _ old)
          · rw [frontier] at waiting
            rcases List.mem_cons.mp waiting with rfl | later
            · exact .inl List.mem_cons_self
            · exact .inr later
        · intro source member target leads
          rcases List.mem_cons.mp member with rfl | old
          · exact .inr (.inr (List.mem_append_right _ (told source target leads)))
          · rcases covers.followed source old target leads with seen | waiting | later
            · exact .inl (List.mem_cons_of_mem _ seen)
            · rw [frontier] at waiting
              rcases List.mem_cons.mp waiting with rfl | later
              · exact .inl List.mem_cons_self
              · exact .inr (.inl later)
            · exact .inr (.inr (List.mem_append_left _ later))
        · intro member
          rcases List.mem_cons.mp member with rfl | old
          · exact other rfl
          · exact covers.missed old

/-- A chain of edges leads to its last vertex. -/
theorem reached_of_chain {path : List α} (chain : path.IsChain edge) {first last : α} (head : path.head? = some first)
    (end_ : path.getLast? = some last) : Reached edge first (path.length - 1) last := by
  induction path using List.reverseRecOn generalizing last with
  | nil => cases head
  | append_singleton path vertex ih =>
    rw [List.getLast?_concat, Option.some.injEq] at end_
    subst end_
    cases before : path.getLast? with
    | none =>
      have empty : path = [] := List.getLast?_eq_none_iff.mp before
      subst empty
      exact (Option.some.inj head : _).symm ▸ rfl
    | some previous =>
      have some_ : path ≠ [] := by
        rintro rfl
        cases before
      have front : path.head? = some first := by
        rw [List.head?_append] at head
        cases opened : path.head? with
        | none => exact absurd (List.head?_eq_none_iff.mp opened) some_
        | some value =>
          rw [opened] at head
          exact head
      obtain ⟨earlier, _, leads⟩ := List.isChain_append.mp chain
      have positive : 0 < path.length := List.length_pos_iff.mpr some_
      have length : (path ++ [vertex]).length - 1 = path.length - 1 + 1 := by
        rw [List.length_append, List.length_singleton]
        omega
      rw [length]
      exact .inr ⟨previous, ih earlier front before, leads previous (by rw [before]; rfl) vertex rfl⟩

end Search

end Foundation
