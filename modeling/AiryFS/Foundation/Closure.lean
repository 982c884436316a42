import Mathlib.Data.Finset.Card
import Mathlib.Data.Finset.Dedup
import Mathlib.Logic.Function.Iterate
import Mathlib.Logic.Relation

/-! Everything reachable along a finite list of edges.

A recursive query keeps adding the targets of edges that leave the known set until a
round adds nothing. A round that adds something adds a target it did not have, so as many
rounds as there are edges reach the fixed point.
-/

set_option autoImplicit false

namespace Foundation

variable {α : Type} [DecidableEq α] (edges : List (α × α))

/-- One round: add the targets of the edges that leave the set. -/
def expand (known : Finset α) : Finset α :=
  known ∪ ((edges.filter fun edge => edge.1 ∈ known).map Prod.snd).toFinset

def closure (start : α) : Finset α := (expand edges)^[edges.length] {start}

theorem mem_expand {known : Finset α} {x : α} :
    x ∈ expand edges known ↔ x ∈ known ∨ ∃ y ∈ known, (y, x) ∈ edges := by
  simp only [expand, Finset.mem_union, List.mem_toFinset, List.mem_map, List.mem_filter, decide_eq_true_eq]
  constructor
  · intro found
    rcases found with old | ⟨edge, ⟨member, source⟩, target⟩
    · exact .inl old
    · exact .inr ⟨edge.1, source, by rw [← target]; exact member⟩
  · intro found
    rcases found with old | ⟨y, source, member⟩
    · exact .inl old
    · exact .inr ⟨(y, x), ⟨member, source⟩, rfl⟩

theorem subset_expand (known : Finset α) : known ⊆ expand edges known := Finset.subset_union_left

/-- Until it stops growing, the set gains an element in every round. -/
theorem rounds_grow (start : α) (rounds : Nat) :
    expand edges ((expand edges)^[rounds] {start}) = (expand edges)^[rounds] {start} ∨
      rounds + 1 ≤ ((expand edges)^[rounds] {start}).card := by
  induction rounds with
  | zero => exact .inr (by simp)
  | succ rounds ih =>
    rw [Function.iterate_succ_apply']
    generalize (expand edges)^[rounds] {start} = known at ih ⊢
    by_cases stable : expand edges known = known
    · exact .inl (by rw [stable, stable])
    · rcases ih with fixed | large
      · exact absurd fixed stable
      · right
        have strict : known ⊂ expand edges known :=
          Finset.ssubset_iff_subset_ne.mpr ⟨subset_expand edges known, Ne.symm stable⟩
        have more := Finset.card_lt_card strict
        omega

/-- The start and the targets of all edges. -/
def reachBound (start : α) : Finset α := insert start (edges.map Prod.snd).toFinset

theorem card_reachBound (start : α) : (reachBound edges start).card ≤ edges.length + 1 := by
  have inserted := Finset.card_insert_le start (edges.map Prod.snd).toFinset
  have targets := List.toFinset_card_le (edges.map Prod.snd)
  rw [List.length_map] at targets
  unfold reachBound
  omega

theorem expand_subset_reachBound {start : α} {known : Finset α} (within : known ⊆ reachBound edges start) :
    expand edges known ⊆ reachBound edges start := by
  intro x member
  rcases (mem_expand edges).mp member with old | ⟨y, _, edge⟩
  · exact within old
  · refine Finset.mem_insert_of_mem (List.mem_toFinset.mpr ?_)
    exact List.mem_map_of_mem edge

theorem rounds_subset_reachBound (start : α) (rounds : Nat) :
    (expand edges)^[rounds] {start} ⊆ reachBound edges start := by
  induction rounds with
  | zero => simp [reachBound]
  | succ rounds ih =>
    rw [Function.iterate_succ_apply']
    exact expand_subset_reachBound edges ih

/-- The rounds end in a set no edge leaves. -/
theorem closure_closed (start : α) : expand edges (closure edges start) = closure edges start := by
  rcases rounds_grow edges start edges.length with fixed | large
  · exact fixed
  · -- The set has become everything it could reach.
    have full : closure edges start = reachBound edges start := by
      apply Finset.eq_of_subset_of_card_le (rounds_subset_reachBound edges start _)
      exact (card_reachBound edges start).trans large
    apply Finset.Subset.antisymm
    · conv_rhs => rw [full]
      exact expand_subset_reachBound edges full.le
    · exact subset_expand edges _

theorem start_mem_closure (start : α) : start ∈ closure edges start := by
  unfold closure
  induction edges.length with
  | zero => simp
  | succ rounds ih =>
    rw [Function.iterate_succ_apply']
    exact subset_expand edges _ ih

theorem reachable_of_mem_rounds {start x : α} {rounds : Nat} (member : x ∈ (expand edges)^[rounds] {start}) :
    Relation.ReflTransGen (fun y z => (y, z) ∈ edges) start x := by
  induction rounds generalizing x with
  | zero =>
    rw [Function.iterate_zero_apply, Finset.mem_singleton] at member
    rw [member]
  | succ rounds ih =>
    rw [Function.iterate_succ_apply'] at member
    rcases (mem_expand edges).mp member with old | ⟨y, before, edge⟩
    · exact ih old
    · exact (ih before).tail edge

theorem mem_closure_iff {start x : α} :
    x ∈ closure edges start ↔ Relation.ReflTransGen (fun y z => (y, z) ∈ edges) start x := by
  constructor
  · exact reachable_of_mem_rounds edges
  · intro path
    induction path with
    | refl => exact start_mem_closure edges start
    | tail _ edge ih =>
      rw [← closure_closed]
      exact (mem_expand edges).mpr (.inr ⟨_, ih, edge⟩)

/-! Relations without cycles, and climbing along them to a top.

Adding an edge closes a cycle only when its target already reaches its source. Along the
edges of a finite list a climb ends, because the set of what lies ahead keeps shrinking.
-/

open Relation

section Insertion

variable {α : Type} {r r' : α → α → Prop}

def Acyclic (r : α → α → Prop) : Prop := ∀ a, ¬TransGen r a a

theorem Acyclic.mono (acyclic : Acyclic r) (smaller : ∀ a b, r' a b → r a b) : Acyclic r' := by
  intro a cycle
  exact acyclic a (TransGen.mono smaller a a cycle)

/-- A path in the larger relation either avoids the new edge or passes through it. -/
theorem path_through {x y : α} (added : ∀ a b, r' a b → r a b ∨ (a = x ∧ b = y)) {a b : α}
    (path : TransGen r' a b) : TransGen r a b ∨ (ReflTransGen r a x ∧ ReflTransGen r y b) := by
  induction path with
  | single edge =>
    rcases added _ _ edge with old | ⟨source, target⟩
    · exact .inl (.single old)
    · right
      rw [source, target]
      exact ⟨.refl, .refl⟩
  | tail _ edge ih =>
    rcases added _ _ edge with old | ⟨source, target⟩
    · rcases ih with before | ⟨before, after⟩
      · exact .inl (before.tail old)
      · exact .inr ⟨before, after.tail old⟩
    · right
      subst source target
      rcases ih with before | ⟨before, _⟩
      · exact ⟨before.to_reflTransGen, .refl⟩
      · exact ⟨before, .refl⟩

theorem Acyclic.insert {x y : α} (acyclic : Acyclic r) (open_ended : ¬ReflTransGen r y x)
    (added : ∀ a b, r' a b → r a b ∨ (a = x ∧ b = y)) : Acyclic r' := by
  intro a cycle
  rcases path_through added cycle with old | ⟨before, after⟩
  · exact acyclic a old
  · exact open_ended (after.trans before)

end Insertion

/-! ## Climbing -/

variable {α : Type} [DecidableEq α] (edges : List (α × α))

theorem closure_subset {x y : α} (edge : (x, y) ∈ edges) : closure edges y ⊆ closure edges x := by
  intro z reached
  rw [mem_closure_iff] at reached ⊢
  exact ReflTransGen.head edge reached

theorem closure_ssubset (acyclic : Acyclic fun x y => (x, y) ∈ edges) {x y : α} (edge : (x, y) ∈ edges) :
    closure edges y ⊂ closure edges x := by
  refine ⟨closure_subset edges edge, ?_⟩
  intro back
  -- Otherwise the source would lie ahead of its own target.
  have returned := (mem_closure_iff edges).mp (back (start_mem_closure edges x))
  exact acyclic x (TransGen.head' edge returned)

/-- Every element climbs, within a set that is closed under climbing, to one that no edge leaves. -/
theorem exists_top (acyclic : Acyclic fun x y => (x, y) ∈ edges) {inside : α → Prop}
    (closed : ∀ x y, inside x → (x, y) ∈ edges → inside y) {x : α} (start : inside x) :
    ∃ top, inside top ∧ (∀ y, (top, y) ∉ edges) ∧ ReflTransGen (fun x y => (x, y) ∈ edges) x top := by
  induction ahead : (closure edges x).card using Nat.strong_induction_on generalizing x with
  | _ count ih =>
    by_cases leaves : ∃ y, (x, y) ∈ edges
    · obtain ⟨y, edge⟩ := leaves
      have fewer := Finset.card_lt_card (closure_ssubset edges acyclic edge)
      rw [ahead] at fewer
      obtain ⟨top, within, topmost, path⟩ := ih _ fewer (closed x y start edge) rfl
      exact ⟨top, within, topmost, path.head edge⟩
    · exact ⟨x, start, fun y edge => leaves ⟨y, edge⟩, .refl⟩

/-! ## Queries that keep their rows

A recursive query with `UNION ALL` asks once more about each row that the round before it added, until a round
adds none. A row that comes up twice is there twice.
-/

namespace UnionAll

variable {α : Type} (next : α → List α)

/-- What the round of that number adds. -/
def round : List α → Nat → List α
  | rows, 0 => rows
  | rows, n + 1 => round (rows.flatMap next) n

/-- All rows, when no more rounds add any. -/
def query : Nat → List α → Option (List α)
  | _, [] => some []
  | 0, _ :: _ => none
  | rounds + 1, row :: rows => (query rounds ((row :: rows).flatMap next)).map (row :: rows ++ ·)

variable {next} {rows all : List α} {rounds : Nat}

theorem round_nil (n : Nat) : round next [] n = [] := by
  induction n with
  | zero => rfl
  | succ n ih => exact ih

theorem round_succ (n : Nat) : round next rows (n + 1) = (round next rows n).flatMap next := by
  induction n generalizing rows with
  | zero => rfl
  | succ n ih => exact ih

theorem query_of_over (over_ : round next rows rounds = []) : ∃ all, query next rounds rows = some all := by
  induction rounds generalizing rows with
  | zero =>
    obtain rfl : rows = [] := over_
    exact ⟨[], rfl⟩
  | succ rounds ih =>
    cases rows with
    | nil => exact ⟨[], rfl⟩
    | cons row rows =>
      obtain ⟨all, done⟩ := ih over_
      exact ⟨row :: rows ++ all, by rw [query, done]; rfl⟩

theorem mem_query (done : query next rounds rows = some all) {x : α} : x ∈ all ↔ ∃ n, x ∈ round next rows n := by
  induction rounds generalizing rows all with
  | zero =>
    cases rows with
    | nil =>
      obtain rfl := Option.some.inj done
      simp [round_nil]
    | cons row rows => cases done
  | succ rounds ih =>
    cases rows with
    | nil =>
      obtain rfl := Option.some.inj done
      simp [round_nil]
    | cons row rows =>
      obtain ⟨later, rest, rfl⟩ := Option.map_eq_some_iff.mp done
      rw [List.mem_append, ih rest]
      constructor
      · rintro (first | ⟨n, member⟩)
        · exact ⟨0, first⟩
        · exact ⟨n + 1, member⟩
      · rintro ⟨n, member⟩
        cases n with
        | zero => exact .inl member
        | succ n => exact .inr ⟨n, member⟩

/-- Rounds that tell their rows apart, and that each go one deeper, add no row twice. -/
theorem nodup_query {depth : α → Nat} {d : Nat} (deeper : ∀ x, ∀ y ∈ next x, depth y = depth x + 1)
    (level : ∀ x ∈ rows, depth x = d) (once : ∀ n, (round next rows n).Nodup) (done : query next rounds rows = some all) :
    all.Nodup ∧ ∀ x ∈ all, d ≤ depth x := by
  induction rounds generalizing rows all d with
  | zero =>
    cases rows with
    | nil =>
      obtain rfl := Option.some.inj done
      exact ⟨List.nodup_nil, fun x member => absurd member List.not_mem_nil⟩
    | cons row rows => cases done
  | succ rounds ih =>
    cases rows with
    | nil =>
      obtain rfl := Option.some.inj done
      exact ⟨List.nodup_nil, fun x member => absurd member List.not_mem_nil⟩
    | cons row rows =>
      obtain ⟨later, rest, rfl⟩ := Option.map_eq_some_iff.mp done
      have below : ∀ x ∈ (row :: rows).flatMap next, depth x = d + 1 := by
        intro y member
        obtain ⟨x, listed, leads⟩ := List.mem_flatMap.mp member
        rw [deeper x y leads, level x listed]
      obtain ⟨apart, deep⟩ := ih below (fun n => once (n + 1)) rest
      refine ⟨List.Nodup.append (once 0) apart fun x first second => ?_, fun x member => ?_⟩
      · have shallow := level x first
        have deep := deep x second
        omega
      · rcases List.mem_append.mp member with first | second
        · exact (level x first).ge
        · exact Nat.le_of_succ_le (deep x second)

end UnionAll

end Foundation
