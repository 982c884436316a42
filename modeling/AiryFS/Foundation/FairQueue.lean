import Mathlib.Data.List.Pairwise
import Mathlib.Logic.Relation
import Mathlib.Tactic.Common

/-! Requests granted in arrival order, where two that conflict are never held together.

A grant takes a waiting request that conflicts with no holder and with none ahead of it.
Whatever order the grants come in, they keep the holders apart, they let no request
overtake one it conflicts with, and where no grant is left every request has a reason to
wait.
-/

set_option autoImplicit false

namespace Foundation

open Relation

structure FairQueue (Request : Type) where
  holders : List Request
  waiting : List Request

namespace FairQueue

variable {Request : Type} (conflicts : Request → Request → Prop) (rank : Request → Nat)

inductive Grant : FairQueue Request → FairQueue Request → Prop where
  | grant {holders ahead behind : List Request} {request : Request}
      (free : ∀ holder ∈ holders, ¬conflicts request holder)
      (first : ∀ other ∈ ahead, ¬conflicts request other) :
      Grant ⟨holders, ahead ++ request :: behind⟩ ⟨holders ++ [request], ahead ++ behind⟩

/-- No two holders conflict. -/
def Exclusive (queue : FairQueue Request) : Prop := queue.holders.Pairwise fun first second => ¬conflicts first second

/-- The waiting requests stand in the order of their arrival. -/
def Arrived (queue : FairQueue Request) : Prop := queue.waiting.Pairwise fun first second => rank first < rank second

def Settled (queue : FairQueue Request) : Prop := ∀ next, ¬Grant conflicts queue next

variable {conflicts rank} {queue queue' : FairQueue Request}

theorem Grant.exclusive (symmetric : ∀ first second, conflicts first second → conflicts second first) (grant : Grant conflicts queue queue')
    (exclusive : queue.Exclusive conflicts) : queue'.Exclusive conflicts := by
  cases grant with
  | @grant holders ahead behind request free first =>
    refine List.pairwise_append.mpr ⟨exclusive, List.pairwise_singleton _ _, ?_⟩
    intro holder member other same
    rw [List.mem_singleton.mp same]
    intro conflict
    exact free holder member (symmetric _ _ conflict)

theorem Grant.arrived (grant : Grant conflicts queue queue') (arrived : queue.Arrived rank) :
    queue'.Arrived rank := by
  cases grant with
  | @grant holders ahead behind request free first =>
    apply List.Pairwise.sublist _ arrived
    exact (List.sublist_cons_self request behind).append_left ahead

theorem Grant.holders_subset (grant : Grant conflicts queue queue') : queue.holders ⊆ queue'.holders := by
  cases grant with
  | grant free first => exact List.subset_append_left _ _

theorem Grant.perm (grant : Grant conflicts queue queue') :
    (queue'.holders ++ queue'.waiting).Perm (queue.holders ++ queue.waiting) := by
  cases grant with
  | @grant holders ahead behind request free first =>
    change ((holders ++ [request]) ++ (ahead ++ behind)).Perm (holders ++ (ahead ++ request :: behind))
    rw [List.append_assoc]
    apply List.Perm.append_left
    rw [List.singleton_append]
    exact List.perm_middle.symm

/-- Every grant leaves one request fewer waiting. -/
theorem Grant.length_waiting (grant : Grant conflicts queue queue') :
    queue.waiting.length = queue'.waiting.length + 1 := by
  cases grant with
  | @grant holders ahead behind request free first =>
    simp only [List.length_append, List.length_cons]
    omega

theorem exclusive_of_grants (symmetric : ∀ first second, conflicts first second → conflicts second first) (grants : ReflTransGen (Grant conflicts) queue queue')
    (exclusive : queue.Exclusive conflicts) : queue'.Exclusive conflicts := by
  induction grants with
  | refl => exact exclusive
  | tail _ grant ih => exact grant.exclusive symmetric ih

theorem arrived_of_grants (grants : ReflTransGen (Grant conflicts) queue queue') (arrived : queue.Arrived rank) :
    queue'.Arrived rank := by
  induction grants with
  | refl => exact arrived
  | tail _ grant ih => exact grant.arrived ih

theorem perm_of_grants (grants : ReflTransGen (Grant conflicts) queue queue') :
    (queue'.holders ++ queue'.waiting).Perm (queue.holders ++ queue.waiting) := by
  induction grants with
  | refl => exact .refl _
  | tail _ grant ih => exact grant.perm.trans ih

theorem holders_subset_of_grants (grants : ReflTransGen (Grant conflicts) queue queue') :
    queue.holders ⊆ queue'.holders := by
  induction grants with
  | refl => exact List.Subset.refl _
  | tail _ grant ih => exact List.Subset.trans ih grant.holders_subset

/-- Nobody is granted past an earlier request it conflicts with: that one is either still
waiting ahead of it or holds already. -/
theorem fair_of_grants (symmetric : ∀ first second, conflicts first second → conflicts second first) (grants : ReflTransGen (Grant conflicts) queue queue')
    (exclusive : queue.Exclusive conflicts) (arrived : queue.Arrived rank) {granted earlier : Request}
    (holds : granted ∈ queue'.holders) (new : granted ∉ queue.holders) (waited : earlier ∈ queue.waiting)
    (order : rank earlier < rank granted) : ¬conflicts granted earlier := by
  induction grants using ReflTransGen.head_induction_on with
  | refl => exact absurd holds new
  | head grant rest ih =>
    have next := ih (grant.exclusive symmetric exclusive) (grant.arrived arrived)
    have final := exclusive_of_grants symmetric rest (grant.exclusive symmetric exclusive)
    have kept := holders_subset_of_grants rest
    cases grant with
    | @grant holders ahead behind request free first =>
      by_cases now : granted = request
      · -- What stands behind the granted request arrived later.
        subst now
        rcases List.mem_append.mp waited with before | after
        · exact first earlier before
        · rcases List.mem_cons.mp after with same | behind
          · rw [same] at order
            omega
          · have later := (List.pairwise_cons.mp (List.pairwise_append.mp arrived).2.1).1 earlier behind
            omega
      · by_cases held : earlier = request
        · -- The earlier one already holds, and holders do not conflict.
          subst held
          have apart : Std.Symm fun first second => ¬conflicts first second :=
            ⟨fun _ _ apart conflict => apart (symmetric _ _ conflict)⟩
          refine List.Pairwise.forall final holds (kept (by simp)) ?_
          intro same
          rw [same] at order
          omega
        · apply next
          · simp [now, new]
          · rcases List.mem_append.mp waited with before | after
            · exact List.mem_append_left _ before
            · exact List.mem_append_right _ ((List.mem_cons.mp after).resolve_left held)

/-- Where no grant is left, every waiting request conflicts with a holder or with an earlier one. -/
theorem Settled.blocked (settled : queue.Settled conflicts) (arrived : queue.Arrived rank) {request : Request}
    (waits : request ∈ queue.waiting) : (∃ holder ∈ queue.holders, conflicts request holder) ∨
      ∃ earlier ∈ queue.waiting, rank earlier < rank request ∧ conflicts request earlier := by
  obtain ⟨ahead, behind, spelled⟩ := List.append_of_mem waits
  by_contra unblocked
  rw [not_or, not_exists, not_exists] at unblocked
  obtain ⟨free, first⟩ := unblocked
  rw [Arrived, spelled] at arrived
  have grant : Grant conflicts ⟨queue.holders, ahead ++ request :: behind⟩ ⟨queue.holders ++ [request], ahead ++ behind⟩ := by
    apply Grant.grant
    · intro holder member conflict
      exact free holder ⟨member, conflict⟩
    · intro other member conflict
      have order := (List.pairwise_append.mp arrived).2.2 other member request List.mem_cons_self
      exact first other ⟨by rw [spelled]; exact List.mem_append_left _ member, order, conflict⟩
  rw [← spelled] at grant
  exact settled _ grant

end FairQueue

end Foundation
