import AiryFS.Files.VolumeAccess
import AiryFS.Foundation.Runs
import Mathlib.Data.List.Nodup

/-! The path lock is exclusive and fair over every sequence of requests and releases.

`drain` is a chain of grants that goes on until no grant is left, so the rules of fair
queues apply to it.
-/

set_option autoImplicit false

namespace AiryFS

open Foundation Relation

namespace VolumeAccessCoordinator

/-- One of the two writes, and a path of one overlaps a path of the other. -/
def Conflict (a b : LockWaiter) : Prop :=
  (a.mode = .write ∨ b.mode = .write) ∧ ∃ aPath ∈ a.paths, ∃ bPath ∈ b.paths, Overlap aPath bPath

/-- Every path of the request is one that the lock stores. -/
def Stored (waiter : LockWaiter) : Prop := ∀ path ∈ waiter.paths, Normalized path

theorem conflicts_iff {a b : LockWaiter} (first : Stored a) (second : Stored b) :
    conflicts a b = true ↔ Conflict a b := by
  have modes : ¬(a.mode = .read ∧ b.mode = .read) ↔ a.mode = .write ∨ b.mode = .write := by
    cases a.mode <;> cases b.mode <;> simp
  unfold conflicts Conflict
  rw [← modes]
  split
  · rename_i reads
    simp [reads]
  · rename_i writes
    rw [List.any_eq_true]
    refine ⟨?_, ?_⟩
    · rintro ⟨aPath, aMember, overlaps⟩
      obtain ⟨bPath, bMember, overlap⟩ := List.any_eq_true.mp overlaps
      exact ⟨writes, aPath, aMember, bPath, bMember, (pathsOverlap_iff (first _ aMember) (second _ bMember)).mp overlap⟩
    · rintro ⟨_, aPath, aMember, bPath, bMember, overlap⟩
      refine ⟨aPath, aMember, List.any_eq_true.mpr ⟨bPath, bMember, ?_⟩⟩
      exact (pathsOverlap_iff (first _ aMember) (second _ bMember)).mpr overlap

theorem conflict_symm {a b : LockWaiter} (conflict : Conflict a b) : Conflict b a := by
  obtain ⟨writes, aPath, aMember, bPath, bMember, overlap⟩ := conflict
  exact ⟨writes.symm, bPath, bMember, aPath, aMember, overlap_symm overlap⟩

variable {state : VolumeAccessCoordinator}

def queue (state : VolumeAccessCoordinator) : FairQueue LockWaiter := ⟨state.active, state.waiters⟩

/-- The requests that are held or waiting. -/
def pending (state : VolumeAccessCoordinator) : List LockWaiter := state.active ++ state.waiters

/-! ## Draining -/

theorem admits_iff (stored : ∀ waiter ∈ state.pending, Stored waiter) {waiter : LockWaiter} (index : Nat)
    (waits : waiter ∈ state.waiters) : state.admits waiter index = true ↔
      (∀ holder ∈ state.active, ¬Conflict waiter holder) ∧
        ∀ earlier ∈ state.waiters.take index, ¬Conflict waiter earlier := by
  have own : Stored waiter := stored waiter (List.mem_append_right _ waits)
  have apart : ∀ others : List LockWaiter, (∀ other ∈ others, Stored other) →
      (others.any (conflicts waiter) = false ↔ ∀ other ∈ others, ¬Conflict waiter other) := by
    intro others kept
    rw [List.any_eq_false]
    apply forall_congr'
    intro other
    apply imp_congr_right
    intro member
    rw [conflicts_iff own (kept other member)]
  rw [admits, Bool.not_eq_true', Bool.or_eq_false_iff, apart, apart]
  · intro other member
    exact stored other (List.mem_append_right _ (List.mem_of_mem_take member))
  · intro other member
    exact stored other (List.mem_append_left _ member)

/-- What a scan finds is granted as a fair queue grants it. -/
theorem grant_of_scan (stored : ∀ waiter ∈ state.pending, Stored waiter) {waiter : LockWaiter} {index : Nat}
    (found : state.scan = some (waiter, index)) :
    FairQueue.Grant Conflict state.queue (state.grant waiter index).queue := by
  have position : state.waiters[index]? = some waiter :=
    List.mem_zipIdx_iff_getElem?.mp (List.mem_of_find?_eq_some found)
  obtain ⟨inside, same⟩ := List.getElem?_eq_some_iff.mp position
  have admitted := List.find?_some found
  rw [admits_iff stored index (by rw [← same]; exact List.getElem_mem _)] at admitted
  have split : state.waiters = state.waiters.take index ++ waiter :: state.waiters.drop (index + 1) := by
    rw [← same, List.getElem_cons_drop, List.take_append_drop]
  rw [queue, queue, grant, List.eraseIdx_eq_take_drop_succ]
  conv => lhs; rw [split]
  exact .grant admitted.1 admitted.2

theorem settled_of_scan (stored : ∀ waiter ∈ state.pending, Stored waiter) (none : state.scan = none) :
    state.queue.Settled Conflict := by
  intro next grant
  generalize start : state.queue = queue at grant
  cases grant with
  | @grant holders ahead behind request free first =>
    rw [VolumeAccessCoordinator.queue, FairQueue.mk.injEq] at start
    obtain ⟨active, waiters⟩ := start
    have waits : request ∈ state.waiters := by
      rw [waiters]
      simp
    refine List.find?_eq_none.mp none (request, ahead.length) ?_ ?_
    · rw [List.mem_zipIdx_iff_getElem?, waiters]
      simp
    · refine (admits_iff stored ahead.length waits).mpr ⟨?_, ?_⟩
      · rw [active]
        exact free
      · rw [waiters, List.take_left]
        exact first

theorem drainLoop_grants (grants : Nat) (stored : ∀ waiter ∈ state.pending, Stored waiter) :
    ReflTransGen (FairQueue.Grant Conflict) state.queue (drainLoop grants state).queue := by
  induction grants generalizing state with
  | zero => exact .refl
  | succ grants ih =>
    unfold drainLoop
    split
    · exact .refl
    · rename_i waiter index found
      have grant := grant_of_scan stored found
      apply ReflTransGen.head grant
      apply ih
      intro other member
      exact stored other (grant.perm.subset member)

/-- With room for a grant of every waiter the loop ends where a scan finds nothing. -/
theorem drainLoop_settled (grants : Nat) (stored : ∀ waiter ∈ state.pending, Stored waiter)
    (enough : state.waiters.length ≤ grants) : (drainLoop grants state).queue.Settled Conflict := by
  induction grants generalizing state with
  | zero =>
    apply settled_of_scan stored
    rw [scan, List.length_eq_zero_iff.mp (Nat.le_zero.mp enough)]
    rfl
  | succ grants ih =>
    unfold drainLoop
    split
    · rename_i none
      exact settled_of_scan stored none
    · rename_i waiter index found
      have grant := grant_of_scan stored found
      apply ih
      · intro other member
        exact stored other (grant.perm.subset member)
      · have fewer := grant.length_waiting
        change state.waiters.length = (state.grant waiter index).waiters.length + 1 at fewer
        omega

theorem drainLoop_counters (grants : Nat) (state : VolumeAccessCoordinator) :
    (drainLoop grants state).released = state.released ∧ (drainLoop grants state).requests = state.requests := by
  induction grants generalizing state with
  | zero => exact ⟨rfl, rfl⟩
  | succ grants ih =>
    unfold drainLoop
    split
    · exact ⟨rfl, rfl⟩
    · exact ih _

/-! ## The invariant -/

/-- What holds even before the waiters are looked at again. -/
structure Consistent (state : VolumeAccessCoordinator) : Prop where
  exclusive : state.queue.Exclusive Conflict
  arrived : state.queue.Arrived LockWaiter.id
  stored : ∀ waiter ∈ state.pending, Stored waiter
  distinct : (state.pending.map LockWaiter.id).Nodup
  recent : ∀ waiter ∈ state.pending, waiter.id < state.requests
  live : ∀ waiter ∈ state.pending, waiter.id ∉ state.released
  known : ∀ id ∈ state.released, id < state.requests

theorem initial_settled : initial.queue.Settled Conflict := by
  intro next grant
  have waiting := grant.length_waiting
  change 0 = next.waiting.length + 1 at waiting
  omega

theorem initial_consistent : initial.Consistent :=
  ⟨List.Pairwise.nil, List.Pairwise.nil, by simp [pending, initial], by simp [pending, initial],
    by simp [pending, initial], by simp [pending, initial], by simp [initial]⟩

theorem drain_consistent (consistent : state.Consistent) :
    state.drain.Consistent ∧ state.drain.queue.Settled Conflict := by
  have grants := drainLoop_grants state.waiters.length consistent.stored
  have perm : state.drain.pending.Perm state.pending := FairQueue.perm_of_grants grants
  obtain ⟨released, requests⟩ := drainLoop_counters state.waiters.length state
  refine ⟨⟨?_, ?_, ?_, ?_, ?_, ?_, ?_⟩, drainLoop_settled _ consistent.stored (le_refl _)⟩
  · exact FairQueue.exclusive_of_grants (fun _ _ => conflict_symm) grants consistent.exclusive
  · exact FairQueue.arrived_of_grants grants consistent.arrived
  · exact fun waiter member => consistent.stored waiter (perm.subset member)
  · exact (perm.map _).nodup_iff.mpr consistent.distinct
  · intro waiter member
    rw [drain, requests]
    exact consistent.recent waiter (perm.subset member)
  · intro waiter member
    rw [drain, released]
    exact consistent.live waiter (perm.subset member)
  · rw [drain, released, requests]
    exact consistent.known

/-- A new request stands last. -/
theorem enqueue_consistent (consistent : state.Consistent) (mode : LockMode) (paths : List Text) :
    Consistent { state with
      waiters := state.waiters ++ [⟨state.requests, mode, paths.map normalizeLockPath⟩]
      requests := state.requests + 1 } := by
  have pending : ∀ waiter, waiter ∈ state.active ++ (state.waiters ++ [⟨state.requests, mode,
      paths.map normalizeLockPath⟩]) ↔ waiter ∈ state.pending ∨ waiter = ⟨state.requests, mode, paths.map normalizeLockPath⟩ := by
    intro waiter
    simp [VolumeAccessCoordinator.pending, or_assoc]
  refine ⟨consistent.exclusive, ?_, ?_, ?_, ?_, ?_, ?_⟩
  · refine List.pairwise_append.mpr ⟨consistent.arrived, List.pairwise_singleton _ _, ?_⟩
    intro earlier member last same
    rw [List.mem_singleton.mp same]
    exact consistent.recent earlier (List.mem_append_right _ member)
  · intro waiter member
    rcases (pending waiter).mp member with old | rfl
    · exact consistent.stored waiter old
    · intro path named
      obtain ⟨raw, _, rfl⟩ := List.mem_map.mp named
      exact normalizeLockPath_normalized raw
  · rw [VolumeAccessCoordinator.pending, ← List.append_assoc, List.map_append]
    refine List.nodup_append.mpr ⟨consistent.distinct, List.nodup_singleton _, ?_⟩
    intro id old last same
    obtain ⟨waiter, member, rfl⟩ := List.mem_map.mp old
    rw [List.map_singleton, List.mem_singleton] at same
    rw [same]
    exact Nat.ne_of_lt (consistent.recent waiter member)
  · intro waiter member
    rcases (pending waiter).mp member with old | rfl
    · exact Nat.lt_succ_of_lt (consistent.recent waiter old)
    · exact Nat.lt_succ_self _
  · intro waiter member
    rcases (pending waiter).mp member with old | rfl
    · exact consistent.live waiter old
    · intro released
      exact lt_irrefl _ (consistent.known _ released)
  · intro id released
    exact Nat.lt_succ_of_lt (consistent.known id released)

/-- Without one of its holders. -/
theorem dequeue_consistent (consistent : state.Consistent) {holder : LockWaiter} (holds : holder ∈ state.active) :
    Consistent { state with
      released := holder.id :: state.released
      active := state.active.erase holder } := by
  have subset : (state.active.erase holder ++ state.waiters).Sublist state.pending :=
    List.erase_sublist.append_right _
  refine ⟨?_, consistent.arrived, ?_, ?_, ?_, ?_, ?_⟩
  · exact consistent.exclusive.sublist List.erase_sublist
  · exact fun waiter member => consistent.stored waiter (subset.subset member)
  · exact consistent.distinct.sublist (subset.map _)
  · exact fun waiter member => consistent.recent waiter (subset.subset member)
  · intro waiter member
    rw [List.mem_cons, not_or]
    refine ⟨?_, consistent.live waiter (subset.subset member)⟩
    intro same
    -- Requests are told apart by their numbers, and the holder is gone.
    have equal : waiter = holder :=
      List.inj_on_of_nodup_map consistent.distinct (subset.subset member) (List.mem_append_left _ holds) same
    rw [equal] at member
    have once : state.pending.Nodup := List.Nodup.of_map _ consistent.distinct
    have apart := List.nodup_append.mp once
    rcases List.mem_append.mp member with active | waits
    · exact (List.Nodup.not_mem_erase apart.1) active
    · exact apart.2.2 holder holds holder waits rfl
  · intro id released
    rcases List.mem_cons.mp released with rfl | old
    · exact consistent.recent holder (List.mem_append_left _ holds)
    · exact consistent.known id old

/-! ## Operations -/

/-- What an operation may do: end with no two conflicting holders, grant nobody past an
earlier waiting request that conflicts with it, and leave no request waiting without a reason. -/
structure Fair (before after : VolumeAccessCoordinator) : Prop where
  exclusive : after.active.Pairwise fun first second => ¬Conflict first second
  unovertaken : ∀ granted ∈ after.active, granted ∉ before.active →
    ∀ earlier ∈ before.waiters, earlier.id < granted.id → ¬Conflict granted earlier
  attended : ∀ waiter ∈ after.waiters, (∃ holder ∈ after.active, Conflict waiter holder) ∨
    ∃ earlier ∈ after.waiters, earlier.id < waiter.id ∧ Conflict waiter earlier

theorem drain_fair (consistent : state.Consistent) : Fair state state.drain := by
  obtain ⟨after, settled⟩ := drain_consistent consistent
  have grants := drainLoop_grants state.waiters.length consistent.stored
  refine ⟨after.exclusive, ?_, ?_⟩
  · intro granted holds new earlier waited order
    exact FairQueue.fair_of_grants (fun _ _ => conflict_symm) grants consistent.exclusive consistent.arrived holds new
      waited order
  · intro waiter waits
    exact settled.blocked after.arrived waits

theorem step_fair (operation : Operation) (consistent : state.Consistent) (settled : state.queue.Settled Conflict) :
    (state.step operation).Consistent ∧ (state.step operation).queue.Settled Conflict ∧
      Fair state (state.step operation) := by
  have unchanged : state.Consistent ∧ state.queue.Settled Conflict ∧ Fair state state :=
    ⟨consistent, settled, consistent.exclusive, fun _ holds new => absurd holds new,
      fun waiter waits => settled.blocked consistent.arrived waits⟩
  cases operation with
  | acquire mode paths =>
    have queued := enqueue_consistent consistent mode paths
    obtain ⟨after, done⟩ := drain_consistent queued
    have fair := drain_fair queued
    refine ⟨after, done, fair.exclusive, ?_, fair.attended⟩
    intro granted holds new earlier waited order
    exact fair.unovertaken granted holds new earlier (List.mem_append_left _ waited) order
  | release id =>
    change (state.release id).Consistent ∧ (state.release id).queue.Settled Conflict ∧ Fair state (state.release id)
    unfold release
    split
    · exact unchanged
    · split
      · exact unchanged
      · rename_i holder found
        have holds := List.mem_of_find?_eq_some found
        have number : holder.id = id := by simpa using List.find?_some found
        rw [← number]
        have freed := dequeue_consistent consistent holds
        obtain ⟨after, done⟩ := drain_consistent freed
        have fair := drain_fair freed
        refine ⟨after, done, fair.exclusive, ?_, fair.attended⟩
        intro granted holds new earlier waited order
        exact fair.unovertaken granted holds (fun kept => new (List.mem_of_mem_erase kept)) earlier waited order

theorem run_consistent (operations : List Operation) : (run step initial operations).Consistent ∧
    (run step initial operations).queue.Settled Conflict := by
  induction operations using List.reverseRecOn with
  | nil => exact ⟨initial_consistent, initial_settled⟩
  | append_singleton operations operation ih =>
    rw [run, List.foldl_append]
    have next := step_fair operation ih.1 ih.2
    exact ⟨next.1, next.2.1⟩

/-! ## Who holds after an operation -/

theorem drain_keeps (consistent : state.Consistent) :
    state.active ⊆ state.drain.active ∧ state.drain.pending.Perm state.pending := by
  have grants := drainLoop_grants state.waiters.length consistent.stored
  exact ⟨FairQueue.holders_subset_of_grants grants, FairQueue.perm_of_grants grants⟩

theorem acquire_keeps (consistent : state.Consistent) (mode : LockMode) (paths : List Text) :
    state.active ⊆ (state.acquire mode paths).active ∧
      (state.acquire mode paths).pending.Perm
        (⟨state.requests, mode, paths.map normalizeLockPath⟩ :: state.pending) ∧
      (state.acquire mode paths).requests = state.requests + 1 := by
  obtain ⟨active, perm⟩ := drain_keeps (enqueue_consistent consistent mode paths)
  refine ⟨active, perm.trans ?_, (drainLoop_counters _ _).2⟩
  change (state.active ++ (state.waiters ++ [_])).Perm _
  rw [← List.append_assoc]
  exact List.perm_append_comm

/-- Releasing a holder takes away that holder only. -/
theorem release_keeps (consistent : state.Consistent) {holder : LockWaiter} (holds : holder ∈ state.active) :
    state.active.erase holder ⊆ (state.release holder.id).active ∧
      (state.release holder.id).pending.Perm (state.active.erase holder ++ state.waiters) ∧
      (state.release holder.id).requests = state.requests := by
  have found : state.active.find? (fun waiter => waiter.id = holder.id) = some holder := by
    cases found : state.active.find? fun waiter => waiter.id = holder.id with
    | none => exact absurd (List.find?_eq_none.mp found holder holds) (by simp)
    | some other =>
      rw [List.inj_on_of_nodup_map consistent.distinct (List.mem_append_left _ (List.mem_of_find?_eq_some found))
        (List.mem_append_left _ holds) (by simpa using List.find?_some found)]
  have released := consistent.live holder (List.mem_append_left _ holds)
  rw [release, if_neg released, found]
  obtain ⟨active, perm⟩ := drain_keeps (dequeue_consistent consistent holds)
  exact ⟨active, perm, (drainLoop_counters _ _).2⟩

/-! ## Releasing again -/

theorem step_released (operation : Operation) (state : VolumeAccessCoordinator) :
    state.released ⊆ (state.step operation).released := by
  have drained : ∀ other : VolumeAccessCoordinator, other.drain.released = other.released :=
    fun other => (drainLoop_counters _ other).1
  cases operation with
  | acquire mode paths =>
    change state.released ⊆ (state.acquire mode paths).released
    rw [acquire, drained]
    exact List.Subset.refl _
  | release id =>
    change state.released ⊆ (state.release id).released
    unfold release
    split
    · exact List.Subset.refl _
    · split
      · exact List.Subset.refl _
      · rw [drained]
        exact List.subset_cons_self _ _

theorem run_released (operations : List Operation) (state : VolumeAccessCoordinator) :
    state.released ⊆ (run step state operations).released := by
  induction operations generalizing state with
  | nil => exact List.Subset.refl _
  | cons operation rest ih => exact List.Subset.trans (step_released operation state) (ih _)

theorem release_released {holder : LockWaiter} (holds : holder ∈ state.active) :
    holder.id ∈ (state.release holder.id).released := by
  unfold release
  split
  · rename_i already
    exact already
  · split
    · rename_i none
      exact absurd (List.find?_eq_none.mp none holder holds) (by simp)
    · rw [drain, (drainLoop_counters _ _).1]
      exact List.mem_cons_self

end VolumeAccessCoordinator

open VolumeAccessCoordinator in
/-- Over every sequence of requests and releases the lock is exclusive and fair, and it does
not matter how often or when a grant is released again. Paths are compared as they were given. -/
theorem fairPathLock (operations : List Operation) :
    (∀ operation, Fair (run step initial operations) (run step initial (operations ++ [operation]))) ∧
    (∀ holder ∈ (run step initial operations).active, ∀ later,
      (run step ((run step initial operations).release holder.id) later).release holder.id =
        run step ((run step initial operations).release holder.id) later) ∧
    ∀ first second, Overlap (normalizeLockPath first) (normalizeLockPath second) ↔ Overlap first second := by
  obtain ⟨consistent, settled⟩ := run_consistent operations
  refine ⟨?_, ?_, overlap_normalizeLockPath⟩
  · intro operation
    have next := (step_fair operation consistent settled).2.2
    rw [run, run, List.foldl_append]
    exact next
  · intro holder holds later
    have released := run_released later _ (release_released holds)
    exact if_pos released

end AiryFS
