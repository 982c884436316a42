import AiryFS.Leases.LeaseCounts
import AiryFS.Foundation.Runs
import Mathlib.Data.List.Flatten
import Mathlib.Data.List.Perm.Subperm

/-! Why a session that holds a pin finds its file.

Each pin that no unpin has been started for is covered by the row of its session, through every
interleaving of the statements. What a row counts it holds, since nothing removes an inode with
a live row.
-/

set_option autoImplicit false

namespace AiryFS

open Foundation Remote Volume

namespace MountSessions

/-- The statements of an unpin that have not come to its first one. -/
def owed (state : MountSessions) (key : Text × Int) : Nat :=
  state.calls.flatten.count (.lease (.decrementOpenCount key.1 key.2))

/-- What a step keeps whatever has lapsed. -/
structure Covers (origin : Volume) (state : MountSessions) : Prop where
  counted : ∀ key, key ∉ state.lapsed → key.1 ∉ state.cleaned →
    (state.pins.count key : Int) + state.owed key ≤ state.volume.openCount key + state.unpins.count key
  backed : state.volume.Backed
  holds : ∀ ino, (state.volume.inode? ino).isSome = true → origin.Holds state.volume ino
  past : ∀ statement ∈ state.calls.flatten, statement.Past state.volume.now
  announced : ∀ sessionId, .lease (.cleanupOpenSession sessionId) ∈ state.calls.flatten → sessionId ∈ state.cleaned

/-- What protects the pins of the sessions that keep their leases. -/
structure Protects (origin : Volume) (state : MountSessions) : Prop extends Covers origin state where
  live : ∀ key, key ∉ state.lapsed → state.volume.Live key

variable {origin : Volume} {state : MountSessions}

/-- Running the next statement of a call takes it out of what is to run. -/
theorem flatten_set {statement : MountStatement} {rest : List MountStatement} :
    ∀ {calls : List (List MountStatement)} {index : Nat}, calls[index]? = some (statement :: rest) →
      calls.flatten.Perm (statement :: (calls.set index rest).flatten)
  | [], _, found => by cases found
  | call :: calls, 0, found => by
    rw [Option.some.inj found]
    exact .refl _
  | call :: calls, index + 1, found => by
    have later := @flatten_set _ _ calls index found
    rw [List.set_cons_succ, List.flatten_cons, List.flatten_cons]
    exact (later.append_left call).trans List.perm_middle

theorem Covers.observe (covers : state.Covers origin) : state.observe.Protects origin := by
  refine ⟨⟨?_, covers.backed, covers.holds, covers.past, covers.announced⟩, ?_⟩
  · intro key kept open_
    exact covers.counted key (fun lapsed => kept (List.mem_append_right _ lapsed)) open_
  · intro key kept row found
    by_contra late
    refine kept (List.mem_append_left _ (List.mem_map.mpr ⟨row, ?_, state.volume.openInode.find?_key found⟩))
    exact List.mem_filter.mpr ⟨state.volume.openInode.find?_mem found, decide_eq_true (not_lt.mp late)⟩

/-- A writer that keeps the leased inodes. -/
theorem Protects.retained {after : Volume} (protects : state.Protects origin) (retains : Retains state.volume after) :
    Covers origin { state with volume := after } := by
  refine ⟨?_, retains.backed protects.backed, ?_, ?_, protects.announced⟩
  · intro key kept open_
    have more := retains.openCount (protects.live key kept)
    exact le_trans (protects.counted key kept open_) (by dsimp only; omega)
  · intro ino stored
    obtain ⟨there, data, symlink⟩ := retains.contents ino stored
    obtain ⟨_, data', symlink'⟩ := protects.holds ino there
    exact ⟨stored, data.trans data', symlink.trans symlink'⟩
  · intro statement member
    dsimp only
    rw [retains.now]
    exact protects.past statement member

theorem tick_covers (protects : state.Protects origin) (elapsed : Nat) :
    Covers origin (state.apply (.tick elapsed)) := by
  refine ⟨protects.counted, protects.backed, protects.holds, ?_, protects.announced⟩
  intro statement member
  refine (protects.past statement member).later ?_
  exact Int.ediv_le_ediv (by decide) (show state.volume.clock ≤ state.volume.clock + elapsed by omega)

/-- A call has at most the decrement and the cleanup that its start announces. -/
theorem statements_announced (call : MountCall) (now : Int) :
    (∀ key : Text × Int, (call.statements now).count (.lease (.decrementOpenCount key.1 key.2)) ≤ (unpinned call).count key) ∧
    ∀ sessionId, .lease (.cleanupOpenSession sessionId) ∈ call.statements now → sessionId ∈ closing call := by
  cases call with
  | unpinOpenInode sessionId ino =>
    refine ⟨?_, by simp [MountCall.statements]⟩
    intro key
    simp only [MountCall.statements, unpinned, List.count_cons, List.count_nil]
    by_cases same : (sessionId, ino) = key
    · subst same
      simp
    · have apart : ¬(sessionId = key.1 ∧ ino = key.2) := fun both => same (Prod.ext both.1 both.2)
      simp [apart]
  | renewOpenLeases sessionId inos expiresAt =>
    simp only [MountCall.statements]
    split <;> simp [unpinned]
  | _ => simp [MountCall.statements, unpinned, closing, eq_comm]

theorem start_covers (protects : state.Protects origin) (call : MountCall) :
    Covers origin (state.apply (.start call)) := by
  obtain ⟨decrements, cleanups⟩ := statements_announced call state.volume.now
  refine ⟨?_, protects.backed, protects.holds, ?_, ?_⟩
  · intro key kept open_
    have counted := protects.counted key kept fun cleaned => open_ (List.mem_append_right _ cleaned)
    have more := decrements key
    unfold owed at counted ⊢
    simp only [apply, List.flatten_cons, List.count_append] at *
    omega
  · intro statement member
    rcases List.mem_append.mp member with new | old
    · exact call.statements_past state.volume.now statement new
    · exact protects.past statement old
  · intro sessionId member
    rcases List.mem_append.mp member with new | old
    · exact List.mem_append_left _ (cleanups sessionId new)
    · exact List.mem_append_right _ (protects.announced sessionId old)

theorem abandon_covers (protects : state.Protects origin) (index : Nat) :
    Covers origin (state.apply (.abandon index)) := by
  have fewer : (state.calls.eraseIdx index).flatten.Sublist state.calls.flatten := (List.eraseIdx_sublist _ _).flatten
  refine ⟨?_, protects.backed, protects.holds, ?_, ?_⟩
  · intro key kept open_
    have counted := protects.counted key kept open_
    have less := fewer.count_le (MountStatement.lease (.decrementOpenCount key.1 key.2))
    unfold owed at counted ⊢
    dsimp only [apply]
    omega
  · exact fun statement member => protects.past statement (fewer.subset member)
  · exact fun sessionId member => protects.announced sessionId (fewer.subset member)

section Executed

variable {index : Nat} {rest : List MountStatement}

/-- What is left to run was to run before. -/
theorem later_mem {statement : MountStatement} (found : state.calls[index]? = some (statement :: rest)) :
    statement ∈ state.calls.flatten ∧ ∀ other ∈ (state.calls.set index rest).flatten, other ∈ state.calls.flatten := by
  have perm := (flatten_set found).symm
  exact ⟨perm.subset List.mem_cons_self, fun other member => perm.subset (List.mem_cons_of_mem _ member)⟩

theorem rename_covers (protects : state.Protects origin) {bindings : List JsValue}
    (found : state.calls[index]? = some (.rename bindings :: rest)) :
    Covers origin (execute { state with calls := state.calls.set index rest } (.rename bindings)) := by
  obtain ⟨next, later⟩ := later_mem found
  have past := protects.past _ next
  have retains : Retains state.volume (MountStatement.run state.volume (.rename bindings)) := by
    refine settle_induction (.refl _) ?_
    intro after renamed
    cases outcome : executeRemoteRename state.volume bindings with
    | error failure =>
      rw [outcome] at renamed
      cases renamed
    | ok result =>
      rw [outcome] at renamed
      obtain ⟨call, parsed, ran⟩ := bind_eq_ok.mp outcome
      exact Rename.run_retains (past call parsed) (ran.trans (by rw [← Except.ok.inj renamed]))
  obtain ⟨counted, backed, holds, pasts, announced⟩ := protects.retained retains
  refine ⟨?_, backed, holds, fun other member => pasts other (later other member),
    fun sessionId member => announced sessionId (later _ member)⟩
  intro key kept open_
  have before := counted key kept open_
  have less := (flatten_set found).count_eq (MountStatement.lease (.decrementOpenCount key.1 key.2))
  rw [List.count_cons_of_ne (by simp)] at less
  unfold owed at before ⊢
  dsimp only [execute, pinned] at before ⊢
  rw [← less]
  exact before

theorem lease_covers (protects : state.Protects origin) {statement : LeaseStatement}
    (found : state.calls[index]? = some (.lease statement :: rest)) :
    Covers origin (execute { state with calls := state.calls.set index rest } (.lease statement)) := by
  obtain ⟨next, later⟩ := later_mem found
  have past := protects.past _ next
  have now : (statement.run state.volume).now = state.volume.now := statement.run_now state.volume
  refine ⟨?_, statement.run_backed state.volume past protects.backed, ?_, ?_,
    fun sessionId member => protects.announced sessionId (later _ member)⟩
  · intro key kept open_
    have before := protects.counted key kept open_
    have closed : statement ≠ .cleanupOpenSession key.1 := by
      rintro rfl
      exact open_ (protects.announced key.1 next)
    have ran := statement.run_openCount state.volume (protects.live key kept) past closed
    -- A decrement leaves what is to run as it leaves the row.
    have less := (flatten_set found).count_eq (MountStatement.lease (.decrementOpenCount key.1 key.2))
    rw [List.count_cons] at less
    unfold owed at before ⊢
    dsimp only [execute, MountStatement.run] at before ⊢
    rw [List.count_append]
    unfold LeaseStatement.unpinning at ran
    simp only [beq_iff_eq, MountStatement.lease.injEq] at less
    split at ran <;> rename_i named <;> simp only [named, if_true, if_false] at less <;> omega
  · intro ino stored
    obtain ⟨⟨_, data, symlink⟩, there⟩ := statement.run_holds state.volume past stored
    obtain ⟨_, data', symlink'⟩ := protects.holds ino there
    exact ⟨stored, data.trans data', symlink.trans symlink'⟩
  · intro other member
    have earlier := protects.past other (later other member)
    rw [← now] at earlier
    exact earlier

end Executed

theorem statement_covers (protects : state.Protects origin) (index : Nat) :
    Covers origin (state.apply (.statement index)) := by
  cases found : state.calls[index]? with
  | none =>
    simp only [apply, found]
    exact protects.toCovers
  | some call =>
    cases call with
    | nil =>
      simp only [apply, found]
      exact protects.toCovers
    | cons statement rest =>
      simp only [apply, found]
      cases statement with
      | rename bindings => exact rename_covers protects found
      | lease statement => exact lease_covers protects found

theorem apply_covers (action : MountAction) (protects : state.Protects origin) : Covers origin (state.apply action) := by
  cases action with
  | tick elapsed => exact tick_covers protects elapsed
  | start call => exact start_covers protects call
  | statement index => exact statement_covers protects index
  | abandon index => exact abandon_covers protects index
  | unlink path => exact protects.retained (settle_induction (.refl _) fun _ unlinked => AgentFS.unlink_retains unlinked)
  | rename oldPath newPath =>
    exact protects.retained (settle_induction (.refl _) fun _ renamed => AgentFS.rename_retains renamed)

theorem initial_protects (volume : Volume) : (initial volume).Protects volume := by
  refine ⟨⟨?_, ?_, ?_, ?_, ?_⟩, ?_⟩
  · exact fun key _ _ => le_refl (0 : Int)
  · intro row member
    cases member
  · exact fun ino stored => ⟨stored, rfl, rfl⟩
  · intro statement member
    cases member
  · intro sessionId member
    cases member
  · intro key _ row found
    cases found

theorem run_protects (volume : Volume) (actions : List MountAction) :
    (run step (initial volume) actions).Protects volume := by
  induction actions using List.reverseRecOn with
  | nil => exact initial_protects volume
  | append_singleton actions action ih =>
    rw [run, List.foldl_append]
    exact (apply_covers action ih).observe

/-- No statement of the lease code deletes an inode that has a link. -/
theorem run_linked (statement : LeaseStatement) {volume : Volume} {ino : Int} {row : InodeRow}
    (stored : volume.inode? ino = some row) (linked : 0 < row.nlink) : (statement.run volume).inode? ino = some row := by
  have counted : ¬row.nlink = 0 := by omega
  have kept : ∀ {selected : InodeRow → Bool}, selected row = false → (volume.deleteInodes selected).inode? ino = some row := by
    intro selected spared
    change (volume.inode.deleteWhere selected).find? ino = some row
    have there : volume.inode.find? ino = some row := stored
    rw [Table.find?_deleteWhere, there]
    simp [Option.filter, spared]
  cases statement with
  | pinOpenInode sessionId other expiresAt =>
    unfold LeaseStatement.run Remote.pinOpenInode
    dsimp only
    split
    · exact stored
    · exact stored
  | reapInode other read => exact kept (by simp [counted])
  | reapOrphanInodes => exact kept (by simp [counted])
  | _ => exact stored

/-- An inode with no link and no lease row. -/
def Orphaned (volume : Volume) (ino : Int) : Prop :=
  (volume.inode? ino).any (·.nlink = 0) = true ∧ ∀ lease ∈ volume.openInode.rows, lease.ino ≠ ino

instance (volume : Volume) (ino : Int) : Decidable (Orphaned volume ino) := inferInstanceAs (Decidable (_ ∧ _))

theorem reapOrphanInodes_orphaned {volume : Volume} {ino : Int} (orphaned : Orphaned volume ino) (apart : ino ≠ ROOT_INO) :
    (reapOrphanInodes volume).inode? ino = none ∧ ∀ row ∈ (reapOrphanInodes volume).data.rows, row.ino ≠ ino := by
  obtain ⟨unlinked, unleased⟩ := orphaned
  rw [Option.any_eq_true] at unlinked
  obtain ⟨row, stored, uncounted⟩ := unlinked
  have there : volume.inode.find? ino = some row := stored
  have numbered : row.ino = ino := volume.inode.find?_key there
  have chosen : (row.nlink = 0 ∧ row.ino ≠ ROOT_INO) ∧ ∀ lease ∈ volume.openInode.rows, lease.ino ≠ row.ino := by
    rw [numbered]
    exact ⟨⟨of_decide_eq_true uncounted, apart⟩, unleased⟩
  constructor
  · change (volume.inode.deleteWhere _).find? ino = none
    rw [Table.find?_deleteWhere, there]
    simpa [Option.filter] using chosen
  · intro data member same
    have kept := ((volume.data.mem_deleteWhere).mp member).2
    rw [List.any_eq_false] at kept
    refine kept row (volume.inode.find?_mem there) ?_
    simpa [numbered, same] using chosen

/-- In every run a session that keeps its lease finds what it pinned. Pins need an inode, the lease
code spares every linked inode, and a reap deletes what it finds orphaned apart from the root. -/
theorem openHandles (volume : Volume) (actions : List MountAction) :
    let state := run step (initial volume) actions
    (∀ sessionId ino, state.unpins.count (sessionId, ino) < state.pins.count (sessionId, ino) →
      sessionId ∉ state.cleaned → (sessionId, ino) ∉ state.lapsed → volume.Holds state.volume ino) ∧
    (∀ sessionId ino expiresAt volume', pin state.volume sessionId ino expiresAt = .ok volume' →
      (state.volume.inode? ino).isSome = true) ∧
    (∀ (statement : LeaseStatement) ino row, state.volume.inode? ino = some row → 0 < row.nlink →
      (statement.run state.volume).inode? ino = some row) ∧
    ∀ index rest ino, state.calls[index]? = some (.lease .reapOrphanInodes :: rest) → ino ≠ ROOT_INO →
      Orphaned state.volume ino → (state.step (.statement index)).volume.inode? ino = none ∧
        ∀ row ∈ (state.step (.statement index)).volume.data.rows, row.ino ≠ ino := by
  intro state
  have protects : state.Protects volume := run_protects volume actions
  refine ⟨?_, ?_, ?_, ?_⟩
  · intro sessionId ino more open_ kept
    have counted := protects.counted (sessionId, ino) kept open_
    have positive : 0 < state.volume.openCount (sessionId, ino) := by omega
    have leased := leased_of_openCount (protects.live (sessionId, ino) kept) positive
    obtain ⟨holder, row, found, _⟩ := (state.volume.leased_iff ino state.volume.now).mp leased
    have backed := protects.backed row (state.volume.openInode.find?_mem found)
    have keyed : row.key = (holder, ino) := state.volume.openInode.find?_key found
    rw [(Prod.mk.inj keyed).2] at backed
    exact protects.holds ino backed
  · exact fun _ _ _ _ succeeded => (pin_ok_iff.mp succeeded).1
  · exact fun statement ino row stored linked => run_linked statement stored linked
  · intro index rest ino found apart orphaned
    unfold step
    simp only [apply, found]
    exact reapOrphanInodes_orphaned orphaned apart

def completeReap : List MountAction := [.start .reapExpiredOpenInodes, .statement 0, .statement 0]

/-- A file, and two directories of the direct adapter. -/
def smallVolume : Volume :=
  (do
    let volume ← AgentFS.writeFile (.fresh 0) 4096 "/f".toList [1]
    let volume ← AgentFS.mkdir volume "/d".toList
    AgentFS.mkdir volume "/e".toList).toOption.getD (.fresh 0)

/-- An inode that was orphaned is pinned again before the reap, and the root has no link left
after a remote client moves a directory that the direct adapter made. -/
theorem completeReap_spares :
    (¬∀ (volume : Volume) (before between : List MountAction) (ino : Int), ino ≠ ROOT_INO →
      Orphaned (run step (initial volume) before).volume ino →
      (run step (initial volume) (before ++ between ++ completeReap)).volume.inode? ino = none) ∧
    ¬∀ (volume : Volume) (before : List MountAction), Orphaned (run step (initial volume) before).volume ROOT_INO →
      (run step (initial volume) (before ++ completeReap)).volume.inode? ROOT_INO = none := by
  constructor
  · intro deleted
    have gone := deleted smallVolume
      [.start (.pinOpenInode "s".toList 2 100), .statement 0, .unlink "/f".toList, .start (.unpinOpenInode "s".toList 2),
        .statement 0, .statement 0]
      [.start (.pinOpenInode "t".toList 2 100), .statement 0] 2 (by decide) (by decide +kernel)
    revert gone
    decide +kernel
  · intro deleted
    have gone := deleted smallVolume [.start (.rename 1 "d".toList 4 "d".toList 0), .statement 0] (by decide +kernel)
    revert gone
    decide +kernel

end MountSessions

end AiryFS
