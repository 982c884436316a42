import AiryFS.Remote.Compound
import AiryFS.Direct.AgentFS

/-! What the writers and the lease statements keep of an inode that a live handle leases.

A lease row goes when its inode goes, and an inode goes only when no row leases it at that
time. Nothing here writes contents, so what an inode that is still there holds is what it held.
-/

set_option autoImplicit false

namespace AiryFS

open Foundation

namespace Volume

variable {before middle after : Volume}

theorem leased_iff (volume : Volume) (ino now : Int) : volume.leased ino now = true ↔
    ∃ sessionId row, volume.openInode.find? (sessionId, ino) = some row ∧ 0 < row.openCount ∧ now < row.expiresAt := by
  rw [leased, List.any_eq_true]
  constructor
  · rintro ⟨row, member, holds⟩
    simp only [Bool.and_eq_true, decide_eq_true_eq] at holds
    obtain ⟨⟨same, open_⟩, live⟩ := holds
    refine ⟨row.sessionId, row, ?_, open_, live⟩
    rw [← same]
    exact volume.openInode.find?_of_mem member
  · rintro ⟨sessionId, row, found, open_, live⟩
    have key : row.key = (sessionId, ino) := volume.openInode.find?_key found
    refine ⟨row, volume.openInode.find?_mem found, ?_⟩
    simp only [Bool.and_eq_true, decide_eq_true_eq]
    exact ⟨⟨(Prod.mk.inj key).2, open_⟩, live⟩

/-- A lease that is unexpired later is unexpired earlier. -/
theorem leased_earlier {volume : Volume} {ino now earlier : Int} (past : earlier ≤ now)
    (leased : volume.leased ino now = true) : volume.leased ino earlier = true := by
  obtain ⟨sessionId, row, found, open_, live⟩ := (volume.leased_iff ino now).mp leased
  exact (volume.leased_iff ino earlier).mpr ⟨sessionId, row, found, open_, lt_of_le_of_lt past live⟩

/-- Leases go only with inodes that are not leased, and inodes take their leases with them. -/
structure Retains (before after : Volume) : Prop where
  clock : after.clock = before.clock
  leases : ∀ key : Text × Int, after.openInode.find? key = before.openInode.find? key ∨
    after.openInode.find? key = none ∧ before.leased key.2 before.now = false
  backed : (∀ row ∈ before.openInode.rows, (before.inode? row.ino).isSome = true) →
    ∀ row ∈ after.openInode.rows, (after.inode? row.ino).isSome = true
  contents : ∀ ino, (after.inode? ino).isSome = true → (before.inode? ino).isSome = true ∧
    after.data.rows.filter (fun row => row.ino = ino) = before.data.rows.filter (fun row => row.ino = ino) ∧
    after.symlink.find? ino = before.symlink.find? ino

namespace Retains

theorem refl (volume : Volume) : Retains volume volume := ⟨rfl, fun _ => .inl rfl, id, fun _ stored => ⟨stored, rfl, rfl⟩⟩

theorem now (retains : Retains before after) : after.now = before.now := by
  rw [Volume.now, retains.clock, Volume.now]

/-- What leases an inode now leases it afterwards. -/
theorem leased (retains : Retains before after) {ino : Int} (held : before.leased ino before.now = true) :
    after.leased ino after.now = true := by
  obtain ⟨sessionId, row, found, open_, live⟩ := (before.leased_iff ino before.now).mp held
  refine (after.leased_iff ino after.now).mpr ⟨sessionId, row, ?_, open_, by rw [retains.now]; exact live⟩
  rcases retains.leases (sessionId, ino) with same | ⟨_, free⟩
  · rw [same, found]
  · rw [held] at free
    cases free

theorem trans (first : Retains before middle) (second : Retains middle after) : Retains before after := by
  refine ⟨second.clock.trans first.clock, ?_, fun backed => second.backed (first.backed backed), ?_⟩
  · intro key
    rcases second.leases key with same | ⟨gone, free⟩
    · rw [same]
      exact first.leases key
    · right
      refine ⟨gone, ?_⟩
      by_contra held
      rw [Bool.not_eq_false] at held
      rw [first.leased held] at free
      cases free
  · intro ino stored
    obtain ⟨there, data, target⟩ := second.contents ino stored
    obtain ⟨here, data', target'⟩ := first.contents ino there
    exact ⟨here, data.trans data', target.trans target'⟩

/-- Statements on other tables, and on columns of the inodes. -/
theorem of_same (clock : after.clock = before.clock) (openInode : after.openInode = before.openInode)
    (data : after.data = before.data) (symlink : after.symlink = before.symlink)
    (inodes : ∀ ino, (after.inode? ino).isSome = (before.inode? ino).isSome) : Retains before after := by
  refine ⟨clock, fun key => .inl (by rw [openInode]), ?_, ?_⟩
  · intro backed row member
    rw [openInode] at member
    rw [inodes]
    exact backed row member
  · intro ino stored
    rw [inodes] at stored
    exact ⟨stored, by rw [data], by rw [symlink]⟩

theorem updateInode (volume : Volume) (ino : Int) (change : InodeRow → InodeRow) :
    Retains volume (volume.updateInode ino change) := by
  refine of_same rfl rfl rfl rfl ?_
  intro other
  rw [inode?_updateInode, Option.isSome_map]

theorem modifyInode (volume : Volume) (ino : Int) (change : InodeRow → InodeRow) :
    Retains volume (volume.modifyInode ino change) := by
  refine of_same (by simp) (by simp) (by simp) (by simp) ?_
  intro other
  rw [inode?_modifyInode, inode?_updateInode, Option.isSome_map]

theorem deleteDentry (volume : Volume) (parentIno : Int) (name : Text) :
    Retains volume (volume.deleteDentry parentIno name) := by
  obtain ⟨feed, same⟩ := volume.deleteDentry_eq parentIno name
  rw [same]
  exact of_same rfl rfl rfl rfl fun _ => rfl

theorem moveDentry {volume volume' : Volume} {newParentIno oldParentIno : Int} {newName oldName : Text}
    (moved : volume.moveDentry newParentIno newName oldParentIno oldName = .ok volume') : Retains volume volume' := by
  obtain ⟨dentry, feed, _, rfl⟩ := volume.moveDentry_ok moved
  exact of_same rfl rfl rfl rfl fun _ => rfl

/-- Deleting inodes that nothing leases. -/
theorem deleteInodes (volume : Volume) {selected : InodeRow → Bool}
    (free : ∀ row ∈ volume.inode.rows, selected row = true → volume.leased row.ino volume.now = false) :
    Retains volume (volume.deleteInodes selected) := by
  let removed (ino : Int) : Bool := volume.inode.rows.any fun row => row.ino = ino && selected row
  have removed_iff : ∀ ino, removed ino = true ↔ ∃ row, volume.inode? ino = some row ∧ selected row = true := by
    intro ino
    simp only [removed, List.any_eq_true, Bool.and_eq_true, decide_eq_true_eq]
    constructor
    · rintro ⟨row, member, same, chosen⟩
      exact ⟨row, by rw [← same]; exact volume.inode.find?_of_mem member, chosen⟩
    · rintro ⟨row, found, chosen⟩
      exact ⟨row, volume.inode.find?_mem found, volume.inode.find?_key found, chosen⟩
  have stays : ∀ ino, ((volume.deleteInodes selected).inode? ino).isSome = true ↔
      (volume.inode? ino).isSome = true ∧ removed ino = false := by
    intro ino
    have filtered : (volume.deleteInodes selected).inode? ino = (volume.inode? ino).filter fun row => !selected row :=
      volume.inode.find?_deleteWhere selected ino
    rw [filtered, Bool.eq_false_iff, Ne, removed_iff]
    cases volume.inode? ino with
    | none => simp
    | some row => simp
  refine ⟨rfl, ?_, ?_, ?_⟩
  · intro key
    have filtered : (volume.deleteInodes selected).openInode.find? key =
        (volume.openInode.find? key).filter fun row => !removed row.ino := volume.openInode.find?_deleteWhere _ key
    rw [filtered]
    cases found : volume.openInode.find? key with
    | none => exact .inl rfl
    | some lease =>
      have keyed : lease.key = key := volume.openInode.find?_key found
      have ino : lease.ino = key.2 := congrArg Prod.snd keyed
      cases gone : removed lease.ino with
      | false => exact .inl (by simp [gone])
      | true =>
        obtain ⟨row, stored, chosen⟩ := (removed_iff lease.ino).mp gone
        have apart := free row (volume.inode.find?_mem stored) chosen
        have numbered : row.ino = lease.ino := volume.inode.find?_key stored
        rw [numbered, ino] at apart
        exact .inr ⟨by simp [gone], apart⟩
  · intro backed lease member
    obtain ⟨old, kept⟩ := (Table.mem_deleteWhere _).mp member
    exact (stays lease.ino).mpr ⟨backed lease old, kept⟩
  · intro ino stored
    obtain ⟨there, kept⟩ := (stays ino).mp stored
    refine ⟨there, ?_, ?_⟩
    · change (volume.data.rows.filter fun row => !removed row.ino).filter (fun row => row.ino = ino) = _
      rw [List.filter_filter]
      apply List.filter_congr
      intro row _
      by_cases same : row.ino = ino
      · rw [same, kept]
        simp
      · simp [same]
    · have filtered : (volume.deleteInodes selected).symlink.find? ino =
          (volume.symlink.find? ino).filter fun row => !removed row.ino := volume.symlink.find?_deleteWhere _ ino
      rw [filtered]
      cases found : volume.symlink.find? ino with
      | none => rfl
      | some row =>
        have numbered : row.ino = ino := volume.symlink.find?_key found
        simp [numbered, kept]

theorem deleteInode (volume : Volume) {ino : Int} (free : volume.leased ino volume.now = false) :
    Retains volume (volume.deleteInode ino) := by
  refine deleteInodes volume ?_
  intro row _ chosen
  rw [of_decide_eq_true chosen]
  exact free

end Retains

end Volume

open Volume

/-! ## The direct adapter -/

namespace AgentFS

theorem removeDentryAndMaybeInode_retains (volume : Volume) (parentIno : Int) (name : Text) (ino : Int) :
    Retains volume (removeDentryAndMaybeInode volume parentIno name ino) := by
  have unlinked := (Retains.deleteDentry volume parentIno name).trans
    (Retains.updateInode _ ino fun row => { row with nlink := row.nlink - 1 })
  unfold removeDentryAndMaybeInode
  dsimp only
  split
  · rename_i orphan
    exact unlinked.trans (Retains.deleteInode _ (by simpa [hasActiveLease] using orphan.2))
  · exact unlinked

theorem unlink_retains {volume volume' : Volume} {path : Text} (unlinked : unlink volume path = .ok volume') :
    Retains volume volume' := by
  unfold unlink at unlinked
  obtain ⟨_, _, unlinked⟩ := bind_eq_ok.mp unlinked
  obtain ⟨_, _, unlinked⟩ := bind_eq_ok.mp unlinked
  obtain ⟨_, _, unlinked⟩ := bind_eq_ok.mp unlinked
  obtain ⟨_, _, unlinked⟩ := bind_eq_ok.mp unlinked
  rw [← pure_eq_ok.mp unlinked]
  exact removeDentryAndMaybeInode_retains _ _ _ _

theorem clearDestination_retains {volume volume' : Volume} {newNormalized newName : Text} {newParentIno : Int} {oldIsDir : Bool}
    (cleared : clearDestination volume newNormalized newParentIno newName oldIsDir = .ok volume') :
    Retains volume volume' := by
  unfold clearDestination at cleared
  split at cleared
  · rw [← pure_eq_ok.mp cleared]
    exact .refl volume
  · split at cleared
    · rw [← pure_eq_ok.mp cleared]
      exact .refl volume
    · obtain ⟨_, _, cleared⟩ := bind_eq_ok.mp cleared
      obtain ⟨_, _, cleared⟩ := bind_eq_ok.mp cleared
      obtain ⟨_, _, cleared⟩ := bind_eq_ok.mp cleared
      rw [← pure_eq_ok.mp cleared]
      exact removeDentryAndMaybeInode_retains _ _ _ _

theorem rename_retains {volume volume' : Volume} {oldPath newPath : Text} (renamed : rename volume oldPath newPath = .ok volume') :
    Retains volume volume' := by
  unfold rename at renamed
  dsimp only at renamed
  split at renamed
  · rw [← pure_eq_ok.mp renamed]
    exact .refl volume
  · obtain ⟨_, _, renamed⟩ := bind_eq_ok.mp renamed
    obtain ⟨_, _, renamed⟩ := bind_eq_ok.mp renamed
    obtain ⟨_, _, renamed⟩ := bind_eq_ok.mp renamed
    obtain ⟨_, _, renamed⟩ := bind_eq_ok.mp renamed
    obtain ⟨_, _, renamed⟩ := bind_eq_ok.mp renamed
    obtain ⟨_, _, renamed⟩ := bind_eq_ok.mp renamed
    obtain ⟨cleared, clear, renamed⟩ := bind_eq_ok.mp renamed
    obtain ⟨moved, move, renamed⟩ := bind_eq_ok.mp renamed
    have base := (clearDestination_retains clear).trans (Retains.moveDentry move)
    split at renamed
    · rw [← pure_eq_ok.mp renamed]
      exact ((base.trans (Retains.updateInode _ _ _)).trans (Retains.modifyInode _ _ _)).trans (Retains.modifyInode _ _ _)
    · rw [← pure_eq_ok.mp renamed]
      exact (base.trans (Retains.updateInode _ _ _)).trans (Retains.modifyInode _ _ _)

end AgentFS

/-! ## The remote rename -/

namespace Remote

theorem Rename.replace_retains (call : Rename) (volume : Volume) (destination : InodeRow) (past : call.nowSecs ≤ volume.now) :
    Retains volume (call.replace volume destination) := by
  have entry := Retains.deleteDentry volume call.newParentIno call.newName
  have counted : Retains volume (if isDirectory destination.mode then
      (((volume.deleteDentry call.newParentIno call.newName).updateInode destination.ino fun row => { row with
        nlink := 0, ctime := call.nowSecs, ctimeNsec := call.nowNsecs }).updateInode call.newParentIno fun row =>
          { row with nlink := row.nlink - 1 })
      else (volume.deleteDentry call.newParentIno call.newName).updateInode destination.ino fun row => { row with
        nlink := row.nlink - 1, ctime := call.nowSecs, ctimeNsec := call.nowNsecs }) := by
    split
    · exact (entry.trans (Retains.updateInode _ _ _)).trans (Retains.updateInode _ _ _)
    · exact entry.trans (Retains.updateInode _ _ _)
  unfold Rename.replace
  dsimp only
  generalize (if isDirectory destination.mode then _ else _ : Volume) = between at counted ⊢
  split
  · rename_i orphan
    refine counted.trans (Retains.deleteInode _ ?_)
    -- The time of the request is not ahead of the clock.
    by_contra held
    rw [Bool.not_eq_false, counted.now] at held
    exact orphan.2 (leased_earlier past held)
  · exact counted

theorem Rename.move_retains {call : Rename} {volume volume' : Volume} {source : InodeRow} {status : Int}
    (moved : call.move volume source = .ok (status, volume')) : Retains volume volume' := by
  unfold Rename.move at moved
  obtain ⟨entry, move, moved⟩ := bind_eq_ok.mp moved
  have base := Retains.moveDentry move
  have counted : Retains volume (if isDirectory source.mode ∧ call.oldParentIno ≠ call.newParentIno then
      (entry.updateInode call.oldParentIno fun row => { row with nlink := row.nlink - 1 }).updateInode call.newParentIno
        fun row => { row with nlink := row.nlink + 1 }
      else entry) := by
    split
    · exact (base.trans (Retains.updateInode _ _ _)).trans (Retains.updateInode _ _ _)
    · exact base
  have touched := (counted.trans (Retains.updateInode _ source.ino fun row => { row with
    ctime := call.nowSecs, ctimeNsec := call.nowNsecs })).trans (Retains.modifyInode _ call.oldParentIno fun row => { row with
      ctime := call.nowSecs, mtime := call.nowSecs, ctimeNsec := call.nowNsecs, mtimeNsec := call.nowNsecs })
  obtain ⟨_, rfl⟩ := Prod.mk.inj (pure_eq_ok.mp moved)
  dsimp only
  split
  · exact touched.trans (Retains.modifyInode _ _ _)
  · exact touched

theorem Rename.run_retains {call : Rename} {volume volume' : Volume} {status : Int} (past : call.nowSecs ≤ volume.now)
    (renamed : call.run volume = .ok (status, volume')) : Retains volume volume' := by
  have unchanged : ∀ {code : Int}, (pure (code, volume) : Except Failure (Int × Volume)) = .ok (status, volume') →
      Retains volume volume' := by
    intro code returned
    obtain ⟨_, rfl⟩ := Prod.mk.inj (pure_eq_ok.mp returned)
    exact .refl volume
  unfold Rename.run at renamed
  split at renamed
  · exact unchanged renamed
  · split at renamed
    · exact unchanged renamed
    · split at renamed
      · exact unchanged renamed
      · split at renamed
        · exact unchanged renamed
        · split at renamed
          · exact unchanged renamed
          · split at renamed
            · exact move_retains renamed
            · split at renamed
              · exact unchanged renamed
              · split at renamed
                · exact unchanged renamed
                · exact (call.replace_retains volume _ past).trans (move_retains renamed)

end Remote

end AiryFS
