import AiryFS.Direct.Children

/-! When a rename of the direct adapter succeeds.

The checks before the destination is looked at concern the two paths and the source alone. What is at
the destination then either refuses the rename or gives way to it.
-/

set_option autoImplicit false

namespace AiryFS

open Foundation

namespace AgentFS

open Volume

variable {volume volume' : Volume} {oldPath newPath oldName newName : Text} {oldParent newParent ino mode : Int}

/-- What a rename has found when it comes to its destination. -/
structure Attempts (volume : Volume) (oldPath newPath : Text) (oldParent : Int) (oldName : Text) (newParent : Int) (newName : Text)
    (ino mode : Int) : Prop where
  source : resolveParent volume oldPath = some (oldParent, oldName)
  target : resolveParent volume newPath = some (newParent, newName)
  held : volume.child oldParent oldName = some ino
  typed : getInodeMode volume ino = some mode
  outside : ¬(isDirectory mode = true ∧ (normalizePath oldPath ++ ['/']).isPrefixOf (normalizePath newPath) = true)

/-- What is at the destination stays there, and the rename fails. -/
def Refuses (volume : Volume) (destination mode : Int) : Prop :=
  match getInodeMode volume destination with
  | none => True
  | some kind => isDirectory kind ≠ isDirectory mode ∨ isDirectory kind = true ∧ volume.hasChildren destination = true

instance (volume : Volume) (destination mode : Int) : Decidable (Refuses volume destination mode) := by
  unfold Refuses
  cases getInodeMode volume destination with
  | none => exact isTrue trivial
  | some kind => exact inferInstanceAs (Decidable (_ ∨ _))

theorem not_root_of_parent {key : Int × Text} (parent : resolveParent volume oldPath = some key) : normalizePath oldPath ≠ ['/'] := by
  intro root
  obtain ⟨parts, spelled, _⟩ := resolveParent_eq_some.mp parent
  rw [← fields_normalizePath, root, fields_cons_sep, fields_nil] at spelled
  simp at spelled

/-- A rename that does anything attempts it, and gets through both statements. -/
theorem rename_attempts (different : normalizePath oldPath ≠ normalizePath newPath) (renamed : rename volume oldPath newPath = .ok volume') :
    ∃ oldParent oldName newParent newName ino mode,
      Attempts volume oldPath newPath oldParent oldName newParent newName ino mode ∧
      ∃ middle moved, clearDestination volume (normalizePath newPath) newParent newName (isDirectory mode) = .ok middle ∧
        middle.moveDentry newParent newName oldParent oldName = .ok moved := by
  unfold rename at renamed
  dsimp only at renamed
  rw [if_neg different] at renamed
  obtain ⟨_, _, renamed⟩ := bind_eq_ok.mp renamed
  obtain ⟨⟨oldParent, oldName⟩, source, renamed⟩ := bind_eq_ok.mp renamed
  obtain ⟨⟨newParent, newName⟩, target, renamed⟩ := bind_eq_ok.mp renamed
  obtain ⟨⟨_, ino⟩, resolved, renamed⟩ := bind_eq_ok.mp renamed
  obtain ⟨mode, typed, renamed⟩ := bind_eq_ok.mp renamed
  obtain ⟨_, outside, renamed⟩ := bind_eq_ok.mp renamed
  obtain ⟨middle, cleared, renamed⟩ := bind_eq_ok.mp renamed
  obtain ⟨moved, ran, _⟩ := bind_eq_ok.mp renamed
  rw [required_eq_ok] at source target typed
  rw [resolveParent_normalizePath] at source target
  rw [refuse_eq_ok] at outside
  have held := (resolvePathOrThrow_ok resolved).2
  rw [resolvePath_normalizePath, resolvePath_of_parent source] at held
  exact ⟨oldParent, oldName, newParent, newName, ino, mode, ⟨source, target, held, typed, outside⟩, middle, moved, cleared, ran⟩

/-- The other way round, the two statements are all that is left to fail. -/
theorem Attempts.renames {middle moved : Volume} (attempts : Attempts volume oldPath newPath oldParent oldName newParent newName ino mode)
    (cleared : clearDestination volume (normalizePath newPath) newParent newName (isDirectory mode) = .ok middle)
    (ran : middle.moveDentry newParent newName oldParent oldName = .ok moved) :
    ∃ volume', rename volume oldPath newPath = .ok volume' := by
  have here : resolvePath volume (normalizePath oldPath) = some ino := by
    rw [resolvePath_normalizePath, resolvePath_of_parent attempts.source]
    exact attempts.held
  unfold rename
  dsimp only
  split
  · exact ⟨_, rfl⟩
  · rw [refuse_of_not (by rintro (root | root); exacts [not_root_of_parent attempts.source root, not_root_of_parent attempts.target root]),
      resolveParent_normalizePath, attempts.source, resolveParent_normalizePath, attempts.target, resolvePathOrThrow_of_resolved here]
    simp only [required, ok_bind, attempts.typed]
    rw [refuse_of_not attempts.outside, ok_bind, cleared, ok_bind, ran, ok_bind]
    split
    · exact ⟨_, rfl⟩
    · exact ⟨_, rfl⟩

theorem Attempts.destination (attempts : Attempts volume oldPath newPath oldParent oldName newParent newName ino mode) :
    resolvePath volume (normalizePath newPath) = volume.child newParent newName := by
  rw [resolvePath_normalizePath, resolvePath_of_parent attempts.target]
  rfl

/-- An entry moves to a key that is free. -/
theorem moveDentry_free (free : volume.child newParent newName = none) :
    ∃ moved, volume.moveDentry newParent newName oldParent oldName = .ok moved := by
  unfold moveDentry
  cases listed : volume.dentry? oldParent oldName with
  | none => exact ⟨_, rfl⟩
  | some old =>
    have keyed : ∀ entry ∈ volume.dentry.rows, entry.key = (oldParent, oldName) →
        DentryRow.key { entry with parentIno := newParent, name := newName } = (newParent, newName) := fun _ _ _ => rfl
    obtain ⟨dentry, updated⟩ := volume.dentry.update?_of_absent keyed (Option.map_eq_none_iff.mp free)
    dsimp only
    rw [updated]
    exact ⟨_, rfl⟩

/-- No entry moves to a key that another has. -/
theorem moveDentry_taken {destination : Int} (found : volume.child oldParent oldName = some ino)
    (taken : volume.child newParent newName = some destination) (apart : ¬(oldParent = newParent ∧ oldName = newName)) :
    ∀ moved, volume.moveDentry newParent newName oldParent oldName ≠ .ok moved := by
  intro moved ran
  obtain ⟨table, feed, updated, -⟩ := moveDentry_ok volume ran
  rw [child, Option.map_eq_some_iff] at found taken
  obtain ⟨row, found, -⟩ := found
  obtain ⟨other, taken, -⟩ := taken
  have rows := volume.dentry.update?_eq_some_iff.mp updated
  have rowKey : row.key = (oldParent, oldName) := volume.dentry.find?_key found
  have otherKey : other.key = (newParent, newName) := volume.dentry.find?_key taken
  -- The keys of the new table are those of the old one, but for the entry that moves.
  have again : (volume.dentry.rows.map fun entry =>
      if entry.key = (oldParent, oldName) then (newParent, newName) else entry.key).Nodup := by
    have unique := table.unique
    rw [rows, List.map_map] at unique
    refine (congrArg List.Nodup (List.map_congr_left ?_)).mp unique
    intro entry _
    simp only [Function.comp_apply, decide_eq_true_eq]
    split <;> rfl
  have same := List.inj_on_of_nodup_map again (volume.dentry.find?_mem found) (volume.dentry.find?_mem taken)
    (by rw [if_pos rowKey, otherKey]; split <;> rfl)
  rw [same, otherKey, Prod.mk.injEq] at rowKey
  exact apart ⟨rowKey.1.symm, rowKey.2.symm⟩

/-! ## The destination -/

/-- Nothing at the destination: the rename succeeds. -/
theorem Attempts.renames_free (attempts : Attempts volume oldPath newPath oldParent oldName newParent newName ino mode)
    (free : volume.child newParent newName = none) : ∃ volume', rename volume oldPath newPath = .ok volume' := by
  have cleared : clearDestination volume (normalizePath newPath) newParent newName (isDirectory mode) = .ok volume := by
    unfold clearDestination
    rw [attempts.destination, free]
    rfl
  obtain ⟨moved, ran⟩ := moveDentry_free free
  exact attempts.renames cleared ran

/-- Something that does not refuse is replaced. -/
theorem Attempts.replaces (attempts : Attempts volume oldPath newPath oldParent oldName newParent newName ino mode) {destination : Int}
    (taken : volume.child newParent newName = some destination) (open_ : ¬Refuses volume destination mode) :
    ∃ volume', rename volume oldPath newPath = .ok volume' := by
  unfold Refuses at open_
  split at open_
  · exact absurd trivial open_
  · rename_i kind stored
    rw [not_or, not_and] at open_
    have same : isDirectory kind = isDirectory mode := not_not.mp open_.1
    have cleared : clearDestination volume (normalizePath newPath) newParent newName (isDirectory mode) =
        .ok (removeDentryAndMaybeInode volume newParent newName destination) := by
      unfold clearDestination
      rw [attempts.destination, taken]
      dsimp only
      rw [stored]
      dsimp only
      rw [refuse_of_not (by rw [same]; simp), ok_bind, refuse_of_not (by rw [same]; simp), ok_bind,
        refuse_of_not (fun full => open_.2 full.1 full.2), ok_bind]
      rfl
    have free : (removeDentryAndMaybeInode volume newParent newName destination).child newParent newName = none := by
      rw [child_removed, if_pos ⟨rfl, rfl⟩]
    obtain ⟨moved, ran⟩ := moveDentry_free free
    exact attempts.renames cleared ran

/-- Something that refuses does. -/
theorem Attempts.refused (attempts : Attempts volume oldPath newPath oldParent oldName newParent newName ino mode) {destination : Int}
    (taken : volume.child newParent newName = some destination) (refuses : Refuses volume destination mode)
    (different : normalizePath oldPath ≠ normalizePath newPath) : ∀ volume', rename volume oldPath newPath ≠ .ok volume' := by
  intro volume' renamed
  obtain ⟨oldParent', oldName', newParent', newName', ino', mode', attempts', middle, moved, cleared, ran⟩ :=
    rename_attempts different renamed
  have source := attempts.source.symm.trans attempts'.source
  have target := attempts.target.symm.trans attempts'.target
  rw [Option.some.injEq, Prod.mk.injEq] at source target
  obtain ⟨⟨rfl, rfl⟩, rfl, rfl⟩ := And.intro source target
  obtain rfl := Option.some.inj (attempts.held.symm.trans attempts'.held)
  obtain rfl := Option.some.inj (attempts.typed.symm.trans attempts'.typed)
  unfold clearDestination at cleared
  rw [attempts.destination, taken] at cleared
  dsimp only at cleared
  unfold Refuses at refuses
  cases stored : getInodeMode volume destination with
  | none =>
    -- An entry without an inode is not cleared, and keeps its key.
    rw [stored] at cleared
    obtain rfl := pure_eq_ok.mp cleared
    refine moveDentry_taken attempts.held taken ?_ moved ran
    rintro ⟨rfl, rfl⟩
    obtain rfl := Option.some.inj (attempts.held.symm.trans taken)
    exact absurd (stored.symm.trans attempts.typed) (by simp)
  | some kind =>
    rw [stored] at cleared refuses
    dsimp only at cleared refuses
    obtain ⟨_, directory, cleared⟩ := bind_eq_ok.mp cleared
    obtain ⟨_, file, cleared⟩ := bind_eq_ok.mp cleared
    obtain ⟨_, full, _⟩ := bind_eq_ok.mp cleared
    rw [refuse_eq_ok] at directory file full
    rcases refuses with unlike | held
    · cases first : isDirectory kind <;> cases second : isDirectory mode <;> simp_all
    · exact full held

end AgentFS

end AiryFS
