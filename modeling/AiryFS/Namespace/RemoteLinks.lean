import AiryFS.Namespace.RemoteEffects

/-! The remote compound operations keep the ledger sound.

They give a new directory two links and count it in its parent, and a directory that
leaves a parent takes that count with it. A parent that the direct adapter never counted
up must therefore have a link to spare.
-/

set_option autoImplicit false

namespace AiryFS

open Foundation

namespace Remote

variable {volume volume' : Volume}

/-- `nlink` of a stored inode. -/
def linkCount (volume : Volume) (ino : Int) : Int := (volume.inode? ino).elim 0 (·.nlink)

theorem linkCount_of_stored {ino : Int} {row : InodeRow} (stored : volume.inode? ino = some row) :
    linkCount volume ino = row.nlink := by
  rw [linkCount, stored, Option.elim_some]

/-! ## Creating and linking -/

/-- A directory made in this parent finds it linked. -/
def CreateNode.Spared (call : CreateNode) (volume : Volume) : Prop :=
  call.kind = .mkdir → dentryExists volume call.parentIno call.name = false →
    directoryMode (inodeMode volume call.parentIno) = true → 1 ≤ linkCount volume call.parentIno

theorem CreateNode.row_counted (call : CreateNode) :
    if call.row.node.directory then 1 ≤ call.row.node.nlink else call.row.node.nlink = 1 := by
  unfold CreateNode.row
  split
  · simp [newRow, InodeRow.node]
  · split <;> simp [newRow, InodeRow.node]
  · simp [newRow, InodeRow.node]

theorem CreateNode.run_sound {call : CreateNode} {status : Int} (sound : volume.LinksSound)
    (spared : call.Spared volume) (done : call.run volume = .ok (status, volume')) : volume'.LinksSound := by
  rcases CreateNode.run_cases done with ⟨_, same⟩ | creates
  · rw [same]
    exact sound
  · have unlinked : volume.links status = 0 := by
      have fresh := Ledger.Sound.fresh sound (show volume.ledger.sequence < status by
        rw [creates.number, Volume.ledger_sequence]; omega)
      exact congrArg Account.links fresh.1
    have counted := Ledger.Sound.create sound creates.number call.row_counted
    unfold Volume.LinksSound
    rw [creates.ledger, unlinked]
    unfold CreateNode.countParent
    split
    · rename_i kind
      -- The parent was stored before, so it is not the new inode.
      obtain ⟨parent, stored, directory⟩ := directoryMode_some creates.parent
      have linked := spared kind creates.free creates.parent
      rw [linkCount_of_stored stored] at linked
      have apart : call.parentIno ≠ status := by
        intro same
        have absent := creates.fresh
        rw [← same, stored] at absent
        cases absent
      refine counted.recount ?_ linked (by omega)
      rw [Ledger.allocate_other _ apart]
      exact directory_node stored directory
    · exact counted

theorem Link.run_sound {call : Link} {status : Int} (sound : volume.LinksSound)
    (done : call.run volume = .ok (status, volume')) : volume'.LinksSound := by
  rcases Link.run_cases done with ⟨_, same⟩ | ⟨_, source, links⟩
  · rw [same]
    exact sound
  · have balanced := sound.balanced_some links.stored
    rw [links.file] at balanced
    unfold Volume.LinksSound
    rw [links.ledger]
    exact Ledger.Sound.set_stored sound (by simp [links.stored]) balanced.linked

/-! ## Renaming -/

/-- A directory about to change its place, or to replace another one, leaves every parent
whose count it moves with a link. -/
def Rename.Spared (call : Rename) (volume : Volume) : Prop :=
  ∀ source ∈ joined volume call.oldParentIno call.oldName,
    isDirectory source.mode = true → call.Proceeds volume source →
      if call.oldParentIno = call.newParentIno then
        (joined volume call.newParentIno call.newName).isSome = true → 2 ≤ linkCount volume call.oldParentIno
      else
        2 ≤ linkCount volume call.oldParentIno ∧
          ((joined volume call.newParentIno call.newName).isNone = true → 1 ≤ linkCount volume call.newParentIno)

/-- A replaced destination stays balanced, whether its row remains or goes. -/
theorem Rename.remains_sound {call : Rename} {destination : InodeRow} (sound : volume.LinksSound)
    (found : joined volume call.newParentIno call.newName = some destination) :
    (volume.ledger.set destination.ino
      ⟨call.remains volume destination, volume.links destination.ino - 1⟩).Sound := by
  obtain ⟨entry, placed, numbered, stored⟩ := joined_some found
  obtain ⟨_, links, _, linked⟩ := sound.entry placed
  rw [numbered] at linked
  have balanced := sound.balanced_some stored
  rw [linked] at balanced ⊢
  refine Ledger.Sound.set_stored sound (by simp [stored]) ?_
  rw [Nat.add_sub_cancel]
  unfold Rename.remains
  dsimp only
  cases directory : isDirectory destination.mode with
  | true =>
    rw [directory] at balanced
    obtain ⟨kept, gone⟩ := balanced.cleared
    simp only [if_true]
    split
    · exact gone
    · exact kept
  | false =>
    rw [directory] at balanced
    obtain ⟨kept, gone⟩ := balanced.unlinked (fun typed => by cases typed)
    simp only [Bool.false_eq_true, if_false]
    split
    · rename_i last
      exact gone (by simp only; omega)
    · exact kept

theorem Rename.run_sound {call : Rename} {status : Int} (sound : volume.LinksSound)
    (spared : call.Spared volume) (done : call.run volume = .ok (status, volume')) : volume'.LinksSound := by
  rcases Rename.run_cases done with same | ⟨source, _, moves⟩
  · rw [same]
    exact sound
  · have checked := spared source moves.sourced
    obtain ⟨oldParent, oldStored, oldDirectory⟩ := directoryMode_some moves.proceeds.oldParent
    obtain ⟨newParent, newStored, newDirectory⟩ := directoryMode_some moves.proceeds.newParent
    rw [linkCount_of_stored oldStored, linkCount_of_stored newStored] at checked
    unfold Volume.LinksSound
    rw [moves.ledger]
    unfold Rename.cleared Rename.countParents
    cases found : joined volume call.newParentIno call.newName with
    | none =>
      dsimp only
      split
      · rename_i crossing
        have spare := checked crossing.1 moves.proceeds
        rw [if_neg crossing.2, found] at spare
        have left := @Ledger.Sound.recount _ sound _ _ (· - 1) (directory_node oldStored oldDirectory) (by omega)
          (by omega)
        have linked := spare.2 rfl
        refine left.recount ?_ linked (by omega)
        rw [Ledger.recount_other _ (Ne.symm crossing.2)]
        exact directory_node newStored newDirectory
      · exact sound
    | some destination =>
      dsimp only
      obtain ⟨kinds, childless⟩ := replacementStatus_none (moves.proceeds.destination destination found).2
      have cleared := Rename.remains_sound sound found
      rw [Rename.replace_ledger found childless]
      unfold Rename.uncountParent
      rw [kinds]
      cases directory : isDirectory source.mode with
      | false =>
        simp only [Bool.false_eq_true, false_and, if_false]
        exact cleared
      | true =>
        -- A childless destination is neither parent.
        have empty := childless (by rw [kinds, directory])
        have spare := checked directory moves.proceeds
        rw [found] at spare
        simp only [if_true, true_and]
        by_cases crossing : call.oldParentIno = call.newParentIno
        · rw [if_pos crossing] at spare
          have counted := spare rfl
          rw [if_neg (by simpa using crossing)]
          refine cleared.recount ?_ (show 1 ≤ oldParent.nlink by omega) (by omega)
          rw [Ledger.set_other _ (parent_ne_childless found empty), ← crossing]
          exact directory_node oldStored oldDirectory
        · rw [if_neg crossing] at spare
          have counted := spare.1
          rw [if_pos crossing]
          -- The count the new parent lost with the old directory comes back with the new one.
          rw [Ledger.recount_comm _ (Ne.symm crossing), Ledger.recount_recount]
          have restored : ((· + 1) ∘ (· - 1) : Int → Int) = id := by
            funext count
            simp
          rw [restored, Ledger.recount_id]
          refine cleared.recount ?_ (show 1 ≤ oldParent.nlink by omega) (by omega)
          rw [Ledger.set_other _ (parent_ne_childless moves.sourced empty)]
          exact directory_node oldStored oldDirectory

/-! ## Leases -/

/-- Reaping takes inodes without a count, and those have no entries. -/
theorem deleteInodes_sound {selected : InodeRow → Bool} (sound : volume.LinksSound)
    (unlinked : ∀ row, selected row = true → row.nlink = 0 ∧ row.ino ≠ ROOT_INO) :
    (volume.deleteInodes selected).LinksSound := by
  have lookup : ∀ ino, (volume.deleteInodes selected).inode? ino =
      (volume.inode? ino).filter fun row => !selected row := by
    intro ino
    apply Option.ext
    intro row
    rw [Option.filter_eq_some_iff, Volume.inode?, Volume.inode?, Table.find?_eq_some_iff, Table.find?_eq_some_iff]
    simp [Volume.deleteInodes, and_right_comm]
  constructor
  · intro ino
    have balanced := Ledger.Sound.balanced sound ino
    cases stored : volume.inode? ino with
    | none =>
      have same : (volume.deleteInodes selected).ledger.account ino = volume.ledger.account ino := by
        simp [Volume.ledger, lookup, stored]
        rfl
      rw [same]
      exact balanced
    | some row =>
      have numbered : row.ino = ino := volume.inode.find?_key stored
      cases doomed : selected row with
      | false =>
        have same : (volume.deleteInodes selected).ledger.account ino = volume.ledger.account ino := by
          simp [Volume.ledger, lookup, stored, doomed]
          rfl
        rw [same]
        exact balanced
      | true =>
        obtain ⟨uncounted, apart⟩ := unlinked row doomed
        have gone : (volume.deleteInodes selected).ledger.account ino = ⟨none, volume.links ino⟩ := by
          simp [Volume.ledger, lookup, stored, doomed]
          rfl
        rw [gone]
        exact (sound.balanced_some stored).reaped (by rw [← numbered]; exact apart) uncounted
  · intro ino stored
    refine Ledger.Sound.numbered sound ino ?_
    intro absent
    rw [Volume.ledger_account_node, Option.map_eq_none_iff] at absent
    apply stored
    rw [Volume.ledger_account_node, lookup, absent]
    rfl

theorem LeaseStatement.run_sound (statement : LeaseStatement) (sound : volume.LinksSound) :
    (statement.run volume).LinksSound := by
  cases statement with
  | pinOpenInode sessionId ino expiresAt =>
    refine sound.congr ?_
    unfold LeaseStatement.run Remote.pinOpenInode
    dsimp only
    split <;> rfl
  | reapInode ino now =>
    refine deleteInodes_sound sound ?_
    intro row chosen
    simp only [Bool.and_eq_true, decide_eq_true_eq] at chosen
    obtain ⟨⟨⟨same, uncounted⟩, apart⟩, _⟩ := chosen
    exact ⟨uncounted, by rw [same]; exact apart⟩
  | reapOrphanInodes =>
    refine deleteInodes_sound sound ?_
    intro row chosen
    simp only [Bool.and_eq_true, decide_eq_true_eq] at chosen
    exact chosen.1
  | decrementOpenCount | deleteReleased | renewOpenLeases | cleanupOpenSession | deleteExpired =>
    exact sound.congr rfl

end Remote

end AiryFS
