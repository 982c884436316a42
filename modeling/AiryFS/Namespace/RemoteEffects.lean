import AiryFS.Namespace.Ledger

/-! What each remote compound operation does, stated once.

A call either answers with a status and changes nothing, or passes every check and rewrites
the entries and the ledger in the way its record below says.
-/

set_option autoImplicit false

namespace AiryFS

open Foundation

namespace Remote

variable {volume volume' : Volume}

/-! ## Lookups -/

theorem touchTimes_ledger (volume : Volume) (ino nowSecs nowNsecs : Int) :
    (touchTimes volume ino nowSecs nowNsecs).ledger = volume.ledger :=
  volume.ledger_modifyInode_same fun _ => rfl

theorem directoryMode_some {ino : Int} (directory : directoryMode (inodeMode volume ino) = true) :
    ∃ row, volume.inode? ino = some row ∧ isDirectory row.mode = true := by
  rw [directoryMode, inodeMode, Option.any_map, Option.any_eq_true] at directory
  exact directory

theorem directory_node {ino : Int} {row : InodeRow} (stored : volume.inode? ino = some row)
    (directory : isDirectory row.mode = true) :
    (volume.ledger.account ino).node = some ⟨true, row.nlink⟩ := by
  rw [Volume.ledger_account_node, stored, Option.map_some, InodeRow.node, directory]

theorem joined_some {parentIno : Int} {name : Text} {row : InodeRow} (found : joined volume parentIno name = some row) :
    ∃ entry, volume.dentry? parentIno name = some entry ∧ entry.ino = row.ino ∧
      volume.inode? row.ino = some row := by
  obtain ⟨entry, placed, stored⟩ := Option.bind_eq_some_iff.mp found
  have numbered : row.ino = entry.ino := volume.inode.find?_key stored
  exact ⟨entry, placed, numbered.symm, by rw [numbered]; exact stored⟩

theorem hasChildren_of_dentry {parentIno : Int} {name : Text} {entry : DentryRow}
    (found : volume.dentry? parentIno name = some entry) : volume.hasChildren parentIno = true := by
  have key := volume.dentry.find?_key found
  rw [DentryRow.key, Prod.mk.injEq] at key
  exact List.any_eq_true.mpr ⟨entry, volume.dentry.find?_mem found, by simpa using key.1⟩

/-- An inode without children is not the parent of an entry. -/
theorem parent_ne_childless {parentIno childless : Int} {name : Text} {row : InodeRow}
    (found : joined volume parentIno name = some row) (empty : volume.hasChildren childless = false) :
    parentIno ≠ childless := by
  intro same
  obtain ⟨entry, placed, _⟩ := joined_some found
  rw [← same, hasChildren_of_dentry placed] at empty
  cases empty

/-! ## Creating -/

theorem insertTarget_ledger {ino : Int} {kind : NodeKind} (inserted : insertTarget volume ino kind = .ok volume') :
    volume'.ledger = volume.ledger := by
  cases kind with
  | symlink target => exact volume.ledger_insertSymlink inserted
  | mkdir => rw [pure_eq_ok.mp inserted]
  | mknod => rw [pure_eq_ok.mp inserted]

theorem insertTarget_dentry {ino : Int} {kind : NodeKind} (inserted : insertTarget volume ino kind = .ok volume') :
    volume'.dentry = volume.dentry := by
  cases kind with
  | symlink target =>
    change volume.insertSymlink ino target = .ok volume' at inserted
    unfold Volume.insertSymlink at inserted
    split at inserted
    · cases inserted
    · rw [← Except.ok.inj inserted]
  | mkdir => rw [pure_eq_ok.mp inserted]
  | mknod => rw [pure_eq_ok.mp inserted]

/-- The parent counts a new directory, and nothing else. -/
def CreateNode.countParent (call : CreateNode) (ledger : Ledger) : Ledger :=
  if call.kind = .mkdir then ledger.recount call.parentIno (· + 1) else ledger

theorem CreateNode.finish_ledger (call : CreateNode) (volume : Volume) :
    (call.finish volume).ledger = call.countParent volume.ledger := by
  unfold CreateNode.finish CreateNode.countParent
  split
  · rename_i kind
    rw [if_pos kind, Volume.ledger_modifyInode]
    exact @Volume.ledger_recount volume call.parentIno _ (· + 1) fun _ => rfl
  · rename_i other
    rw [if_neg other]
    exact touchTimes_ledger volume _ _ _

theorem CreateNode.finish_dentry (call : CreateNode) (volume : Volume) :
    (call.finish volume).dentry = volume.dentry := by
  unfold CreateNode.finish
  split
  · exact volume.modifyInode_dentry _ _
  · exact volume.modifyInode_dentry _ _

structure CreateNode.Creates (call : CreateNode) (volume : Volume) (ino : Int) (volume' : Volume) : Prop where
  free : dentryExists volume call.parentIno call.name = false
  parent : directoryMode (inodeMode volume call.parentIno) = true
  number : ino = volume.inodeSequence + 1
  fresh : volume.inode? ino = none
  entries : volume'.dentry.rows = volume.dentry.rows ++ [⟨call.name, call.parentIno, ino⟩]
  ledger : volume'.ledger = call.countParent
    (volume.ledger.allocate ino ⟨some call.row.node, volume.links ino + 1⟩)

theorem CreateNode.run_cases {call : CreateNode} {status : Int} (done : call.run volume = .ok (status, volume')) :
    (status ≤ 0 ∧ volume' = volume) ∨ call.Creates volume status volume' := by
  unfold CreateNode.run at done
  split at done
  · rw [pure_eq_ok, Prod.mk.injEq] at done
    exact .inl ⟨by omega, done.2.symm⟩
  · rename_i free
    split at done
    · rw [pure_eq_ok, Prod.mk.injEq] at done
      exact .inl ⟨by omega, done.2.symm⟩
    · rename_i parented
      obtain ⟨⟨ino, stored⟩, inserted, done⟩ := bind_eq_ok.mp done
      obtain ⟨_, _, done⟩ := bind_eq_ok.mp done
      obtain ⟨entered, placed, done⟩ := bind_eq_ok.mp done
      obtain ⟨target, targeted, returned⟩ := bind_eq_ok.mp done
      rw [pure_eq_ok, Prod.mk.injEq] at returned
      obtain ⟨same, result⟩ := returned
      rw [← same, ← result]
      obtain ⟨number, fresh, inode, _, kept⟩ := volume.insertInode_ok inserted
      obtain ⟨dentry, feed, appended, entered_eq⟩ := stored.insertDentry_ok placed
      right
      refine ⟨by simpa using free, by simpa using parented, number, fresh, ?_, ?_⟩
      · rw [call.finish_dentry, insertTarget_dentry targeted, entered_eq]
        rw [(stored.dentry.insert?_eq_some_iff.mp appended).2, kept]
      · rw [call.finish_ledger, insertTarget_ledger targeted, (volume.ledger_created inserted placed).1]

/-! ## Linking -/

structure Link.Links (call : Link) (volume : Volume) (source : InodeRow) (volume' : Volume) : Prop where
  stored : volume.inode? call.sourceIno = some source
  file : isDirectory source.mode = false
  parent : directoryMode (inodeMode volume call.parentIno) = true
  placed : ∃ entered, volume.insertDentry ⟨call.name, call.parentIno, call.sourceIno⟩ = .ok entered
  entries : volume'.dentry.rows = volume.dentry.rows ++ [⟨call.name, call.parentIno, call.sourceIno⟩]
  ledger : volume'.ledger = volume.ledger.set call.sourceIno
    ⟨some ⟨false, source.nlink + 1⟩, volume.links call.sourceIno + 1⟩

theorem Link.run_cases {call : Link} {status : Int} (done : call.run volume = .ok (status, volume')) :
    (status ≤ 0 ∧ volume' = volume) ∨
      (status = call.sourceIno ∧ ∃ source, call.Links volume source volume') := by
  unfold Link.run at done
  split at done
  · rw [pure_eq_ok, Prod.mk.injEq] at done
    exact .inl ⟨by omega, done.2.symm⟩
  · split at done
    · rw [pure_eq_ok, Prod.mk.injEq] at done
      exact .inl ⟨by omega, done.2.symm⟩
    · rename_i sourceMode mode
      split at done
      · rw [pure_eq_ok, Prod.mk.injEq] at done
        exact .inl ⟨by omega, done.2.symm⟩
      · rename_i file
        split at done
        · rw [pure_eq_ok, Prod.mk.injEq] at done
          exact .inl ⟨by omega, done.2.symm⟩
        · rename_i parented
          obtain ⟨entered, placed, returned⟩ := bind_eq_ok.mp done
          rw [pure_eq_ok, Prod.mk.injEq] at returned
          rw [inodeMode, Option.map_eq_some_iff] at mode
          obtain ⟨source, stored, typed⟩ := mode
          rw [← typed, Bool.not_eq_true] at file
          obtain ⟨dentry, feed, appended, entered_eq⟩ := volume.insertDentry_ok placed
          refine .inr ⟨returned.1.symm, source, stored, file, by simpa using parented, ⟨entered, placed⟩, ?_, ?_⟩
          · rw [← returned.2, touchTimes, Volume.modifyInode_dentry, Volume.updateInode_dentry, entered_eq]
            exact (volume.dentry.insert?_eq_some_iff.mp appended).2
          · rw [← returned.2, touchTimes_ledger, @Volume.ledger_recount entered call.sourceIno _ (· + 1) (fun _ => rfl),
              volume.ledger_insertDentry placed, Volume.ledger_account_node, stored, Option.map_some, Ledger.set_recount,
              InodeRow.node, file]

/-! ## Renaming -/

/-- What remains of a replaced destination: a directory loses every count, and a row that
counts nothing stays only for a live lease. -/
def Rename.remains (call : Rename) (volume : Volume) (destination : InodeRow) : Option Node :=
  let nlink := if isDirectory destination.mode then 0 else destination.nlink - 1
  if nlink = 0 ∧ volume.leased destination.ino call.nowSecs = false then none
  else some ⟨isDirectory destination.mode, nlink⟩

/-- The old parent and the new one count a directory that changes parents. -/
def Rename.countParents (call : Rename) (source : InodeRow) (ledger : Ledger) : Ledger :=
  if isDirectory source.mode = true ∧ call.oldParentIno ≠ call.newParentIno then
    (ledger.recount call.oldParentIno (· - 1)).recount call.newParentIno (· + 1)
  else ledger

/-- The parent no longer counts a replaced directory. -/
def Rename.uncountParent (call : Rename) (destination : InodeRow) (ledger : Ledger) : Ledger :=
  if isDirectory destination.mode then ledger.recount call.newParentIno (· - 1) else ledger

theorem Rename.replace_dentry (call : Rename) (volume : Volume) (destination : InodeRow) :
    (call.replace volume destination).dentry = volume.dentry.erase (call.newParentIno, call.newName) := by
  obtain ⟨feed, dropped⟩ := volume.deleteDentry_eq call.newParentIno call.newName
  unfold Rename.replace
  dsimp only
  split <;> split <;> simp only [Volume.deleteInode_dentry, Volume.updateInode_dentry, dropped]

/-- Clearing a destination takes one entry off its account, and off the parent's count the
directory that it was. -/
theorem Rename.replace_ledger {call : Rename} {destination : InodeRow}
    (found : joined volume call.newParentIno call.newName = some destination)
    (childless : isDirectory destination.mode = true → volume.hasChildren destination.ino = false) :
    (call.replace volume destination).ledger = call.uncountParent destination
      (volume.ledger.set destination.ino ⟨call.remains volume destination, volume.links destination.ino - 1⟩) := by
  obtain ⟨entry, placed, numbered, stored⟩ := joined_some found
  have dropped : (volume.deleteDentry call.newParentIno call.newName).ledger =
      volume.ledger.set destination.ino ⟨some destination.node, volume.links destination.ino - 1⟩ := by
    rw [volume.ledger_deleteDentry placed, numbered, Volume.ledger_account_node, stored]
    rfl
  have leases : ∀ volume' : Volume, volume'.openInode = volume.openInode →
      volume'.leased destination.ino call.nowSecs = volume.leased destination.ino call.nowSecs := by
    intro volume' same
    rw [Volume.leased, same, Volume.leased]
  obtain ⟨feed, entries⟩ := volume.deleteDentry_eq call.newParentIno call.newName
  unfold Rename.replace Rename.uncountParent Rename.remains
  dsimp only
  cases directory : isDirectory destination.mode with
  | true =>
    have apart := parent_ne_childless found (childless directory)
    simp only [if_true, true_and]
    -- After the updates the row counts nothing; it goes unless a lease holds it.
    generalize updates : Volume.updateInode _ call.newParentIno _ = cleared
    have ledger : cleared.ledger = (volume.ledger.set destination.ino
        ⟨some ⟨true, 0⟩, volume.links destination.ino - 1⟩).recount call.newParentIno (· - 1) := by
      rw [← updates, @Volume.ledger_recount _ call.newParentIno _ (· - 1) (fun _ => rfl),
        @Volume.ledger_recount _ destination.ino _ (fun _ => 0) (fun _ => rfl), dropped, Ledger.set_recount,
        InodeRow.node, directory]
    have account : cleared.ledger.account destination.ino = ⟨some ⟨true, 0⟩, volume.links destination.ino - 1⟩ := by
      rw [ledger, Ledger.recount_other _ (Ne.symm apart), Ledger.set_same]
    have uncounted : (cleared.inode? destination.ino).any (fun row => row.nlink = 0) = true := by
      have node := congrArg Account.node account
      rw [Volume.ledger_account_node, Option.map_eq_some_iff] at node
      obtain ⟨row, found, counted⟩ := node
      rw [InodeRow.node, Node.mk.injEq] at counted
      rw [found, Option.any_some, decide_eq_true_eq]
      exact counted.2
    have held := leases cleared (by rw [← updates]; simp [entries])
    simp only [uncounted, held, true_and, Bool.not_eq_true]
    split
    · rename_i unheld
      have links := congrArg Account.links account
      rw [Volume.ledger_account_links] at links
      rw [cleared.ledger_deleteInode, links, ledger, Ledger.recount_set _ apart, Ledger.set_set]
    · exact ledger
  | false =>
    simp only [Bool.false_eq_true, if_false]
    generalize update : Volume.updateInode _ destination.ino _ = cleared
    have ledger : cleared.ledger = volume.ledger.set destination.ino
        ⟨some ⟨false, destination.nlink - 1⟩, volume.links destination.ino - 1⟩ := by
      rw [← update, @Volume.ledger_recount _ destination.ino _ (· - 1) (fun _ => rfl), dropped, Ledger.set_recount,
        InodeRow.node, directory]
    have account := congrArg (fun ledger => Ledger.account ledger destination.ino) ledger
    simp only [Ledger.set_same] at account
    have counted : (cleared.inode? destination.ino).any (fun row => row.nlink = 0) =
        decide (destination.nlink - 1 = 0) := by
      have node := congrArg Account.node account
      rw [Volume.ledger_account_node, Option.map_eq_some_iff] at node
      obtain ⟨row, found, counted⟩ := node
      rw [InodeRow.node, Node.mk.injEq] at counted
      rw [found, Option.any_some, counted.2]
    have held := leases cleared (by rw [← update]; simp [entries])
    simp only [counted, held, decide_eq_true_eq, Bool.not_eq_true]
    split
    · have links := congrArg Account.links account
      rw [Volume.ledger_account_links] at links
      rw [cleared.ledger_deleteInode, links, ledger, Ledger.set_set]
    · exact ledger

theorem Rename.move_ledger {call : Rename} {source : InodeRow} {status : Int}
    (moved : call.move volume source = .ok (status, volume')) :
    volume'.ledger = call.countParents source volume.ledger := by
  obtain ⟨placed, moving, returned⟩ := bind_eq_ok.mp moved
  rw [pure_eq_ok, Prod.mk.injEq] at returned
  rw [← returned.2, ← volume.ledger_moveDentry moving]
  -- The last statements set times only.
  have timed : ∀ counted : Volume,
      (if call.oldParentIno ≠ call.newParentIno then
        touchTimes (touchTimes (counted.updateInode source.ino fun row => { row with
          ctime := call.nowSecs, ctimeNsec := call.nowNsecs }) call.oldParentIno call.nowSecs call.nowNsecs)
          call.newParentIno call.nowSecs call.nowNsecs
      else touchTimes (counted.updateInode source.ino fun row => { row with
          ctime := call.nowSecs, ctimeNsec := call.nowNsecs }) call.oldParentIno call.nowSecs
          call.nowNsecs).ledger = counted.ledger := by
    intro counted
    split
    · rw [touchTimes_ledger, touchTimes_ledger, Volume.ledger_updateInode_same]
      exact fun _ => rfl
    · rw [touchTimes_ledger, Volume.ledger_updateInode_same]
      exact fun _ => rfl
  rw [timed]
  unfold Rename.countParents
  split
  · rw [@Volume.ledger_recount _ call.newParentIno _ (· + 1) (fun _ => rfl),
      @Volume.ledger_recount _ call.oldParentIno _ (· - 1) (fun _ => rfl)]
  · rfl

theorem Rename.move_dentry {call : Rename} {source : InodeRow} {status : Int}
    (moved : call.move volume source = .ok (status, volume')) :
    status = source.ino ∧
      volume.dentry.update? (fun entry => entry.key = (call.oldParentIno, call.oldName))
        (fun entry => { entry with parentIno := call.newParentIno, name := call.newName }) = some volume'.dentry := by
  obtain ⟨placed, moving, returned⟩ := bind_eq_ok.mp moved
  rw [pure_eq_ok, Prod.mk.injEq] at returned
  refine ⟨returned.1.symm, ?_⟩
  obtain ⟨dentry, feed, updated, same⟩ := volume.moveDentry_ok moving
  have kept : volume'.dentry = placed.dentry := by
    rw [← returned.2]
    split <;> split <;> simp [touchTimes]
  rw [kept, same]
  exact updated

theorem replacementStatus_none {source destination : InodeRow}
    (allowed : replacementStatus volume source destination = none) :
    isDirectory destination.mode = isDirectory source.mode ∧
      (isDirectory destination.mode = true → volume.hasChildren destination.ino = false) := by
  unfold replacementStatus at allowed
  split at allowed
  · cases allowed
  · rename_i overFile
    split at allowed
    · cases allowed
    · rename_i overDirectory
      split at allowed
      · cases allowed
      · rename_i nonempty
        cases destinationType : isDirectory destination.mode <;> cases sourceType : isDirectory source.mode <;>
          simp_all

/-- The rename of this source gets past every check. -/
structure Rename.Proceeds (call : Rename) (volume : Volume) (source : InodeRow) : Prop where
  oldParent : directoryMode (inodeMode volume call.oldParentIno) = true
  newParent : directoryMode (inodeMode volume call.newParentIno) = true
  apart : source.ino ≠ 1
  elsewhere : ¬(call.oldParentIno = call.newParentIno ∧ call.oldName = call.newName)
  outside : ¬(isDirectory source.mode = true ∧ source.ino ∈ ancestors volume call.newParentIno)
  destination : ∀ destination ∈ joined volume call.newParentIno call.newName,
    destination.ino ≠ source.ino ∧ replacementStatus volume source destination = none

/-- The volume whose destination is clear. -/
def Rename.cleared (call : Rename) (volume : Volume) : Volume :=
  match joined volume call.newParentIno call.newName with
  | none => volume
  | some destination => call.replace volume destination

structure Rename.Moves (call : Rename) (volume : Volume) (source : InodeRow) (volume' : Volume) : Prop where
  sourced : joined volume call.oldParentIno call.oldName = some source
  proceeds : call.Proceeds volume source
  entries : (call.cleared volume).dentry.update? (fun entry => entry.key = (call.oldParentIno, call.oldName))
    (fun entry => { entry with parentIno := call.newParentIno, name := call.newName }) = some volume'.dentry
  ledger : volume'.ledger = call.countParents source (call.cleared volume).ledger

theorem Rename.run_cases {call : Rename} {status : Int} (done : call.run volume = .ok (status, volume')) :
    volume' = volume ∨ ∃ source, status = source.ino ∧ call.Moves volume source volume' := by
  have unchanged : ∀ {status' : Int}, (pure (status', volume) : Except Failure (Int × Volume)) =
      .ok (status, volume') → volume' = volume := by
    intro status' returned
    rw [pure_eq_ok, Prod.mk.injEq] at returned
    exact returned.2.symm
  unfold Rename.run at done
  split at done
  · exact .inl (unchanged done)
  · rename_i parents
    rw [not_or, not_not, not_not] at parents
    split at done
    · exact .inl (unchanged done)
    · rename_i source sourced
      split at done
      · exact .inl (unchanged done)
      · rename_i apart
        split at done
        · exact .inl (unchanged done)
        · rename_i elsewhere
          split at done
          · exact .inl (unchanged done)
          · rename_i outside
            split at done
            · rename_i free
              obtain ⟨same, entries⟩ := Rename.move_dentry done
              refine .inr ⟨source, same, sourced, ⟨parents.1, parents.2, apart, elsewhere, outside, by simp [free]⟩, ?_, ?_⟩
              · rw [Rename.cleared, free]
                exact entries
              · rw [Rename.cleared, free]
                exact Rename.move_ledger done
            · rename_i destination found
              split at done
              · exact .inl (unchanged done)
              · rename_i different
                split at done
                · exact .inl (unchanged done)
                · rename_i allowed
                  obtain ⟨same, entries⟩ := Rename.move_dentry done
                  refine .inr ⟨source, same, sourced, ⟨parents.1, parents.2, apart, elsewhere, outside, ?_⟩, ?_, ?_⟩
                  · intro other same
                    rw [Option.mem_def, found, Option.some.injEq] at same
                    rw [← same]
                    exact ⟨different, allowed⟩
                  · rw [Rename.cleared, found]
                    exact entries
                  · rw [Rename.cleared, found]
                    exact Rename.move_ledger done

end Remote

end AiryFS
