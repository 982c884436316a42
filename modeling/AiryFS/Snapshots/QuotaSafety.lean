import AiryFS.Direct.Directories
import AiryFS.Namespace.LinkSafety
import AiryFS.Remote.Contents
import AiryFS.Foundation.Attempt
import AiryFS.Snapshots.Storage
import AiryFS.Storage.Quota

/-! The quotas over every run: either writer, single statements and whole transactions, new
quotas, and restores.

Each operation of a writer is admitted statement by statement, so the order of its statements
does not matter to the quotas; that a refused one leaves no trace is the transaction's doing.
-/

set_option autoImplicit false

namespace AiryFS

open Foundation

variable {volume volume' : Volume}

/-! ## The direct adapter -/

namespace AgentFS

theorem createInode_admitted {mode uid gid ino : Int} (created : createInode volume mode uid gid = .ok (ino, volume')) :
    volume.Admitted volume' := Volume.insertInode_admitted created

theorem createDentry_admitted {parentIno ino : Int} {name : Text} (created : createDentry volume parentIno name ino = .ok volume') :
    volume.Admitted volume' := by
  obtain ⟨entered, inserted, created⟩ := bind_eq_ok.mp created
  rw [← pure_eq_ok.mp created]
  exact .updateInode (Volume.insertDentry_admitted inserted) fun _ => rfl

/-- Induction on the components still to be passed. -/
theorem descend_admitted {path : Text} {parts : List Text} {currentIno : Int}
    (descended : descend path volume currentIno parts = .ok volume') : volume.Admitted volume' := by
  induction parts generalizing volume currentIno with
  | nil =>
    rw [← pure_eq_ok.mp descended]
    exact .refl volume
  | cons name parts ih =>
    unfold descend at descended
    split at descended
    · obtain ⟨⟨dirIno, made⟩, inserted, descended⟩ := bind_eq_ok.mp descended
      obtain ⟨entered, created, descended⟩ := bind_eq_ok.mp descended
      exact ((createInode_admitted inserted).trans (createDentry_admitted created)).trans (ih descended)
    · obtain ⟨_, _, descended⟩ := bind_eq_ok.mp descended
      exact ih descended

theorem insertChunks_admitted {ino : Int} {chunks : List (Nat × Bytes)} (inserted : insertChunks volume ino chunks = .ok volume') :
    volume.Admitted volume' := by
  refine foldlM_induction (fun state chunk state' admitted stored => ?_) (.refl volume) inserted
  exact admitted.trans (Volume.insertChunk_admitted stored)

theorem deleteChunks_admitted (volume : Volume) (ino : Int) (selected : Nat → Bool) :
    volume.Admitted (volume.deleteChunks ino selected) := .of_inode rfl rfl

theorem updateFileContent_admitted {chunkSize : Nat} {ino : Int} {buffer : Bytes}
    (updated : updateFileContent volume chunkSize ino buffer = .ok volume') : volume.Admitted volume' := by
  obtain ⟨filled, inserted, updated⟩ := bind_eq_ok.mp updated
  exact ((deleteChunks_admitted volume ino _).trans (insertChunks_admitted inserted)).trans (Volume.resizeInode_admitted updated)

theorem writeFile_admitted {chunkSize : Nat} {path : Text} {buffer : Bytes}
    (written : writeFile volume chunkSize path buffer = .ok volume') : volume.Admitted volume' := by
  obtain ⟨parents, descended, written⟩ := bind_eq_ok.mp written
  have above := descend_admitted descended
  dsimp only at written
  split at written
  · obtain ⟨_, _, written⟩ := bind_eq_ok.mp written
    exact above.trans (updateFileContent_admitted written)
  · obtain ⟨_, _, written⟩ := bind_eq_ok.mp written
    obtain ⟨⟨fileIno, made⟩, inserted, written⟩ := bind_eq_ok.mp written
    obtain ⟨entered, created, written⟩ := bind_eq_ok.mp written
    exact ((above.trans (createInode_admitted inserted)).trans (createDentry_admitted created)).trans
      (updateFileContent_admitted written)

theorem mkdir_admitted {path : Text} (made : mkdir volume path = .ok volume') : volume.Admitted volume' := by
  obtain ⟨_, _, made⟩ := bind_eq_ok.mp made
  obtain ⟨⟨parentIno, name⟩, _, made⟩ := bind_eq_ok.mp made
  obtain ⟨_, _, made⟩ := bind_eq_ok.mp made
  obtain ⟨⟨dirIno, stored⟩, inserted, made⟩ := bind_eq_ok.mp made
  cases created : createDentry stored parentIno name dirIno with
  | error failure => simp [created, Except.mapError] at made
  | ok entered =>
    simp only [created, Except.mapError, Except.ok.injEq] at made
    rw [← made]
    exact (createInode_admitted inserted).trans (createDentry_admitted created)

theorem removeDentryAndMaybeInode_admitted (volume : Volume) (parentIno : Int) (name : Text) (ino : Int) :
    volume.Admitted (removeDentryAndMaybeInode volume parentIno name ino) := by
  have counted : volume.Admitted ((volume.deleteDentry parentIno name).updateInode ino fun row => { row with nlink := row.nlink - 1 }) :=
    .updateInode (Volume.deleteDentry_admitted volume parentIno name) fun _ => rfl
  unfold removeDentryAndMaybeInode
  dsimp only
  split
  · exact counted.trans (Volume.deleteInodes_admitted _ _)
  · exact counted

theorem rmdir_admitted {path : Text} (removed : rmdir volume path = .ok volume') : volume.Admitted volume' := by
  obtain ⟨_, _, removed⟩ := bind_eq_ok.mp removed
  obtain ⟨_, _, removed⟩ := bind_eq_ok.mp removed
  obtain ⟨_, _, removed⟩ := bind_eq_ok.mp removed
  obtain ⟨_, _, removed⟩ := bind_eq_ok.mp removed
  obtain ⟨_, _, removed⟩ := bind_eq_ok.mp removed
  rw [← pure_eq_ok.mp removed]
  exact removeDentryAndMaybeInode_admitted _ _ _ _

theorem unlink_admitted {path : Text} (removed : unlink volume path = .ok volume') : volume.Admitted volume' := by
  obtain ⟨_, _, removed⟩ := bind_eq_ok.mp removed
  obtain ⟨_, _, removed⟩ := bind_eq_ok.mp removed
  obtain ⟨_, _, removed⟩ := bind_eq_ok.mp removed
  obtain ⟨_, _, removed⟩ := bind_eq_ok.mp removed
  rw [← pure_eq_ok.mp removed]
  exact removeDentryAndMaybeInode_admitted _ _ _ _

/-- Induction on the depth, and on the entries of each directory. -/
theorem rmDirContentsRecursive_admitted (depth : Nat) (volume : Volume) (dirIno : Int) :
    volume.Admitted (rmDirContentsRecursive depth volume dirIno) := by
  induction depth generalizing volume dirIno with
  | zero => exact .refl volume
  | succ depth ih =>
    unfold rmDirContentsRecursive
    refine List.foldlRecOn (entriesOf volume dirIno) _ (.refl volume) ?_
    intro current admitted child _
    dsimp only
    split
    · exact admitted
    · refine admitted.trans (Volume.Admitted.trans ?_ (removeDentryAndMaybeInode_admitted _ _ _ _))
      split
      · exact ih current child.ino
      · exact .refl current

theorem rm_admitted {path : Text} {force recursive : Bool} (removed : rm volume path force recursive = .ok volume') :
    volume.Admitted volume' := by
  obtain ⟨_, _, removed⟩ := bind_eq_ok.mp removed
  dsimp only at removed
  split at removed
  · split at removed
    · rw [← pure_eq_ok.mp removed]
      exact .refl volume
    · cases removed
  · split at removed
    · split at removed
      · rw [← pure_eq_ok.mp removed]
        exact .refl volume
      · cases removed
    · obtain ⟨_, _, removed⟩ := bind_eq_ok.mp removed
      split at removed
      · obtain ⟨_, _, removed⟩ := bind_eq_ok.mp removed
        rw [← pure_eq_ok.mp removed]
        exact (rmDirContentsRecursive_admitted _ _ _).trans (removeDentryAndMaybeInode_admitted _ _ _ _)
      · rw [← pure_eq_ok.mp removed]
        exact removeDentryAndMaybeInode_admitted _ _ _ _

theorem clearDestination_admitted {newNormalized newName : Text} {newParentIno : Int} {oldIsDir : Bool}
    (cleared : clearDestination volume newNormalized newParentIno newName oldIsDir = .ok volume') : volume.Admitted volume' := by
  unfold clearDestination at cleared
  split at cleared
  · rw [← pure_eq_ok.mp cleared]
    exact .refl volume
  · split at cleared
    · rw [← pure_eq_ok.mp cleared]
      exact .refl volume
    · obtain ⟨_, _, cleared⟩ := bind_eq_ok.mp cleared
      obtain ⟨_, _, cleared⟩ := bind_eq_ok.mp cleared
      obtain ⟨_, _, cleared⟩ := bind_eq_ok.mp cleared
      rw [← pure_eq_ok.mp cleared]
      exact removeDentryAndMaybeInode_admitted _ _ _ _

theorem rename_admitted {oldPath newPath : Text} (renamed : rename volume oldPath newPath = .ok volume') :
    volume.Admitted volume' := by
  unfold rename at renamed
  dsimp only at renamed
  split at renamed
  · rw [← pure_eq_ok.mp renamed]
    exact .refl volume
  · obtain ⟨_, _, renamed⟩ := bind_eq_ok.mp renamed
    obtain ⟨_, _, renamed⟩ := bind_eq_ok.mp renamed
    obtain ⟨_, _, renamed⟩ := bind_eq_ok.mp renamed
    obtain ⟨_, _, renamed⟩ := bind_eq_ok.mp renamed
    obtain ⟨_, _, renamed⟩ := bind_eq_ok.mp renamed
    obtain ⟨_, _, renamed⟩ := bind_eq_ok.mp renamed
    obtain ⟨clear, cleared, renamed⟩ := bind_eq_ok.mp renamed
    obtain ⟨moved, entry, renamed⟩ := bind_eq_ok.mp renamed
    have admitted := (clearDestination_admitted cleared).trans (Volume.moveDentry_admitted entry)
    -- Only times change after the entry has moved.
    split at renamed
    · rw [← pure_eq_ok.mp renamed]
      exact .modifyInode (.modifyInode (.updateInode admitted fun _ => rfl) fun _ => rfl) fun _ => rfl
    · rw [← pure_eq_ok.mp renamed]
      exact .modifyInode (.updateInode admitted fun _ => rfl) fun _ => rfl

theorem copyFile_admitted {src dest : Text} (copied : copyFile volume src dest = .ok volume') : volume.Admitted volume' := by
  obtain ⟨_, _, copied⟩ := bind_eq_ok.mp copied
  obtain ⟨_, _, copied⟩ := bind_eq_ok.mp copied
  obtain ⟨_, _, copied⟩ := bind_eq_ok.mp copied
  obtain ⟨_, _, copied⟩ := bind_eq_ok.mp copied
  obtain ⟨_, _, copied⟩ := bind_eq_ok.mp copied
  dsimp only at copied
  split at copied
  · obtain ⟨_, _, copied⟩ := bind_eq_ok.mp copied
    obtain ⟨filled, inserted, copied⟩ := bind_eq_ok.mp copied
    exact ((deleteChunks_admitted volume _ _).trans (insertChunks_admitted inserted)).trans (Volume.resizeInode_admitted copied)
  · obtain ⟨⟨_, made⟩, created, copied⟩ := bind_eq_ok.mp copied
    obtain ⟨entered, entry, copied⟩ := bind_eq_ok.mp copied
    obtain ⟨filled, inserted, copied⟩ := bind_eq_ok.mp copied
    exact (((createInode_admitted created).trans (createDentry_admitted entry)).trans (insertChunks_admitted inserted)).trans
      (Volume.resizeInode_admitted copied)

theorem setSize_admitted {ino : Int} {size : Nat} (resized : setSize volume ino size = .ok volume') : volume.Admitted volume' := by
  unfold setSize at resized
  split at resized
  · rw [← pure_eq_ok.mp resized]
    exact .refl volume
  · rename_i row stored
    obtain ⟨_, admitted, resized⟩ := bind_eq_ok.mp resized
    rw [← pure_eq_ok.mp resized]
    exact Volume.admitted_update stored admitted

theorem symlink_admitted {target linkpath : Text} (linked : symlink volume target linkpath = .ok volume') :
    volume.Admitted volume' := by
  obtain ⟨_, _, linked⟩ := bind_eq_ok.mp linked
  obtain ⟨_, _, linked⟩ := bind_eq_ok.mp linked
  obtain ⟨⟨_, made⟩, created, linked⟩ := bind_eq_ok.mp linked
  obtain ⟨entered, entry, linked⟩ := bind_eq_ok.mp linked
  obtain ⟨stored, inserted, linked⟩ := bind_eq_ok.mp linked
  exact (((createInode_admitted created).trans (createDentry_admitted entry)).trans (Volume.insertSymlink_admitted inserted)).trans
    (setSize_admitted linked)

theorem readFile_admitted {path : Text} {content : Bytes} (read : readFile volume path = .ok (content, volume')) :
    volume.Admitted volume' := by
  obtain ⟨_, _, read⟩ := bind_eq_ok.mp read
  obtain ⟨_, _, read⟩ := bind_eq_ok.mp read
  rw [← (Prod.mk.inj (pure_eq_ok.mp read)).2]
  exact Volume.updateInode_admitted _ _ fun _ => rfl

end AgentFS

namespace AgentFSFile

variable {file : AgentFSFile}

theorem writeDataAtOffset_admitted (volume : Volume) (offset : Nat) (data : Bytes) :
    volume.Admitted (file.writeDataAtOffset volume offset data) := by
  unfold writeDataAtOffset
  refine List.foldlRecOn (file.touchedChunks offset data) _ (.refl volume) ?_
  exact fun current admitted _ _ => admitted.trans (.of_inode rfl rfl)

theorem pwrite_admitted {offset : Nat} {data : Bytes} (written : file.pwrite volume offset data = .ok volume') :
    volume.Admitted volume' := by
  unfold pwrite at written
  split at written
  · rw [← pure_eq_ok.mp written]
    exact .refl volume
  · dsimp only at written
    refine Volume.Admitted.trans (Volume.Admitted.trans ?_ (writeDataAtOffset_admitted _ offset data)) (Volume.resizeInode_admitted written)
    split
    · exact writeDataAtOffset_admitted _ _ _
    · exact .refl volume

theorem truncate_admitted {newSize : Nat} (truncated : file.truncate volume newSize = .ok volume') : volume.Admitted volume' := by
  unfold truncate at truncated
  dsimp only at truncated
  refine Volume.Admitted.trans ?_ (Volume.resizeInode_admitted truncated)
  split
  · exact .of_inode rfl rfl
  · split
    · exact Volume.cutChunks_admitted _ _ _ _
    · exact .refl volume

end AgentFSFile

namespace FilesystemPrimitives

theorem touch_admitted {rawPath : Text} {atime mtime : Option Rat} (touched : touch volume rawPath atime mtime = .ok volume') :
    volume.Admitted volume' := by
  obtain ⟨_, _, touched⟩ := bind_eq_ok.mp touched
  obtain ⟨_, _, touched⟩ := bind_eq_ok.mp touched
  obtain ⟨_, _, touched⟩ := bind_eq_ok.mp touched
  obtain ⟨found, _, touched⟩ := bind_eq_ok.mp touched
  cases found with
  | some inode =>
    obtain ⟨_, _, touched⟩ := bind_eq_ok.mp touched
    rw [← pure_eq_ok.mp touched]
    exact Volume.modifyInode_admitted _ _ fun _ => rfl
  | none =>
    obtain ⟨_, _, touched⟩ := bind_eq_ok.mp touched
    obtain ⟨⟨ino, made⟩, inserted, touched⟩ := bind_eq_ok.mp touched
    obtain ⟨entered, entry, touched⟩ := bind_eq_ok.mp touched
    rw [← pure_eq_ok.mp touched]
    have made := (Volume.insertInode_admitted inserted).trans (Volume.insertDentry_admitted entry)
    exact .modifyInode (.updateInode made fun _ => rfl) fun _ => rfl

theorem chmod_admitted {rawPath : Text} {mode : Int} (changed : chmod volume rawPath mode = .ok volume') :
    volume.Admitted volume' := by
  obtain ⟨_, _, changed⟩ := bind_eq_ok.mp changed
  obtain ⟨_, _, changed⟩ := bind_eq_ok.mp changed
  obtain ⟨_, _, changed⟩ := bind_eq_ok.mp changed
  obtain ⟨_, _, changed⟩ := bind_eq_ok.mp changed
  rw [← pure_eq_ok.mp changed]
  exact Volume.modifyInode_admitted _ _ fun _ => rfl

theorem link_admitted {rawExisting rawPath : Text} (linked : link volume rawExisting rawPath = .ok volume') :
    volume.Admitted volume' := by
  obtain ⟨_, _, linked⟩ := bind_eq_ok.mp linked
  obtain ⟨_, _, linked⟩ := bind_eq_ok.mp linked
  obtain ⟨_, _, linked⟩ := bind_eq_ok.mp linked
  obtain ⟨_, _, linked⟩ := bind_eq_ok.mp linked
  obtain ⟨_, _, linked⟩ := bind_eq_ok.mp linked
  obtain ⟨_, _, linked⟩ := bind_eq_ok.mp linked
  obtain ⟨_, _, linked⟩ := bind_eq_ok.mp linked
  obtain ⟨entered, entry, linked⟩ := bind_eq_ok.mp linked
  rw [← pure_eq_ok.mp linked]
  exact .modifyInode (.updateInode (Volume.insertDentry_admitted entry) fun _ => rfl) fun _ => rfl

theorem updateCtime_admitted {rawPath : Text} (changed : updateCtime volume rawPath = .ok volume') : volume.Admitted volume' := by
  obtain ⟨_, _, changed⟩ := bind_eq_ok.mp changed
  obtain ⟨_, _, changed⟩ := bind_eq_ok.mp changed
  rw [← pure_eq_ok.mp changed]
  exact Volume.updateInode_admitted _ _ fun _ => rfl

end FilesystemPrimitives

/-! ## The remote writer -/

namespace Remote

open Volume

theorem CreateNode.run_admitted {call : CreateNode} {status : Int} (ran : call.run volume = .ok (status, volume')) :
    volume.Admitted volume' := by
  unfold CreateNode.run at ran
  split at ran
  · rw [← (Prod.mk.inj (pure_eq_ok.mp ran)).2]
    exact .refl volume
  · split at ran
    · rw [← (Prod.mk.inj (pure_eq_ok.mp ran)).2]
      exact .refl volume
    · obtain ⟨⟨ino, made⟩, inserted, ran⟩ := bind_eq_ok.mp ran
      obtain ⟨_, _, ran⟩ := bind_eq_ok.mp ran
      obtain ⟨entered, entry, ran⟩ := bind_eq_ok.mp ran
      obtain ⟨targeted, target, ran⟩ := bind_eq_ok.mp ran
      rw [← (Prod.mk.inj (pure_eq_ok.mp ran)).2]
      have named := (insertInode_admitted inserted).trans (insertDentry_admitted entry)
      have linked : entered.Admitted targeted := by
        unfold insertTarget at target
        split at target
        · exact insertSymlink_admitted target
        · rw [← pure_eq_ok.mp target]
          exact .refl entered
      unfold CreateNode.finish
      split
      · exact .modifyInode (named.trans linked) fun _ => rfl
      · exact .modifyInode (named.trans linked) fun _ => rfl

theorem Link.run_admitted {call : Link} {status : Int} (ran : call.run volume = .ok (status, volume')) :
    volume.Admitted volume' := by
  unfold Link.run at ran
  split at ran
  · rw [← (Prod.mk.inj (pure_eq_ok.mp ran)).2]
    exact .refl volume
  · split at ran
    · rw [← (Prod.mk.inj (pure_eq_ok.mp ran)).2]
      exact .refl volume
    · split at ran
      · rw [← (Prod.mk.inj (pure_eq_ok.mp ran)).2]
        exact .refl volume
      · split at ran
        · rw [← (Prod.mk.inj (pure_eq_ok.mp ran)).2]
          exact .refl volume
        · obtain ⟨entered, entry, ran⟩ := bind_eq_ok.mp ran
          rw [← (Prod.mk.inj (pure_eq_ok.mp ran)).2]
          exact .modifyInode (.updateInode (insertDentry_admitted entry) fun _ => rfl) fun _ => rfl

theorem Rename.replace_admitted (call : Rename) (volume : Volume) (destination : InodeRow) :
    volume.Admitted (call.replace volume destination) := by
  have deleted := deleteDentry_admitted volume call.newParentIno call.newName
  unfold Rename.replace
  dsimp only
  by_cases directory : isDirectory destination.mode = true
  · simp only [directory, ↓reduceIte]
    have counted : volume.Admitted (((volume.deleteDentry call.newParentIno call.newName).updateInode destination.ino fun row =>
        { row with nlink := 0, ctime := call.nowSecs, ctimeNsec := call.nowNsecs }).updateInode call.newParentIno fun row =>
          { row with nlink := row.nlink - 1 }) := .updateInode (.updateInode deleted fun _ => rfl) fun _ => rfl
    split
    · exact counted.trans (deleteInodes_admitted _ _)
    · exact counted
  · simp only [directory, ↓reduceIte, Bool.false_eq_true]
    have counted : volume.Admitted ((volume.deleteDentry call.newParentIno call.newName).updateInode destination.ino fun row =>
        { row with nlink := row.nlink - 1, ctime := call.nowSecs, ctimeNsec := call.nowNsecs }) :=
      .updateInode deleted fun _ => rfl
    split
    · exact counted.trans (deleteInodes_admitted _ _)
    · exact counted

theorem Rename.move_admitted {call : Rename} {source : InodeRow} {status : Int}
    (moved : call.move volume source = .ok (status, volume')) : volume.Admitted volume' := by
  obtain ⟨entered, entry, moved⟩ := bind_eq_ok.mp moved
  have shifted := moveDentry_admitted entry
  have counted : volume.Admitted (if isDirectory source.mode ∧ call.oldParentIno ≠ call.newParentIno then
      (entered.updateInode call.oldParentIno fun row => { row with nlink := row.nlink - 1 }).updateInode call.newParentIno
        fun row => { row with nlink := row.nlink + 1 }
      else entered) := by
    split
    · exact .updateInode (.updateInode shifted fun _ => rfl) fun _ => rfl
    · exact shifted
  rw [← (Prod.mk.inj (pure_eq_ok.mp moved)).2]
  split
  · exact .modifyInode (.modifyInode (.updateInode counted fun _ => rfl) fun _ => rfl) fun _ => rfl
  · exact .modifyInode (.updateInode counted fun _ => rfl) fun _ => rfl

theorem Rename.run_admitted {call : Rename} {status : Int} (ran : call.run volume = .ok (status, volume')) :
    volume.Admitted volume' := by
  have unchanged : ∀ {other : Int}, (pure (other, volume) : Except Failure (Int × Volume)) = .ok (status, volume') →
      volume.Admitted volume' := by
    intro other returned
    rw [← (Prod.mk.inj (pure_eq_ok.mp returned)).2]
    exact .refl volume
  unfold Rename.run at ran
  split at ran
  · exact unchanged ran
  · split at ran
    · exact unchanged ran
    · split at ran
      · exact unchanged ran
      · split at ran
        · exact unchanged ran
        · split at ran
          · exact unchanged ran
          · split at ran
            · exact Rename.move_admitted ran
            · split at ran
              · exact unchanged ran
              · split at ran
                · exact unchanged ran
                · exact (Rename.replace_admitted call volume _).trans (Rename.move_admitted ran)

/-- Induction on the rounds. -/
theorem Pwrite.loop_admitted (ino : Int) (chunkSize rounds : Nat) (volume : Volume) (currentOffset : Nat) (data : Bytes) :
    volume.Admitted (Pwrite.loop ino chunkSize rounds volume currentOffset data) := by
  induction rounds generalizing volume currentOffset data with
  | zero => exact .refl volume
  | succ rounds ih =>
    unfold Pwrite.loop
    split
    · exact .refl volume
    · dsimp only
      refine Admitted.trans ?_ (ih _ _ _)
      exact .of_inode rfl rfl

theorem Pwrite.run_admitted {call : Pwrite} (ran : call.run volume = .ok volume') : volume.Admitted volume' := by
  obtain ⟨_, _, ran⟩ := bind_eq_ok.mp ran
  exact (Pwrite.loop_admitted _ _ _ _ _ _).trans (resizeInode_admitted ran)

theorem Truncate.extend_admitted (call : Truncate) (volume : Volume) (currentSize : Nat) :
    volume.Admitted (call.extend volume currentSize) := by
  unfold Truncate.extend
  dsimp only
  refine List.foldlRecOn _ _ ?_ fun current admitted _ _ => admitted.trans (.of_inode rfl rfl)
  split
  · exact .refl volume
  · split
    · exact .refl volume
    · split
      · exact updateChunk_admitted _ _ _ _
      · exact .refl volume

theorem Truncate.run_admitted {call : Truncate} {status : Int} (ran : call.run volume = .ok (status, volume')) :
    volume.Admitted volume' := by
  unfold Truncate.run at ran
  split at ran
  · rw [← (Prod.mk.inj (pure_eq_ok.mp ran)).2]
    exact .refl volume
  · obtain ⟨resized, size, ran⟩ := bind_eq_ok.mp ran
    rw [← (Prod.mk.inj (pure_eq_ok.mp ran)).2]
    refine Admitted.trans ?_ (resizeInode_admitted size)
    split
    · exact .of_inode rfl rfl
    · split
      · exact cutChunks_admitted _ _ _ _
      · split
        · exact call.extend_admitted volume _
        · exact .refl volume

theorem LeaseStatement.run_admitted (statement : LeaseStatement) (volume : Volume) : volume.Admitted (statement.run volume) := by
  unfold LeaseStatement.run
  split
  · unfold Remote.pinOpenInode
    split
    · exact .refl volume
    · exact .of_inode rfl rfl
  all_goals first
    | exact .of_inode rfl rfl
    | exact deleteInodes_admitted volume _

end Remote

/-! ## Restoring -/

namespace Volume

theorem storeInode_admitted {row : InodeRow} (stored : volume.storeInode row = .ok volume') : volume.Admitted volume' := by
  obtain ⟨_, admitted, stored⟩ := bind_eq_ok.mp stored
  split at stored
  · cases stored
  · rename_i inode inserted
    rw [← pure_eq_ok.mp stored]
    exact admitted_insert inserted admitted _

theorem deleteTables_admitted (volume : Volume) : volume.Admitted volume.deleteTables := by
  unfold deleteTables deleteDentries
  dsimp only
  have emptied := deleteInodes_admitted volume fun _ => true
  refine Admitted.trans (List.foldlRecOn _ _ emptied ?_) (.of_inode rfl rfl)
  exact fun current admitted entry _ => admitted.trans (deleteDentry_admitted current entry.parentIno entry.name)

/-- Every row that a restore inserts passes the triggers. -/
theorem insertTables_admitted {inode : List InodeRow} {dentry : List DentryRow} {data : List DataRow} {symlink : List SymlinkRow}
    (inserted : volume.insertTables inode dentry data symlink = .ok volume') : volume.Admitted volume' := by
  obtain ⟨inodes, stored, inserted⟩ := bind_eq_ok.mp inserted
  obtain ⟨dentries, entered, inserted⟩ := bind_eq_ok.mp inserted
  obtain ⟨chunks, filled, inserted⟩ := bind_eq_ok.mp inserted
  obtain ⟨symlinks, linked, inserted⟩ := bind_eq_ok.mp inserted
  rw [← pure_eq_ok.mp inserted]
  have first : volume.Admitted inodes :=
    foldlM_induction (fun _ _ _ admitted step => admitted.trans (storeInode_admitted step)) (.refl volume) stored
  have second : volume.Admitted dentries :=
    foldlM_induction (fun _ _ _ admitted step => admitted.trans (insertDentry_admitted step)) first entered
  have third : volume.Admitted chunks :=
    foldlM_induction (fun _ _ _ admitted step => admitted.trans (insertChunk_admitted step)) second filled
  have fourth : volume.Admitted symlinks :=
    foldlM_induction (fun _ _ _ admitted step => admitted.trans (insertSymlink_admitted step)) third linked
  exact fourth.trans (.of_inode rfl rfl)

end Volume

/-! ## Runs -/

/-- A method of the direct adapter, or a statement of the remote writer that the server executes itself. -/
inductive Mutation where
  | operation (operation : Operation)
  | rm (path : Text) (force recursive : Bool)
  | copyFile (src dest : Text)
  | symlink (target linkpath : Text)
  | readFile (path : Text)
  | pwrite (file : AgentFSFile) (offset : Nat) (data : Bytes)
  | truncate (file : AgentFSFile) (newSize : Nat)
  | chmod (rawPath : Text) (mode : Int)
  | updateCtime (rawPath : Text)
  | remotePwrite (bindings : List JsValue)
  | remoteTruncate (bindings : List JsValue)

namespace Mutation

def outcome (volume : Volume) : Mutation → Except Failure Volume
  | operation named => named.outcome volume
  | rm path force recursive => AgentFS.rm volume path force recursive
  | copyFile src dest => AgentFS.copyFile volume src dest
  | symlink target linkpath => AgentFS.symlink volume target linkpath
  | readFile path => (AgentFS.readFile volume path).map Prod.snd
  | pwrite file offset data => file.pwrite volume offset data
  | truncate file newSize => file.truncate volume newSize
  | chmod rawPath mode => FilesystemPrimitives.chmod volume rawPath mode
  | updateCtime rawPath => FilesystemPrimitives.updateCtime volume rawPath
  | remotePwrite bindings => (Remote.executeRemotePwrite volume bindings).map Prod.snd
  | remoteTruncate bindings => (Remote.executeRemoteTruncate volume bindings).map Prod.snd

end Mutation

theorem Except.of_map_snd {α β : Type} {outcome : Except Failure (α × β)} {result : β} (done : outcome.map Prod.snd = .ok result) :
    ∃ value, outcome = .ok (value, result) := by
  cases outcome with
  | ok pair => exact ⟨pair.1, congrArg _ (Prod.ext rfl (Except.ok.inj done))⟩
  | error failure => cases done

theorem Operation.admitted {operation : Operation} (done : operation.outcome volume = .ok volume') : volume.Admitted volume' := by
  unfold Operation.outcome at done
  cases operation with
  | mkdir path => exact AgentFS.mkdir_admitted done
  | writeFile chunkSize path buffer => exact AgentFS.writeFile_admitted done
  | touch rawPath atime mtime => exact FilesystemPrimitives.touch_admitted done
  | link rawExisting rawPath => exact FilesystemPrimitives.link_admitted done
  | rename oldPath newPath => exact AgentFS.rename_admitted done
  | unlink path => exact AgentFS.unlink_admitted done
  | rmdir path => exact AgentFS.rmdir_admitted done
  | createNode bindings =>
    obtain ⟨status, ran⟩ := Except.of_map_snd done
    obtain ⟨call, _, ran⟩ := bind_eq_ok.mp ran
    exact Remote.CreateNode.run_admitted ran
  | remoteLink bindings =>
    obtain ⟨status, ran⟩ := Except.of_map_snd done
    obtain ⟨call, _, ran⟩ := bind_eq_ok.mp ran
    exact Remote.Link.run_admitted ran
  | remoteRename bindings =>
    obtain ⟨status, ran⟩ := Except.of_map_snd done
    obtain ⟨call, _, ran⟩ := bind_eq_ok.mp ran
    exact Remote.Rename.run_admitted ran
  | lease statement =>
    rw [← Except.ok.inj done]
    exact statement.run_admitted volume
  | tick clock =>
    rw [← Except.ok.inj done]
    exact .of_inode rfl rfl

theorem Mutation.admitted {mutation : Mutation} (done : mutation.outcome volume = .ok volume') : volume.Admitted volume' := by
  unfold Mutation.outcome at done
  cases mutation with
  | operation operation => exact operation.admitted done
  | rm path force recursive => exact AgentFS.rm_admitted done
  | copyFile src dest => exact AgentFS.copyFile_admitted done
  | symlink target linkpath => exact AgentFS.symlink_admitted done
  | readFile path =>
    obtain ⟨content, read⟩ := Except.of_map_snd done
    exact AgentFS.readFile_admitted read
  | pwrite file offset data => exact AgentFSFile.pwrite_admitted done
  | truncate file newSize => exact AgentFSFile.truncate_admitted done
  | chmod rawPath mode => exact FilesystemPrimitives.chmod_admitted done
  | updateCtime rawPath => exact FilesystemPrimitives.updateCtime_admitted done
  | remotePwrite bindings =>
    obtain ⟨count, ran⟩ := Except.of_map_snd done
    obtain ⟨call, _, ran⟩ := bind_eq_ok.mp ran
    obtain ⟨written, ran, returned⟩ := bind_eq_ok.mp ran
    rw [← (Prod.mk.inj (pure_eq_ok.mp returned)).2]
    exact Remote.Pwrite.run_admitted ran
  | remoteTruncate bindings =>
    obtain ⟨status, ran⟩ := Except.of_map_snd done
    obtain ⟨call, _, ran⟩ := bind_eq_ok.mp ran
    exact Remote.Truncate.run_admitted ran

/-- One statement on the filesystem tables, by either writer. -/
inductive Statement where
  | insertInode (row : InodeRow)
  /-- With the number of the inode. -/
  | storeInode (row : InodeRow)
  /-- Where the size is not among the columns, the change keeps it. -/
  | updateInode (ino : Int) (change : InodeRow → InodeRow)
  | deleteInodes (selected : InodeRow → Bool)
  | insertDentry (row : DentryRow)
  | deleteDentry (parentIno : Int) (name : Text)
  | moveDentry (newParentIno : Int) (newName : Text) (oldParentIno : Int) (oldName : Text)
  | insertChunk (ino : Int) (chunkIndex : Nat) (data : Bytes)
  | putChunk (ino : Int) (chunkIndex : Nat) (data : Bytes)
  | updateChunk (ino : Int) (chunkIndex : Nat) (data : Bytes)
  | deleteChunks (ino : Int) (selected : Nat → Bool)
  | insertSymlink (ino : Int) (target : Text)
  | deleteSymlinks (selected : SymlinkRow → Bool)
  /-- Any change of the leases. -/
  | openInode (change : OpenInodeTable → OpenInodeTable)
  /-- A whole method or compound operation, which is a transaction of its own. -/
  | mutation (mutation : Mutation)

def Statement.execute (volume : Volume) : Statement → Except Failure Volume
  | .insertInode row => (volume.insertInode row).map Prod.snd
  | .storeInode row => volume.storeInode row
  | .updateInode ino change => volume.resizeInode ino change
  | .deleteInodes selected => .ok (volume.deleteInodes selected)
  | .insertDentry row => volume.insertDentry row
  | .deleteDentry parentIno name => .ok (volume.deleteDentry parentIno name)
  | .moveDentry newParentIno newName oldParentIno oldName => volume.moveDentry newParentIno newName oldParentIno oldName
  | .insertChunk ino chunkIndex data => volume.insertChunk ino chunkIndex data
  | .putChunk ino chunkIndex data => .ok (volume.putChunk ino chunkIndex data)
  | .updateChunk ino chunkIndex data => .ok (volume.updateChunk ino chunkIndex data)
  | .deleteChunks ino selected => .ok (volume.deleteChunks ino selected)
  | .insertSymlink ino target => volume.insertSymlink ino target
  | .deleteSymlinks selected => .ok { volume with symlink := volume.symlink.deleteWhere selected }
  | .openInode change => .ok { volume with openInode := change volume.openInode }
  | .mutation call => call.outcome volume

/-- One case for each kind of statement. -/
theorem Statement.admitted {statement : Statement} (done : statement.execute volume = .ok volume') : volume.Admitted volume' := by
  unfold Statement.execute at done
  cases statement with
  | insertInode row =>
    obtain ⟨ino, inserted⟩ := Except.of_map_snd done
    exact Volume.insertInode_admitted inserted
  | storeInode row => exact Volume.storeInode_admitted done
  | updateInode ino change => exact Volume.resizeInode_admitted done
  | deleteInodes selected =>
    rw [← Except.ok.inj done]
    exact Volume.deleteInodes_admitted volume selected
  | insertDentry row => exact Volume.insertDentry_admitted done
  | deleteDentry parentIno name =>
    rw [← Except.ok.inj done]
    exact Volume.deleteDentry_admitted volume parentIno name
  | moveDentry newParentIno newName oldParentIno oldName => exact Volume.moveDentry_admitted done
  | insertChunk ino chunkIndex data => exact Volume.insertChunk_admitted done
  | updateChunk ino chunkIndex data =>
    rw [← Except.ok.inj done]
    exact Volume.updateChunk_admitted volume ino chunkIndex data
  | insertSymlink ino target => exact Volume.insertSymlink_admitted done
  | putChunk ino chunkIndex data =>
    rw [← Except.ok.inj done]
    exact .of_inode rfl rfl
  | deleteChunks ino selected =>
    rw [← Except.ok.inj done]
    exact .of_inode rfl rfl
  | deleteSymlinks selected =>
    rw [← Except.ok.inj done]
    exact .of_inode rfl rfl
  | openInode change =>
    rw [← Except.ok.inj done]
    exact .of_inode rfl rfl
  | mutation mutation => exact mutation.admitted done

/-- What is committed as one. -/
inductive QuotaAction where
  | statement (statement : Statement)
  | transaction (statements : List Statement)
  | configureQuota (bytes inodes : Option JsValue)
  | createSnapshot (id defaultName : Text) (name note : Option JsValue)
  | deleteSnapshot (nameOrId : Text)
  | restoreSnapshot (nameOrId : Text)

namespace QuotaAction

open Attempt

def onVolume (computation : Attempt Failure Volume Unit) : Attempt Failure SnapshotStorage Unit :=
  within SnapshotStorage.volume (fun volume storage => { storage with volume }) computation

/-- Statements of a transaction run one after the other, and an abort undoes those before it. -/
def perform : QuotaAction → Attempt Failure SnapshotStorage Unit
  | statement single => onVolume (commit fun volume => single.execute volume)
  | transaction statements => onVolume (atomic (statements.forM fun statement => commit fun volume => statement.execute volume))
  | configureQuota bytes inodes => onVolume (commit fun volume => (volume.configureQuota bytes inodes).map Prod.snd)
  | createSnapshot id defaultName name note =>
    commit fun storage => (storage.createSnapshot id defaultName name note).map Prod.snd
  | deleteSnapshot nameOrId => commit fun storage => (storage.deleteSnapshot nameOrId).map Prod.snd
  | restoreSnapshot nameOrId => commit fun storage => (storage.restoreSnapshot nameOrId).map Prod.snd

def step (storage : SnapshotStorage) (action : QuotaAction) : SnapshotStorage := action.perform.left storage

/-- The action ends with the abort of a quota trigger. -/
def Rejected (storage : SnapshotStorage) (action : QuotaAction) : Prop :=
  ∃ message after, (message = "AIRYFS_ENOSPC_INODES" ∨ message = "AIRYFS_ENOSPC_BYTES") ∧
    action.perform storage = .error (.abort message) after

variable {storage : SnapshotStorage}

theorem keeps_statement (statement : Statement) :
    Keeps Volume.WithinQuota (commit fun volume => statement.execute volume) :=
  keeps_commit fun _ _ within done => statement.admitted done |>.within within

theorem keeps_onVolume {computation : Attempt Failure Volume Unit} (kept : Keeps Volume.WithinQuota computation) :
    Keeps (fun storage : SnapshotStorage => storage.volume.WithinQuota) (onVolume computation) :=
  keeps_within (fun _ within => within) (fun _ _ within => within) kept

/-- One case for each kind of action. -/
theorem keeps_perform (action : QuotaAction) :
    Keeps (fun storage : SnapshotStorage => storage.volume.WithinQuota) action.perform := by
  cases action with
  | statement statement => exact keeps_onVolume (keeps_statement statement)
  | transaction statements => exact keeps_onVolume (keeps_atomic (keeps_forM keeps_statement))
  | configureQuota bytes inodes =>
    refine keeps_onVolume (keeps_commit fun volume volume' within done => ?_)
    obtain ⟨quota, configured⟩ := Except.of_map_snd done
    exact Volume.configureQuota_within within configured
  | createSnapshot id defaultName name note =>
    refine keeps_commit fun storage storage' within done => ?_
    obtain ⟨info, created⟩ := Except.of_map_snd done
    obtain ⟨_, _, created⟩ := bind_eq_ok.mp created
    obtain ⟨_, _, created⟩ := bind_eq_ok.mp created
    obtain ⟨_, _, created⟩ := bind_eq_ok.mp created
    obtain ⟨_, _, created⟩ := bind_eq_ok.mp created
    obtain ⟨_, _, created⟩ := bind_eq_ok.mp created
    obtain ⟨_, _, created⟩ := bind_eq_ok.mp created
    obtain ⟨_, _, created⟩ := bind_eq_ok.mp created
    obtain ⟨_, _, created⟩ := bind_eq_ok.mp created
    rw [← (Prod.mk.inj (pure_eq_ok.mp created)).2]
    exact within
  | deleteSnapshot nameOrId =>
    refine keeps_commit fun storage storage' within done => ?_
    obtain ⟨info, deleted⟩ := Except.of_map_snd done
    obtain ⟨_, _, deleted⟩ := bind_eq_ok.mp deleted
    rw [← (Prod.mk.inj (pure_eq_ok.mp deleted)).2]
    exact within
  | restoreSnapshot nameOrId =>
    refine keeps_commit fun storage storage' within done => ?_
    obtain ⟨info, restored⟩ := Except.of_map_snd done
    obtain ⟨_, _, restored⟩ := bind_eq_ok.mp restored
    obtain ⟨volume, inserted, restored⟩ := bind_eq_ok.mp restored
    rw [← (Prod.mk.inj (pure_eq_ok.mp restored)).2]
    exact ((Volume.deleteTables_admitted storage.volume).trans (Volume.insertTables_admitted inserted)).within within

/-- An action that fails leaves everything as it was. -/
theorem post_perform (action : QuotaAction) (storage : SnapshotStorage) :
    Post action.perform storage (fun _ _ => True) fun _ after => after = storage := by
  cases action with
  | statement statement => exact post_within.mpr (post_commit.mpr ⟨fun _ _ => trivial, fun _ _ => rfl⟩)
  | transaction statements =>
    refine post_within.mpr (post_atomic.mpr ?_)
    unfold Post
    split
    · trivial
    · rfl
  | configureQuota bytes inodes => exact post_within.mpr (post_commit.mpr ⟨fun _ _ => trivial, fun _ _ => rfl⟩)
  | createSnapshot id defaultName name note => exact post_commit.mpr ⟨fun _ _ => trivial, fun _ _ => rfl⟩
  | deleteSnapshot nameOrId => exact post_commit.mpr ⟨fun _ _ => trivial, fun _ _ => rfl⟩
  | restoreSnapshot nameOrId => exact post_commit.mpr ⟨fun _ _ => trivial, fun _ _ => rfl⟩

theorem within_run (start : storage.volume.WithinQuota) (actions : List QuotaAction) :
    (run step storage actions).volume.WithinQuota := by
  induction actions using List.reverseRecOn with
  | nil => exact start
  | append_singleton actions action ih =>
    rw [run_concat]
    exact Post.left (keeps_perform action _ ih)

/-- In every committed state the volume is within its quotas, and an action that a quota refuses changes no table. -/
theorem quotas_enforced (start : storage.volume.WithinQuota) (actions : List QuotaAction) :
    (run step storage actions).volume.WithinQuota ∧
      ∀ action, Rejected (run step storage actions) action →
        (step (run step storage actions) action).volume = (run step storage actions).volume := by
  refine ⟨within_run start actions, ?_⟩
  rintro action ⟨message, after, _, refused⟩
  rw [step, left_of_error refused, Post.of_error (post_perform action _) refused]

/-- A volume that may hold three bytes in two inodes, and holds one file. -/
def filled : List QuotaAction :=
  [.configureQuota (some (.integer 3)) (some (.integer 2)),
    .statement (.mutation (.operation (.writeFile 4096 "/a".toList [1, 2])))]

/-- The file may not grow by two bytes. -/
def grown : QuotaAction := .statement (.mutation (.pwrite ⟨2, 4096⟩ 2 [3, 4]))

theorem quotas_enforced_filled : (run step (SnapshotStorage.initial 0) filled).volume.WithinQuota ∧
    (step (run step (SnapshotStorage.initial 0) filled) grown).volume = (run step (SnapshotStorage.initial 0) filled).volume := by
  have start : (SnapshotStorage.initial 0).volume.WithinQuota := ⟨by decide, by decide⟩
  obtain ⟨within, refused⟩ := quotas_enforced start filled
  exact ⟨within, refused grown ⟨"AIRYFS_ENOSPC_BYTES", _, .inr rfl, rfl⟩⟩

end QuotaAction

end AiryFS
