import AiryFS.Namespace.Ledger

/-! The direct adapter keeps the ledger sound.

It gives a directory one link, its entry, and never counts subdirectories. A directory
that the remote operations counted further must therefore not lose its entry here.
-/

set_option autoImplicit false

namespace AiryFS

open Foundation

namespace AgentFS

variable {volume volume' : Volume}

/-- A directory that no count but its entry's holds. -/
def SingleLink (volume : Volume) (ino : Int) : Prop :=
  ∀ row, volume.inode? ino = some row → isDirectory row.mode = true → row.nlink = 1

/-! ## Creating -/

theorem createDentry_ok {parentIno ino : Int} {name : Text}
    (created : createDentry volume parentIno name ino = .ok volume') :
    ∃ entered, volume.insertDentry { name, parentIno, ino } = .ok entered ∧
      volume' = entered.updateInode ino fun row => { row with nlink := row.nlink + 1 } := by
  obtain ⟨entered, inserted, returned⟩ := bind_eq_ok.mp created
  exact ⟨entered, inserted, (pure_eq_ok.mp returned).symm⟩

/-- `createInode` followed by `createDentry`. -/
theorem created_sound (sound : volume.LinksSound) {mode ino parentIno : Int} {name : Text} {stored : Volume}
    (inserted : createInode volume mode 0 0 = .ok (ino, stored))
    (created : createDentry stored parentIno name ino = .ok volume') : volume'.LinksSound := by
  obtain ⟨entered, placed, rfl⟩ := createDentry_ok created
  obtain ⟨ledger, row, links⟩ := volume.ledger_created inserted placed
  obtain ⟨unlinked, counted⟩ := @Volume.LinksSound.create volume sound _ _ _ inserted ⟨isDirectory mode, 1⟩
    (by split <;> simp)
  rw [unlinked] at ledger links
  unfold Volume.LinksSound
  rw [@Volume.ledger_updateInode entered ino _ (· + 1) (fun _ => rfl), ledger, row, links]
  simpa [InodeRow.create, InodeRow.node] using counted

theorem descend_sound {path : Text} (parts : List Text) (sound : volume.LinksSound) {currentIno : Int}
    (descended : descend path volume currentIno parts = .ok volume') : volume'.LinksSound := by
  induction parts generalizing volume currentIno with
  | nil =>
    rw [← pure_eq_ok.mp descended]
    exact sound
  | cons name parts ih =>
    unfold descend at descended
    split at descended
    · obtain ⟨⟨dirIno, stored⟩, inserted, descended⟩ := bind_eq_ok.mp descended
      obtain ⟨entered, created, descended⟩ := bind_eq_ok.mp descended
      exact ih (created_sound sound inserted created) descended
    · obtain ⟨_, _, descended⟩ := bind_eq_ok.mp descended
      exact ih sound descended

theorem insertChunks_ledger {ino : Int} (chunks : List (Nat × Bytes))
    (inserted : insertChunks volume ino chunks = .ok volume') : volume'.ledger = volume.ledger := by
  induction chunks generalizing volume with
  | nil =>
    rw [← pure_eq_ok.mp inserted]
  | cons chunk chunks ih =>
    obtain ⟨stored, first, rest⟩ := bind_eq_ok.mp inserted
    rw [ih rest]
    exact volume.ledger_insertChunk first

theorem updateFileContent_ledger {chunkSize : Nat} {ino : Int} {buffer : Bytes}
    (updated : updateFileContent volume chunkSize ino buffer = .ok volume') :
    volume'.ledger = volume.ledger := by
  obtain ⟨filled, inserted, resized⟩ := bind_eq_ok.mp updated
  rw [filled.resizeInode_ok _ _ resized]
  rw [Volume.ledger_modifyInode_same, insertChunks_ledger _ inserted]
  · rfl
  · exact fun _ => rfl

theorem writeFile_sound {chunkSize : Nat} {path : Text} {buffer : Bytes} (sound : volume.LinksSound)
    (written : writeFile volume chunkSize path buffer = .ok volume') : volume'.LinksSound := by
  obtain ⟨ensured, descended, written⟩ := bind_eq_ok.mp written
  have ready : ensured.LinksSound := descend_sound _ sound descended
  dsimp only at written
  split at written
  · obtain ⟨_, _, updated⟩ := bind_eq_ok.mp written
    exact ready.congr (updateFileContent_ledger updated)
  · obtain ⟨⟨parentIno, name⟩, _, written⟩ := bind_eq_ok.mp written
    obtain ⟨⟨fileIno, stored⟩, inserted, written⟩ := bind_eq_ok.mp written
    obtain ⟨entered, created, updated⟩ := bind_eq_ok.mp written
    exact (created_sound ready inserted created).congr (updateFileContent_ledger updated)

theorem mkdir_sound {path : Text} (sound : volume.LinksSound) (made : mkdir volume path = .ok volume') :
    volume'.LinksSound := by
  obtain ⟨_, _, made⟩ := bind_eq_ok.mp made
  obtain ⟨⟨parentIno, name⟩, _, made⟩ := bind_eq_ok.mp made
  obtain ⟨_, _, made⟩ := bind_eq_ok.mp made
  obtain ⟨⟨dirIno, stored⟩, inserted, made⟩ := bind_eq_ok.mp made
  -- The handler only renames the failure of `createDentry`.
  cases created : createDentry stored parentIno name dirIno with
  | error failure => simp [created, Except.mapError] at made
  | ok entered =>
    simp only [created, Except.mapError, Except.ok.injEq] at made
    rw [← made]
    exact created_sound sound inserted created

/-! ## Removing -/

theorem removeDentryAndMaybeInode_sound (sound : volume.LinksSound) {parentIno : Int} {name : Text}
    {entry : DentryRow} (found : volume.dentry? parentIno name = some entry)
    (single : SingleLink volume entry.ino) :
    (removeDentryAndMaybeInode volume parentIno name entry.ino).LinksSound := by
  obtain ⟨row, links, stored, linked⟩ := sound.entry found
  have balanced := sound.balanced_some stored
  rw [linked] at balanced
  obtain ⟨kept, gone⟩ := balanced.unlinked (single row stored)
  have present : (volume.ledger.account entry.ino).node ≠ none := by simp [stored]
  -- The ledger after both statements, whether or not the row goes.
  generalize remaining : (volume.deleteDentry parentIno name).updateInode entry.ino
    (fun row => { row with nlink := row.nlink - 1 }) = removed
  have unlinked : (volume.deleteDentry parentIno name).links entry.ino = links := by
    have := volume.links_deleteDentry found entry.ino
    rw [if_pos rfl] at this
    omega
  have ledger : removed.ledger =
      volume.ledger.set entry.ino ⟨some ⟨isDirectory row.mode, row.nlink - 1⟩, links⟩ := by
    rw [← remaining, @Volume.ledger_updateInode _ entry.ino _ (· - 1) (fun _ => rfl),
      volume.ledger_deleteDentry found, Volume.inode?_deleteDentry, stored, unlinked, Ledger.set_set]
    rfl
  have counted : removed.inode? entry.ino = some { row with nlink := row.nlink - 1 } := by
    have numbered : row.ino = entry.ino := volume.inode.find?_key stored
    rw [← remaining, Volume.inode?_updateInode, Volume.inode?_deleteDentry, stored, Option.map_some, Volume.changeRow,
      if_pos numbered]
  unfold removeDentryAndMaybeInode
  dsimp only
  rw [remaining]
  split
  · rename_i last
    have none : row.nlink = 1 := by
      have zero := last.1
      simp only [getLinkCount, counted] at zero
      omega
    have links' : removed.links entry.ino = links := by
      rw [← Volume.ledger_account_links, ledger, Ledger.set_same]
    unfold Volume.LinksSound
    rw [removed.ledger_deleteInode, links', ledger, Ledger.set_set]
    exact Ledger.Sound.set_stored sound present (gone none)
  · unfold Volume.LinksSound
    rw [ledger]
    exact Ledger.Sound.set_stored sound present kept

/-- A path that resolves has its entry in its parent. -/
theorem resolved_entry {path name : Text} {ino parentIno : Int} (resolved : resolvePath volume path = some ino)
    (parent : resolveParent volume path = some (parentIno, name)) :
    ∃ entry, volume.dentry? parentIno name = some entry ∧ entry.ino = ino := by
  rw [resolvePath_of_parent parent, Option.map_eq_some_iff] at resolved
  exact resolved

theorem unlink_sound {path : Text} (sound : volume.LinksSound) (unlinked : unlink volume path = .ok volume') :
    volume'.LinksSound := by
  obtain ⟨_, _, unlinked⟩ := bind_eq_ok.mp unlinked
  obtain ⟨⟨normalizedPath, ino⟩, resolved, unlinked⟩ := bind_eq_ok.mp unlinked
  obtain ⟨_, passed, unlinked⟩ := bind_eq_ok.mp unlinked
  obtain ⟨⟨parentIno, name⟩, parent, returned⟩ := bind_eq_ok.mp unlinked
  rw [refuse_eq_ok] at passed
  rw [required_eq_ok] at parent
  obtain ⟨entry, found, rfl⟩ := resolved_entry (resolvePathOrThrow_ok resolved).2 parent
  rw [← pure_eq_ok.mp returned]
  refine removeDentryAndMaybeInode_sound sound found ?_
  intro row stored directory
  simp [knownDirectory, getInodeMode, stored, directory] at passed

/-- The directory `rmdir` is about to remove. -/
def removedDirectory (volume : Volume) (path : Text) : Option Int :=
  if normalizePath path = ['/'] then none
  else (resolvePath volume path).filter fun ino => !volume.hasChildren ino

theorem rmdir_sound {path : Text} (sound : volume.LinksSound)
    (single : ∀ ino ∈ removedDirectory volume path, SingleLink volume ino)
    (removed : rmdir volume path = .ok volume') : volume'.LinksSound := by
  obtain ⟨_, notRoot, removed⟩ := bind_eq_ok.mp removed
  obtain ⟨⟨normalizedPath, ino⟩, resolved, removed⟩ := bind_eq_ok.mp removed
  obtain ⟨_, _, removed⟩ := bind_eq_ok.mp removed
  obtain ⟨_, childless, removed⟩ := bind_eq_ok.mp removed
  obtain ⟨⟨parentIno, name⟩, parent, returned⟩ := bind_eq_ok.mp removed
  rw [refuse_eq_ok] at notRoot childless
  rw [required_eq_ok] at parent
  have reached := (resolvePathOrThrow_ok resolved).2
  obtain ⟨entry, found, rfl⟩ := resolved_entry reached parent
  rw [← pure_eq_ok.mp returned]
  refine removeDentryAndMaybeInode_sound sound found (single entry.ino ?_)
  rw [resolvePath_normalizePath] at reached
  simp [removedDirectory, notRoot, reached, childless]

/-! ## Renaming -/

/-- The directory `rename` is about to replace: it goes on to a different, existing and
childless destination outside the directory it moves. -/
def replacedDirectory (volume : Volume) (oldPath newPath : Text) : Option Int :=
  let oldNormalized := normalizePath oldPath
  let newNormalized := normalizePath newPath
  if oldNormalized = newNormalized ∨ oldNormalized = ['/'] ∨ newNormalized = ['/'] ∨
      (oldNormalized ++ ['/']).isPrefixOf newNormalized then none
  else if ((resolvePath volume oldPath).bind (getInodeMode volume)).any isDirectory then
    (resolvePath volume newPath).filter fun ino => !volume.hasChildren ino
  else none

theorem clearDestination_sound (sound : volume.LinksSound) {newNormalized newName : Text} {newParentIno : Int}
    {oldIsDir : Bool} (parent : resolveParent volume newNormalized = some (newParentIno, newName))
    (single : oldIsDir = true → ∀ ino, resolvePath volume newNormalized = some ino →
      volume.hasChildren ino = false → SingleLink volume ino)
    (cleared : clearDestination volume newNormalized newParentIno newName oldIsDir = .ok volume') :
    volume'.LinksSound := by
  unfold clearDestination at cleared
  split at cleared
  · rw [← pure_eq_ok.mp cleared]
    exact sound
  · rename_i newIno resolved
    split at cleared
    · rw [← pure_eq_ok.mp cleared]
      exact sound
    · rename_i newMode stored
      obtain ⟨_, overFile, cleared⟩ := bind_eq_ok.mp cleared
      obtain ⟨_, _, cleared⟩ := bind_eq_ok.mp cleared
      obtain ⟨_, childless, returned⟩ := bind_eq_ok.mp cleared
      rw [refuse_eq_ok] at overFile childless
      obtain ⟨entry, found, rfl⟩ := resolved_entry resolved parent
      rw [← pure_eq_ok.mp returned]
      refine removeDentryAndMaybeInode_sound sound found ?_
      intro row present directory
      have typed : isDirectory newMode = true := by
        rw [getInodeMode, present, Option.map_some, Option.some.injEq] at stored
        rw [← stored]
        exact directory
      exact single (by simpa [typed] using overFile) entry.ino resolved (by simpa [typed] using childless) row
        present directory

theorem rename_sound {oldPath newPath : Text} (sound : volume.LinksSound)
    (single : ∀ ino ∈ replacedDirectory volume oldPath newPath, SingleLink volume ino)
    (renamed : rename volume oldPath newPath = .ok volume') : volume'.LinksSound := by
  unfold rename at renamed
  dsimp only at renamed
  split at renamed
  · rw [← pure_eq_ok.mp renamed]
    exact sound
  · rename_i different
    obtain ⟨_, notRoot, renamed⟩ := bind_eq_ok.mp renamed
    obtain ⟨⟨oldParentIno, oldName⟩, _, renamed⟩ := bind_eq_ok.mp renamed
    obtain ⟨⟨newParentIno, newName⟩, newParent, renamed⟩ := bind_eq_ok.mp renamed
    obtain ⟨⟨_, oldIno⟩, oldResolved, renamed⟩ := bind_eq_ok.mp renamed
    obtain ⟨oldMode, oldStored, renamed⟩ := bind_eq_ok.mp renamed
    obtain ⟨_, outside, renamed⟩ := bind_eq_ok.mp renamed
    obtain ⟨cleared, clearing, renamed⟩ := bind_eq_ok.mp renamed
    obtain ⟨moved, moving, renamed⟩ := bind_eq_ok.mp renamed
    rw [refuse_eq_ok] at notRoot outside
    rw [required_eq_ok] at newParent oldStored
    have clear : cleared.LinksSound := by
      refine clearDestination_sound sound newParent ?_ clearing
      intro directory ino resolved childless
      refine single ino ?_
      have reached := (resolvePathOrThrow_ok oldResolved).2
      rw [resolvePath_normalizePath] at reached resolved
      simp only [directory, true_and] at outside
      simp [replacedDirectory, different, notRoot, outside, reached, oldStored, directory, resolved, childless]
    have settled := clear.congr (cleared.ledger_moveDentry moving)
    -- What remains only sets times.
    split at renamed
    · rw [← pure_eq_ok.mp renamed]
      refine settled.congr ?_
      rw [Volume.ledger_modifyInode_same, Volume.ledger_modifyInode_same, Volume.ledger_updateInode_same]
      all_goals exact fun _ => rfl
    · rw [← pure_eq_ok.mp renamed]
      refine settled.congr ?_
      rw [Volume.ledger_modifyInode_same, Volume.ledger_updateInode_same]
      all_goals exact fun _ => rfl

end AgentFS

namespace FilesystemPrimitives

variable {volume volume' : Volume}

theorem updateDirectoryTimes_ledger (volume : Volume) (ino : Int) (timestamp : Timestamp) :
    (updateDirectoryTimes volume ino timestamp).ledger = volume.ledger :=
  volume.ledger_modifyInode_same fun _ => rfl

theorem touch_sound {rawPath : Text} {atime mtime : Option Rat} (sound : volume.LinksSound)
    (touched : touch volume rawPath atime mtime = .ok volume') : volume'.LinksSound := by
  obtain ⟨path, _, touched⟩ := bind_eq_ok.mp touched
  obtain ⟨access, _, touched⟩ := bind_eq_ok.mp touched
  obtain ⟨modify, _, touched⟩ := bind_eq_ok.mp touched
  obtain ⟨found, _, touched⟩ := bind_eq_ok.mp touched
  split at touched
  · obtain ⟨_, _, returned⟩ := bind_eq_ok.mp touched
    rw [← pure_eq_ok.mp returned]
    refine sound.congr ?_
    rw [Volume.ledger_modifyInode_same]
    exact fun _ => rfl
  · obtain ⟨⟨parent, name⟩, _, touched⟩ := bind_eq_ok.mp touched
    obtain ⟨⟨ino, stored⟩, inserted, touched⟩ := bind_eq_ok.mp touched
    obtain ⟨entered, placed, returned⟩ := bind_eq_ok.mp touched
    rw [← pure_eq_ok.mp returned]
    obtain ⟨ledger, row, links⟩ := volume.ledger_created inserted placed
    obtain ⟨unlinked, counted⟩ := @Volume.LinksSound.create volume sound _ _ _ inserted ⟨false, 1⟩ rfl
    rw [unlinked] at ledger links
    refine Volume.LinksSound.congr ?_ (updateDirectoryTimes_ledger _ parent.ino _)
    unfold Volume.LinksSound
    rw [@Volume.ledger_updateInode entered ino _ (fun _ => 1) (fun _ => rfl), ledger, row, links]
    simpa [touchedRow, InodeRow.create, InodeRow.node] using counted

theorem link_sound {rawExisting rawPath : Text} (sound : volume.LinksSound)
    (linked : link volume rawExisting rawPath = .ok volume') : volume'.LinksSound := by
  obtain ⟨existing, _, linked⟩ := bind_eq_ok.mp linked
  obtain ⟨path, _, linked⟩ := bind_eq_ok.mp linked
  obtain ⟨source, resolved, linked⟩ := bind_eq_ok.mp linked
  obtain ⟨_, file, linked⟩ := bind_eq_ok.mp linked
  obtain ⟨taken, _, linked⟩ := bind_eq_ok.mp linked
  obtain ⟨_, _, linked⟩ := bind_eq_ok.mp linked
  obtain ⟨⟨parent, name⟩, _, linked⟩ := bind_eq_ok.mp linked
  obtain ⟨entered, placed, returned⟩ := bind_eq_ok.mp linked
  rw [refuse_eq_ok, Bool.not_eq_true] at file
  rw [← pure_eq_ok.mp returned]
  refine Volume.LinksSound.congr ?_ (updateDirectoryTimes_ledger _ parent.ino _)
  exact sound.linkEntry (resolveRequired_ok volume resolved) file placed fun _ => rfl

end FilesystemPrimitives

end AiryFS
