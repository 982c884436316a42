import AiryFS.Direct.Listing
import AiryFS.Namespace.DirectLinks

/-! What the creating operations of the direct adapter add to the tables. -/

set_option autoImplicit false

namespace AiryFS

open Foundation

/-- No quota is configured. -/
def Volume.Unlimited (volume : Volume) : Prop := volume.config.quotaInodes = none ∧ volume.config.quotaBytes = none

namespace AgentFS

open Volume

variable {volume volume' : Volume} {chunkSize : Nat} {ino parentIno : Int} {name path : Text}

/-! ## A new inode under a new entry -/

/-- What `createInode` and `createDentry` leave, one after the other. -/
theorem created_adds {mode uid gid : Int} {made : Volume} (inserted : createInode volume mode uid gid = .ok (ino, made))
    (created : createDentry made parentIno name ino = .ok volume') : Adds ino parentIno name volume volume' ∧
      volume'.inode? ino = some { InodeRow.create mode uid gid volume.now with ino, nlink := 1 } ∧
      volume'.chunk? ino = volume.chunk? ino ∧ volume'.symlink = volume.symlink := by
  obtain ⟨entered, placed, rfl⟩ := createDentry_ok created
  have rows := fun other => volume.inode?_insertInode inserted other
  obtain ⟨fresh, _, inode, _, rfl⟩ := volume.insertInode_ok inserted
  obtain ⟨dentry, feed, stored, rfl⟩ := insertDentry_ok _ placed
  obtain ⟨absent, appended⟩ := Table.insert?_eq_some_iff _ |>.mp stored
  refine ⟨⟨fresh, absent, appended, rfl, rfl, ?_, fun _ _ => rfl, fun _ _ => rfl⟩, ?_, rfl, rfl⟩
  · intro other different
    rw [inode?_updateInode_ne _ _ _ different]
    change Volume.inode? { volume with inode, inodeSequence := ino } other = _
    rw [rows, if_neg different]
  · rw [inode?_updateInode]
    change Option.map _ (Volume.inode? { volume with inode, inodeSequence := ino } ino) = _
    rw [rows, if_pos rfl, Option.map_some, changeRow, if_pos rfl]
    rfl

theorem quotaInsert_unlimited (unlimited : volume.Unlimited) (size : Nat) : volume.quotaInsert size = .ok () := by
  unfold quotaInsert
  rw [unlimited.1, unlimited.2]
  rfl

theorem quotaUpdate_unlimited (unlimited : volume.Unlimited) (old new : Nat) : volume.quotaUpdate old new = .ok () := by
  unfold quotaUpdate
  rw [unlimited.2]
  rfl

theorem created_ok (unlimited : volume.Unlimited) (numbered : volume.Numbered) (absent : volume.dentry? parentIno name = none)
    (mode : Int) : ∃ made volume', createInode volume mode 0 0 = .ok (volume.inodeSequence + 1, made) ∧
      createDentry made parentIno name (volume.inodeSequence + 1) = .ok volume' := by
  have free : volume.inode? (volume.inodeSequence + 1) = none := by
    by_contra stored
    have within := numbered.inodes _ stored
    omega
  have numbered_row : ∃ inode, volume.inode.insert?
      { InodeRow.create mode 0 0 volume.now with ino := volume.inodeSequence + 1 } = some inode :=
    volume.inode.insert?_of_absent free
  have entry : ∃ dentry, volume.dentry.insert? ⟨name, parentIno, volume.inodeSequence + 1⟩ = some dentry :=
    volume.dentry.insert?_of_absent absent
  obtain ⟨inode, stored⟩ := numbered_row
  obtain ⟨dentry, entered⟩ := entry
  have inserted : createInode volume mode 0 0 =
      .ok (volume.inodeSequence + 1, { volume with inode, inodeSequence := volume.inodeSequence + 1 }) := by
    unfold createInode insertInode
    dsimp only
    rw [quotaInsert_unlimited unlimited, stored]
    rfl
  have created : ∃ volume', createDentry { volume with inode, inodeSequence := volume.inodeSequence + 1 } parentIno name
      (volume.inodeSequence + 1) = .ok volume' := by
    unfold createDentry insertDentry
    dsimp only
    rw [entered]
    exact ⟨_, rfl⟩
  obtain ⟨volume', placed⟩ := created
  exact ⟨_, volume', inserted, placed⟩

/-! ## Directories -/

theorem mkdir_adds (made : mkdir volume path = .ok volume') : ∃ parentIno name ino,
    resolveParent volume path = some (parentIno, name) ∧ Adds ino parentIno name volume volume' ∧
      volume'.Stored chunkSize ino .directory := by
  obtain ⟨_, _, made⟩ := bind_eq_ok.mp made
  obtain ⟨⟨parentIno, name⟩, parent, made⟩ := bind_eq_ok.mp made
  obtain ⟨_, _, made⟩ := bind_eq_ok.mp made
  obtain ⟨⟨dirIno, stored⟩, inserted, made⟩ := bind_eq_ok.mp made
  rw [required_eq_ok, resolveParent_normalizePath] at parent
  cases created : createDentry stored parentIno name dirIno with
  | error failure => simp [created, Except.mapError] at made
  | ok entered =>
    simp only [created, Except.mapError, Except.ok.injEq] at made
    subst made
    obtain ⟨adds, row, _, _⟩ := created_adds inserted created
    exact ⟨parentIno, name, dirIno, parent, adds, _, row, isDirectory_default⟩

theorem mkdir_parent (made : mkdir volume path = .ok volume') (parent : resolveParent volume path = some (parentIno, name)) :
    resolvePath volume path = none ∧ knownFile (getInodeMode volume parentIno) = false := by
  obtain ⟨_, free, made⟩ := bind_eq_ok.mp made
  obtain ⟨⟨parentIno', name'⟩, parent', made⟩ := bind_eq_ok.mp made
  obtain ⟨_, checked, _⟩ := bind_eq_ok.mp made
  rw [required_eq_ok, resolveParent_normalizePath, parent, Option.some.injEq, Prod.mk.injEq] at parent'
  rw [refuse_eq_ok, resolvePath_normalizePath] at free
  rw [refuse_eq_ok, ← parent'.1] at checked
  exact ⟨by simpa using free, by simpa using checked⟩

/-- What a quota raises is no error of the adapter. -/
theorem quotaInsert_error {size : Nat} {failure : FsError} : volume.quotaInsert size ≠ .error (.fs failure) := by
  intro refused
  unfold quotaInsert at refused
  dsimp only at refused
  split at refused
  · split at refused
    · cases refused
    · split at refused
      · split at refused <;> cases refused
      · cases refused
  · split at refused
    · split at refused <;> cases refused
    · cases refused

theorem createInode_error {mode uid gid : Int} {failure : FsError} : createInode volume mode uid gid ≠ .error (.fs failure) := by
  intro failed
  unfold createInode insertInode at failed
  dsimp only at failed
  cases admitted : volume.quotaInsert (InodeRow.create mode uid gid volume.now).size with
  | error raised =>
    rw [admitted] at failed
    rw [show raised = .fs failure from Except.error.inj failed] at admitted
    exact quotaInsert_error admitted
  | ok _ =>
    rw [admitted, ok_bind] at failed
    split at failed <;> cases failed

/-- Nothing but what is there is said to be there. -/
theorem mkdir_exists {syscall message : String} {place : Text} (failed : mkdir volume path = .error (.fs ⟨.EEXIST, syscall, place, message⟩)) :
    ∃ ino, resolvePath volume path = some ino := by
  by_contra missing
  have unresolved : ¬(resolvePath volume (normalizePath path)).isSome = true := by
    rw [resolvePath_normalizePath, Option.isSome_iff_exists]
    exact missing
  unfold mkdir at failed
  dsimp only at failed
  rw [refuse_of_not unresolved, ok_bind, resolveParent_normalizePath] at failed
  cases parent : resolveParent volume path with
  | none =>
    rw [parent] at failed
    cases failed
  | some above =>
    obtain ⟨parentIno, name⟩ := above
    simp only [parent, required, ok_bind] at failed
    by_cases file : knownFile (getInodeMode volume parentIno) = true
    · rw [refuse, if_pos file] at failed
      cases failed
    · rw [refuse_of_not file, ok_bind] at failed
      cases inserted : createInode volume DEFAULT_DIR_MODE 0 0 with
      | error failure =>
        rw [inserted] at failed
        rw [Except.error.inj failed] at inserted
        exact createInode_error inserted
      | ok made =>
        rw [inserted, ok_bind] at failed
        obtain ⟨_, _, inode, _, same⟩ := volume.insertInode_ok inserted
        have absent : volume.dentry? parentIno name = none := by
          have own := resolvePath_of_parent parent
          cases found : volume.dentry? parentIno name with
          | none => rfl
          | some entry =>
            rw [found] at own
            exact absurd ⟨_, own⟩ missing
        have entry : ∃ dentry, made.2.dentry.insert? ⟨name, parentIno, made.1⟩ = some dentry := by
          rw [same]
          exact volume.dentry.insert?_of_absent absent
        obtain ⟨dentry, entered⟩ := entry
        simp [createDentry, insertDentry, entered, bind, Except.bind, Except.mapError, pure, Except.pure] at failed

/-- The conditions under which the checks of `mkdir` pass. -/
theorem mkdir_ok (unlimited : volume.Unlimited) (numbered : volume.Numbered)
    (parent : resolveParent volume path = some (parentIno, name)) (absent : volume.dentry? parentIno name = none)
    (directory : knownFile (getInodeMode volume parentIno) = false) : ∃ volume', mkdir volume path = .ok volume' := by
  obtain ⟨made, volume', inserted, created⟩ := @created_ok volume parentIno name unlimited numbered absent DEFAULT_DIR_MODE
  have missing : ¬(resolvePath volume (normalizePath path)).isSome = true := by
    rw [resolvePath_normalizePath, resolvePath_of_parent parent, absent]
    simp
  refine ⟨volume', ?_⟩
  unfold mkdir
  dsimp only
  rw [refuse_of_not missing, resolveParent_normalizePath, parent]
  simp only [required, bind, Except.bind]
  rw [refuse_of_not (by rw [directory]; simp), inserted]
  simp only [created]
  rfl

/-! ## Symbolic links -/

theorem setSize_ok {size : Nat} (resized : setSize volume ino size = .ok volume') :
    volume' = volume.updateInode ino fun row => { row with size := size } := by
  unfold setSize at resized
  split at resized
  · rename_i absent
    rw [updateInode_of_absent volume ino _ absent]
    exact (pure_eq_ok.mp resized).symm
  · obtain ⟨_, _, resized⟩ := bind_eq_ok.mp resized
    exact (pure_eq_ok.mp resized).symm

theorem updateInode_touches (volume : Volume) (ino : Int) (change : InodeRow → InodeRow) :
    Touches ino volume (volume.updateInode ino change) :=
  ⟨rfl, rfl, rfl, fun _ different => inode?_updateInode_ne _ _ _ different, fun _ _ => rfl, fun _ _ => rfl⟩

theorem insertSymlink_touches {target : Text} (inserted : volume.insertSymlink ino target = .ok volume') :
    Touches ino volume volume' ∧ volume'.inode = volume.inode ∧ volume'.symlink.find? ino = some ⟨ino, target⟩ := by
  unfold insertSymlink at inserted
  split at inserted
  · cases inserted
  · rename_i symlink stored
    rw [← Except.ok.inj inserted]
    have found := volume.symlink.find?_insert stored
    refine ⟨⟨rfl, rfl, rfl, fun _ _ => rfl, fun _ _ => rfl, ?_⟩, rfl, ?_⟩
    · intro other different
      exact (found other).trans (if_neg different)
    · exact (found ino).trans (if_pos rfl)

theorem isSymlink_created : isSymlink ((S_IFLNK ||| 0o777 : Nat) : Int) = true := by decide

theorem symlink_adds {target : Text} (linked : symlink volume target path = .ok volume') : ∃ parentIno name ino,
    resolveParent volume path = some (parentIno, name) ∧ Adds ino parentIno name volume volume' ∧
      volume'.Stored chunkSize ino (.symlink target) := by
  obtain ⟨_, _, linked⟩ := bind_eq_ok.mp linked
  obtain ⟨⟨parentIno, name⟩, parent, linked⟩ := bind_eq_ok.mp linked
  obtain ⟨⟨symlinkIno, stored⟩, inserted, linked⟩ := bind_eq_ok.mp linked
  obtain ⟨entered, created, linked⟩ := bind_eq_ok.mp linked
  obtain ⟨targeted, aimed, linked⟩ := bind_eq_ok.mp linked
  rw [required_eq_ok, resolveParent_normalizePath] at parent
  obtain ⟨adds, row, _, _⟩ := created_adds inserted created
  obtain ⟨touches, inode, found⟩ := insertSymlink_touches aimed
  rw [setSize_ok linked]
  refine ⟨parentIno, name, symlinkIno, parent, adds.touches (touches.trans (updateInode_touches _ _ _)), ?_, ?_⟩
  · have same : targeted.inode? symlinkIno = entered.inode? symlinkIno := by rw [Volume.inode?, inode, Volume.inode?]
    rw [inode?_updateInode, same, row]
    refine ⟨_, rfl, ?_⟩
    rw [changeRow, if_pos rfl]
    exact isSymlink_created
  · exact found

theorem symlink_ok {target : Text} (unlimited : volume.Unlimited) (numbered : volume.Numbered)
    (parent : resolveParent volume path = some (parentIno, name)) (absent : volume.dentry? parentIno name = none) :
    ∃ volume', symlink volume target path = .ok volume' := by
  obtain ⟨made, entered, inserted, created⟩ := @created_ok volume parentIno name unlimited numbered absent
    ((S_IFLNK ||| 0o777 : Nat) : Int)
  obtain ⟨adds, row, _, symlinks⟩ := created_adds inserted created
  have missing : ¬(resolvePath volume (normalizePath path)).isSome = true := by
    rw [resolvePath_normalizePath, resolvePath_of_parent parent, absent]
    simp
  have free : entered.symlink.find? (volume.inodeSequence + 1) = none := by
    rw [symlinks]
    by_contra stored
    have within := numbered.symlinks _ stored
    omega
  have aimed : ∃ table, entered.symlink.insert? ⟨volume.inodeSequence + 1, target⟩ = some table :=
    entered.symlink.insert?_of_absent free
  obtain ⟨table, stored⟩ := aimed
  have unlimited' : Unlimited { entered with symlink := table } := by
    unfold Unlimited
    rw [show ({ entered with symlink := table } : Volume).config = volume.config from adds.config]
    exact unlimited
  have kept : Volume.inode? { entered with symlink := table } (volume.inodeSequence + 1) = some _ := row
  refine ⟨Volume.updateInode { entered with symlink := table } (volume.inodeSequence + 1)
    fun row => { row with size := utf16Length target }, ?_⟩
  unfold symlink
  dsimp only
  rw [refuse_of_not missing, resolveParent_normalizePath, parent]
  simp only [required, bind, Except.bind, inserted, created, insertSymlink, stored]
  unfold setSize
  rw [kept]
  simp only [bind, Except.bind]
  rw [quotaUpdate_unlimited unlimited']
  rfl

/-! ## File contents -/

theorem isDirectory_of_isRegular {mode : Int} (regular : isRegular mode = true) : isDirectory mode = false := by
  unfold isRegular at regular
  unfold isDirectory
  rw [beq_iff_eq] at regular
  rw [regular]
  decide

theorem resizeInode_unlimited (unlimited : volume.Unlimited) (ino : Int) (change : InodeRow → InodeRow) :
    ∃ volume', volume.resizeInode ino change = .ok volume' := by
  unfold resizeInode
  split
  · exact ⟨_, rfl⟩
  · rw [quotaUpdate_unlimited unlimited]
    exact ⟨_, rfl⟩

theorem rewrites_touches {written : Volume} {change : InodeRow → InodeRow} (rewrites : Rewrites ino volume written)
    (resized : written.resizeInode ino change = .ok volume') : Touches ino volume volume' := by
  obtain ⟨⟨data, rfl⟩, others⟩ := rewrites
  rw [resizeInode_ok _ _ _ resized]
  refine ⟨modifyInode_dentry _ _ _, modifyInode_sequence _ _ _, modifyInode_config _ _ _, ?_, ?_, ?_⟩
  · intro other different
    rw [inode?_modifyInode, inode?_updateInode_ne _ _ _ different]
    rfl
  · intro other different
    rw [chunk?_modifyInode]
    exact others other different
  · intro other _
    rw [modifyInode_symlink]

/-- The type of an inode is not what a write changes. -/
theorem rewrites_regular {written : Volume} {change : InodeRow → InodeRow} (rewrites : Rewrites ino volume written)
    (resized : written.resizeInode ino change = .ok volume') (kept : ∀ row, (change row).mode = row.mode) {row : InodeRow}
    (stored : volume.inode? ino = some row) (regular : isRegular row.mode = true) :
    ∃ row, volume'.inode? ino = some row ∧ isRegular row.mode = true := by
  have numbered : row.ino = ino := volume.inode.find?_key stored
  obtain ⟨⟨data, rfl⟩, _⟩ := rewrites
  rw [resizeInode_ok _ _ _ resized, inode?_modifyInode, inode?_updateInode]
  change ∃ row, (volume.inode? ino).map _ = some row ∧ _
  rw [stored, Option.map_some, changeRow, if_pos numbered]
  exact ⟨_, rfl, by simp only [kept, regular]⟩

theorem updateFileContent_nil (volume : Volume) (chunkSize : Nat) (ino : Int) :
    updateFileContent volume chunkSize ino [] = (volume.deleteChunks ino fun _ => true).resizeInode ino
      fun row => { row with size := 0, mtime := volume.now } := by
  have none : chunksOf chunkSize [] = [] := by
    unfold chunksOf
    cases chunkSize with
    | zero => rfl
    | succ size =>
      have few : (([] : Bytes).length + (size + 1) - 1) / (size + 1) = 0 := Nat.div_eq_of_lt (by simp)
      rw [few]
      rfl
  unfold updateFileContent insertChunks
  rw [none]
  rfl

theorem emptied (updated : updateFileContent volume chunkSize ino [] = .ok volume') : Touches ino volume volume' ∧
    ((∃ row, volume.inode? ino = some row ∧ isRegular row.mode = true) → volume'.Stored chunkSize ino (.file [])) := by
  rw [updateFileContent_nil] at updated
  have rewrites := volume.deleteChunks_rewrites ino fun _ => true
  refine ⟨rewrites_touches rewrites updated, ?_⟩
  rintro ⟨row, stored, regular⟩
  exact ⟨rewrites.stores updated stored (isDirectory_of_isRegular regular) rfl (.emptied volume chunkSize ino),
    rewrites_regular rewrites updated (fun _ => rfl) stored regular⟩

end AgentFS

namespace AgentFSFile

open Volume

variable {file : AgentFSFile} {volume volume' : Volume} {content : Bytes}

/-- Writing at the end of a file. -/
theorem posixWrite_end (content data : Bytes) : posixWrite content content.length data = content ++ data := by
  unfold posixWrite
  split
  · rename_i none
    rw [none, List.append_nil]
  · rw [patch, pad_of_le (le_refl _), List.take_length, List.drop_eq_nil_of_le (by omega), List.append_nil]

theorem pwrite_touches {offset : Nat} {data : Bytes} (written : file.pwrite volume offset data = .ok volume') :
    Touches file.ino volume volume' ∧ ((∃ row, volume.inode? file.ino = some row ∧ isRegular row.mode = true) →
      ∃ row, volume'.inode? file.ino = some row ∧ isRegular row.mode = true) := by
  unfold pwrite at written
  split at written
  · rw [← pure_eq_ok.mp written]
    exact ⟨.refl _ _, id⟩
  · dsimp only at written
    have gap : Rewrites file.ino volume (if offset > file.currentSize volume then
        file.writeDataAtOffset volume (file.currentSize volume) (List.replicate (offset - file.currentSize volume) 0)
        else volume) := by
      split
      · exact writeDataAtOffset_rewrites _ _ _ _
      · exact .refl _ _
    have rewrites := gap.trans (writeDataAtOffset_rewrites file _ offset data)
    refine ⟨AgentFS.rewrites_touches rewrites written, ?_⟩
    rintro ⟨row, stored, regular⟩
    exact AgentFS.rewrites_regular rewrites written (fun _ => rfl) stored regular

/-- Appending to a file. -/
theorem pwrite_appends {data : Bytes} (positive : 0 < file.chunkSize)
    (written : file.pwrite volume content.length data = .ok volume')
    (stored : volume.Stored file.chunkSize file.ino (.file content)) :
    volume'.Stored file.chunkSize file.ino (.file (content ++ data)) := by
  have stores := (pwrite_ok written).2 positive stored.1
  rw [posixWrite_end] at stores
  exact ⟨stores, (pwrite_touches written).2 stored.2⟩

theorem pwrite_unlimited (unlimited : volume.Unlimited) (offset : Nat) (data : Bytes) :
    ∃ volume', file.pwrite volume offset data = .ok volume' := by
  unfold pwrite
  split
  · exact ⟨_, rfl⟩
  · dsimp only
    refine AgentFS.resizeInode_unlimited ?_ _ _
    have gap : Rewrites file.ino volume (if offset > file.currentSize volume then
        file.writeDataAtOffset volume (file.currentSize volume) (List.replicate (offset - file.currentSize volume) 0)
        else volume) := by
      split
      · exact writeDataAtOffset_rewrites _ _ _ _
      · exact .refl _ _
    obtain ⟨⟨written, same⟩, _⟩ := gap.trans (writeDataAtOffset_rewrites file _ offset data)
    rw [same]
    exact unlimited

end AgentFSFile

end AiryFS
