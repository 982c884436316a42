import AiryFS.Direct.Creating

/-! What one copied file holds.

The chunk rows of the source go under the inode of the copy, which has none by then.
-/

set_option autoImplicit false

namespace AiryFS

open Foundation

namespace AgentFS

open Volume

variable {volume volume' : Volume} {ino source other : Int} {src dest : Text}

theorem insertChunk_chunks {index : Nat} {data : Bytes} (inserted : volume.insertChunk ino index data = .ok volume') :
    Rewrites ino volume volume' ∧ volume.chunk? ino index = none ∧
      volume'.chunk? ino = Function.update (volume.chunk? ino) index (some data) := by
  unfold insertChunk at inserted
  split at inserted
  · cases inserted
  · rename_i table stored
    rw [← Except.ok.inj inserted]
    have found := volume.data.find?_insert stored
    have absent := (volume.data.insert?_eq_some_iff.mp stored).1
    refine ⟨⟨⟨table, rfl⟩, ?_⟩, by rw [chunk?]; exact congrArg (Option.map DataRow.data) absent, ?_⟩
    · intro other different
      funext index'
      rw [chunk?, found, if_neg, chunk?]
      rw [DataRow.key, Prod.mk.injEq]
      exact fun both => different both.1
    · funext index'
      rw [chunk?, found, Function.update_apply, chunk?]
      by_cases same : index' = index
      · rw [if_pos (by rw [same]; rfl), if_pos same, Option.map_some]
      · rw [if_neg (by rw [DataRow.key, Prod.mk.injEq]; exact fun both => same both.2), if_neg same]

/-- Induction on the chunks: each row stays, and no index is met twice. -/
theorem insertChunks_chunks {chunks : List (Nat × Bytes)} (inserted : insertChunks volume ino chunks = .ok volume') :
    Rewrites ino volume volume' ∧ (∀ index data, volume.chunk? ino index = some data → volume'.chunk? ino index = some data) ∧
      (∀ chunk ∈ chunks, volume'.chunk? ino chunk.1 = some chunk.2) ∧
      ∀ index, (∀ chunk ∈ chunks, chunk.1 ≠ index) → volume'.chunk? ino index = volume.chunk? ino index := by
  induction chunks generalizing volume with
  | nil =>
    rw [← pure_eq_ok.mp inserted]
    exact ⟨.refl ino volume, fun _ _ => id, fun _ member => (by cases member), fun _ _ => rfl⟩
  | cons chunk chunks ih =>
    unfold insertChunks at inserted
    rw [List.foldlM_cons] at inserted
    obtain ⟨middle, first, rest⟩ := bind_eq_ok.mp inserted
    obtain ⟨rewrites, absent, placed⟩ := insertChunk_chunks first
    obtain ⟨rewrites', kept, all, none_else⟩ := ih rest
    refine ⟨rewrites.trans rewrites', ?_, ?_, ?_⟩
    · intro index data stored
      apply kept
      rw [placed, Function.update_of_ne, stored]
      rintro rfl
      rw [absent] at stored
      cases stored
    · intro listed member
      rcases List.mem_cons.mp member with rfl | later
      · apply kept
        rw [placed, Function.update_self]
      · exact all listed later
    · intro index apart
      rw [none_else index fun listed member => apart listed (List.mem_cons_of_mem _ member), placed,
        Function.update_of_ne (apart chunk List.mem_cons_self).symm]

theorem mem_chunkRows {index : Nat} {data : Bytes} :
    (index, data) ∈ (volume.chunkRows source fun _ => true).map (fun row => (row.chunkIndex, row.data)) ↔
      volume.chunk? source index = some data := by
  unfold chunkRows
  simp only [List.mem_map, List.mem_insertionSort, List.mem_filter, Bool.and_true, decide_eq_true_eq, Prod.mk.injEq]
  rw [chunk?, Option.map_eq_some_iff]
  constructor
  · rintro ⟨row, ⟨member, rfl⟩, rfl, rfl⟩
    exact ⟨row, volume.data.find?_of_mem member, rfl⟩
  · rintro ⟨row, found, rfl⟩
    have key := volume.data.find?_key found
    rw [DataRow.key, Prod.mk.injEq] at key
    exact ⟨row, ⟨volume.data.find?_mem found, key.1⟩, key.2, rfl⟩

/-- An inode that has no chunks gets those of the source. -/
theorem copyChunks_chunks (copied : copyChunks volume source ino = .ok volume') (empty : volume.chunk? ino = fun _ => none) :
    Rewrites ino volume volume' ∧ volume'.chunk? ino = volume.chunk? source := by
  obtain ⟨rewrites, _, all, none_else⟩ := insertChunks_chunks copied
  refine ⟨rewrites, ?_⟩
  funext index
  cases stored : volume.chunk? source index with
  | some data => exact all (index, data) (mem_chunkRows.mpr stored)
  | none =>
    rw [none_else index, empty]
    rintro ⟨index', data⟩ member rfl
    rw [mem_chunkRows, stored] at member
    cases member

/-- The inode holds what the row says, and the chunks of the source. -/
structure Copies (before after : Volume) (source : Int) (row : InodeRow) (ino : Int) : Prop where
  row : ∃ row', after.inode? ino = some row' ∧ row'.mode = row.mode ∧ row'.size = row.size
  chunks : after.chunk? ino = before.chunk? source

theorem inode?_resized {change : InodeRow → InodeRow} {row : InodeRow} (resized : volume.resizeInode ino change = .ok volume')
    (stored : volume.inode? ino = some row) : volume'.inode? ino = some { change row with ino := row.ino } := by
  have numbered : row.ino = ino := volume.inode.find?_key stored
  rw [resizeInode_ok _ _ _ resized, inode?_modifyInode, inode?_updateInode, stored, Option.map_some, changeRow,
    if_pos numbered]

/-- The old contents are gone before the new come in, so nothing but the source must be another inode. -/
theorem overwriteFile_effect {row : InodeRow} (written : overwriteFile volume source ino row = .ok volume') :
    Touches ino volume volume' ∧ (source ≠ ino → (∃ old, volume.inode? ino = some old) → Copies volume volume' source row ino) := by
  obtain ⟨filled, copied, resized⟩ := bind_eq_ok.mp written
  have emptied := volume.deleteChunks_rewrites ino fun _ => true
  have empty : (volume.deleteChunks ino fun _ => true).chunk? ino = fun _ => none := by
    funext index
    rw [chunk?_deleteChunks, if_pos rfl]
  obtain ⟨rewrites, chunks⟩ := copyChunks_chunks copied empty
  have whole := emptied.trans rewrites
  refine ⟨rewrites_touches whole resized, ?_⟩
  rintro different ⟨old, stored⟩
  have stored' : filled.inode? ino = some old := by
    obtain ⟨⟨data, rfl⟩, _⟩ := whole
    exact stored
  refine ⟨⟨_, inode?_resized resized stored', rfl, rfl⟩, ?_⟩
  rw [resizeInode_ok _ _ _ resized, chunk?_modifyInode, chunks, emptied.others source different]

theorem duplicateFile_effect {row : InodeRow} {parent : Int} {name : Text} (numbered : volume.Numbered)
    (stored : volume.inode? source = some row)
    (written : duplicateFile volume source row parent name = .ok volume') :
    ∃ ino, Adds ino parent name volume volume' ∧ Copies volume volume' source row ino := by
  obtain ⟨⟨ino, made⟩, inserted, written⟩ := bind_eq_ok.mp written
  obtain ⟨entered, created, written⟩ := bind_eq_ok.mp written
  obtain ⟨filled, copied, resized⟩ := bind_eq_ok.mp written
  obtain ⟨adds, found, chunks, _⟩ := created_adds inserted created
  have fresh := adds.fresh
  have empty : entered.chunk? ino = fun _ => none := by
    rw [chunks]
    by_contra held
    have within := numbered.chunks ino held
    omega
  obtain ⟨rewrites, placed⟩ := copyChunks_chunks copied empty
  have different : source ≠ ino := by
    have within := numbered.inodes source (by simp [stored])
    omega
  have found' : filled.inode? ino = some { InodeRow.create row.mode row.uid row.gid volume.now with ino, nlink := 1 } := by
    obtain ⟨⟨data, rfl⟩, _⟩ := rewrites
    exact found
  refine ⟨ino, adds.touches (rewrites_touches rewrites resized), ⟨_, inode?_resized resized found', rfl, rfl⟩, ?_⟩
  rw [resizeInode_ok _ _ _ resized, chunk?_modifyInode, placed, adds.chunks source different]

/-- A copy goes onto what is there, unless that is a directory, or under a new entry. -/
theorem copyFile_effect (numbered : volume.Numbered) (copied : copyFile volume src dest = .ok volume') :
    ∃ source row, resolvePath volume src = some source ∧ volume.inode? source = some row ∧ isDirectory row.mode = false ∧
      ((∃ ino, resolvePath volume dest = some ino ∧ ¬knownDirectory (getInodeMode volume ino) ∧ Touches ino volume volume' ∧
          (source ≠ ino → (∃ old, volume.inode? ino = some old) → Copies volume volume' source row ino)) ∨
        resolvePath volume dest = none ∧ ∃ ino parent name, resolveParent volume dest = some (parent, name) ∧
          Adds ino parent name volume volume' ∧ Copies volume volume' source row ino) := by
  obtain ⟨_, _, copied⟩ := bind_eq_ok.mp copied
  obtain ⟨⟨_, source⟩, resolved, copied⟩ := bind_eq_ok.mp copied
  obtain ⟨_, plain, copied⟩ := bind_eq_ok.mp copied
  obtain ⟨row, stored, copied⟩ := bind_eq_ok.mp copied
  obtain ⟨⟨parent, name⟩, above, copied⟩ := bind_eq_ok.mp copied
  rw [required_eq_ok] at stored above
  rw [resolveParent_normalizePath] at above
  have reached := (resolvePathOrThrow_ok resolved).2
  rw [resolvePath_normalizePath] at reached
  have kind : isDirectory row.mode = false := by
    rw [refuse_eq_ok] at plain
    simpa [knownDirectory, getInodeMode, stored] using plain
  refine ⟨source, row, reached, stored, kind, ?_⟩
  dsimp only at copied
  split at copied
  · rename_i ino found
    obtain ⟨_, free, written⟩ := bind_eq_ok.mp copied
    rw [refuse_eq_ok] at free
    rw [resolvePath_normalizePath] at found
    exact .inl ⟨ino, found, free, overwriteFile_effect written⟩
  · rename_i missing
    rw [resolvePath_normalizePath] at missing
    obtain ⟨ino, adds, copies⟩ := duplicateFile_effect numbered stored copied
    exact .inr ⟨missing, ino, parent, name, above, adds, copies⟩

end AgentFS

end AiryFS
