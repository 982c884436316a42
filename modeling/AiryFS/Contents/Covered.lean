import AiryFS.Contents.ByteArray

/-! What the chunks of a file cover.

Both writers keep every chunk within the size of its file, whatever they leave out. So the
chunk rows, one after the other, are the content of the file when they cover all of it.
-/

set_option autoImplicit false

namespace AiryFS

open Foundation

namespace Volume

section Bytes

variable (volume : Volume) (chunkSize : Nat) (ino : Int)

def fileSize : Nat := (volume.inode? ino).elim 0 (·.size)

/-- The byte that a chunk row holds for an offset. -/
def storedByte (offset : Nat) : Option UInt8 :=
  (volume.chunk? ino (offset / chunkSize)).bind fun data => data[offset % chunkSize]?

/-- As many bytes as the inode says, with zeros where no chunk has one. -/
def logicalBytes : Bytes := (List.range (volume.fileSize ino)).map fun offset => (volume.storedByte chunkSize ino offset).getD 0

/-- No byte is left out. -/
def Covered : Prop := ∀ offset < volume.fileSize ino, (volume.storedByte chunkSize ino offset).isSome

instance : Decidable (volume.Covered chunkSize ino) :=
  inferInstanceAs (Decidable (∀ offset < volume.fileSize ino, _))

/-- Each chunk holds something, is no longer than the chunk size, and ends within the length. -/
def Within (length : Nat) : Prop := ∀ index data, volume.chunk? ino index = some data →
  0 < data.length ∧ data.length ≤ chunkSize ∧ index * chunkSize + data.length ≤ length

end Bytes

/-- The chunks of every file are within its size. -/
def Bounded (volume : Volume) (chunkSize : Nat) : Prop :=
  ∀ ino row, volume.inode? ino = some row → volume.Within chunkSize ino row.size

variable {volume volume' : Volume} {chunkSize length : Nat} {ino : Int}

/-! ## Rows and bytes -/

theorem length_logicalBytes (volume : Volume) (chunkSize : Nat) (ino : Int) :
    (volume.logicalBytes chunkSize ino).length = volume.fileSize ino := by
  rw [logicalBytes, List.length_map, List.length_range]

theorem fileSize_eq {row : InodeRow} (stored : volume.inode? ino = some row) : volume.fileSize ino = row.size := by
  rw [fileSize, stored]
  rfl

/-- The rows of a file, each with its index. -/
def placedRows (volume : Volume) (ino : Int) : List (Nat × Bytes) :=
  (volume.chunkRows ino fun _ => true).map fun row => (row.chunkIndex, row.data)

theorem mem_placedRows {index : Nat} {data : Bytes} :
    (index, data) ∈ volume.placedRows ino ↔ volume.chunk? ino index = some data := by
  unfold placedRows chunkRows chunk?
  simp only [List.mem_map, List.mem_insertionSort, List.mem_filter, Bool.and_true, decide_eq_true_eq, Prod.mk.injEq,
    Option.map_eq_some_iff, volume.data.find?_eq_some_iff, DataRow.key]
  constructor
  · rintro ⟨row, ⟨member, own⟩, rfl, rfl⟩
    exact ⟨row, ⟨member, own, rfl⟩, rfl⟩
  · rintro ⟨row, ⟨member, own, same⟩, rfl⟩
    exact ⟨row, ⟨member, own⟩, same, rfl⟩

theorem Within.placed (within : volume.Within chunkSize ino length) : Placed chunkSize length (volume.placedRows ino) where
  ordered := by
    have sorted := List.pairwise_insertionSort (fun first second : DataRow => first.chunkIndex ≤ second.chunkIndex)
      (volume.data.rows.filter fun row => row.ino = ino && true)
    have distinct : (volume.chunkRows ino fun _ => true).Pairwise fun first second => first.chunkIndex ≠ second.chunkIndex := by
      unfold chunkRows
      refine ((List.perm_insertionSort _ _).pairwise_iff fun different => Ne.symm different).mpr ?_
      have unique := List.pairwise_map.mp volume.data.unique
      refine List.Pairwise.imp_of_mem ?_ (unique.filter _)
      intro first second left right different same
      simp only [List.mem_filter, Bool.and_true, decide_eq_true_eq] at left right
      exact different (Prod.ext (left.2.trans right.2.symm) same)
    rw [placedRows, List.pairwise_map]
    exact (sorted.and distinct).imp fun both => lt_of_le_of_ne both.1 both.2
  short row member := (within row.1 row.2 (mem_placedRows.mp member)).2.1
  inside row member := (within row.1 row.2 (mem_placedRows.mp member)).2.2

theorem placedRows_data (volume : Volume) (ino : Int) : (volume.placedRows ino).map Prod.snd =
    (volume.chunkRows ino fun _ => true).map (·.data) := by
  rw [placedRows, List.map_map]
  rfl

theorem mem_chunk_of_place {index place : Nat} {data : Bytes} (short : data.length ≤ chunkSize)
    (reached : index * chunkSize ≤ place) (inside : place < index * chunkSize + data.length) :
    place / chunkSize = index ∧ place % chunkSize = place - index * chunkSize := by
  have spelled : place = place - index * chunkSize + index * chunkSize := by omega
  have small : place - index * chunkSize < chunkSize := by omega
  rw [spelled, Nat.add_mul_div_right _ _ (by omega), Nat.add_mul_mod_self_right, Nat.div_eq_of_lt small, Nat.mod_eq_of_lt small]
  omega

/-- A file whose chunks add up to its size has no byte left out. -/
theorem Within.covered (within : volume.Within chunkSize ino (volume.fileSize ino))
    (full : ((volume.chunkRows ino fun _ => true).map (·.data)).flatten.length = volume.fileSize ino) :
    volume.Covered chunkSize ino := by
  intro offset inside
  have sum : ((volume.placedRows ino).map fun row => row.2.length).sum = volume.fileSize ino - 0 * chunkSize := by
    rw [Nat.zero_mul, Nat.sub_zero, ← full, List.length_flatten, ← placedRows_data, List.map_map]
    rfl
  obtain ⟨row, member, reached, before⟩ := within.placed.covers (fun _ _ => Nat.zero_le _) sum (by omega) inside
  obtain ⟨index, position⟩ := mem_chunk_of_place (within.placed.short row member) reached before
  have stored := mem_placedRows.mp member
  rw [storedByte, index, stored, Option.bind_some, position, isSome_getElem?]
  omega

/-- The chunks of a covered file spell out its content. -/
theorem Covered.laidOut (positive : 0 < chunkSize) (within : volume.Within chunkSize ino (volume.fileSize ino))
    (covered : volume.Covered chunkSize ino) : volume.LaidOut chunkSize ino (volume.logicalBytes chunkSize ino) := by
  unfold LaidOut
  funext index
  rw [layout, length_logicalBytes]
  have byte : ∀ data, volume.chunk? ino index = some data → ∀ i < data.length,
      (chunk chunkSize (volume.logicalBytes chunkSize ino) index)[i]? = data[i]? := by
    intro data stored i small
    obtain ⟨filled, short, inside⟩ := within index data stored
    obtain ⟨here, position⟩ := @mem_chunk_of_place chunkSize index (index * chunkSize + i) data short (by omega) (by omega)
    rw [getElem?_chunk, if_pos (by omega), logicalBytes, List.getElem?_map, List.getElem?_range (by omega), Option.map_some,
      storedByte, here, position, stored, Option.bind_some, Nat.add_sub_cancel_left, List.getElem?_eq_getElem small]
    rfl
  split
  · rename_i started
    obtain ⟨here, position⟩ := @mem_chunk_of_place chunkSize index (index * chunkSize) [0] positive (le_refl _) (by simp)
    have first := covered (index * chunkSize) started
    rw [storedByte, here] at first
    cases stored : volume.chunk? ino index with
    | none =>
      rw [stored] at first
      cases first
    | some data =>
      congr 1
      symm
      obtain ⟨filled, short, inside⟩ := within index data stored
      -- A chunk that ends too early would leave the next byte out.
      have long : min chunkSize (volume.fileSize ino - index * chunkSize) ≤ data.length := by
        by_contra early
        obtain ⟨next, place⟩ := @mem_chunk_of_place chunkSize index (index * chunkSize + data.length)
          (data ++ [0]) (by rw [List.length_append, List.length_singleton]; omega) (by omega)
            (by rw [List.length_append, List.length_singleton]; omega)
        have missing := covered (index * chunkSize + data.length) (by omega)
        rw [storedByte, next, stored, Option.bind_some, place, isSome_getElem?] at missing
        omega
      apply List.ext_getElem?
      intro i
      by_cases small : i < data.length
      · exact byte data stored i small
      · rw [List.getElem?_eq_none, List.getElem?_eq_none (by omega)]
        rw [length_chunk, length_logicalBytes]
        omega
  · rename_i past
    cases stored : volume.chunk? ino index with
    | none => rfl
    | some data =>
      obtain ⟨filled, _, inside⟩ := within index data stored
      omega

theorem Covered.whole (positive : 0 < chunkSize) (within : volume.Within chunkSize ino (volume.fileSize ino))
    (covered : volume.Covered chunkSize ino) :
    ((volume.chunkRows ino fun _ => true).map (·.data)).flatten = volume.logicalBytes chunkSize ino :=
  (covered.laidOut positive within).whole positive

/-- The rows of a file are its content exactly when they leave nothing out. -/
theorem Within.whole_iff (positive : 0 < chunkSize) (within : volume.Within chunkSize ino (volume.fileSize ino)) :
    ((volume.chunkRows ino fun _ => true).map (·.data)).flatten = volume.logicalBytes chunkSize ino ↔
      volume.Covered chunkSize ino := by
  constructor
  · intro same
    apply within.covered
    rw [same, length_logicalBytes]
  · exact fun covered => covered.whole positive within

/-! ## Writing -/

theorem Within.mono (within : volume.Within chunkSize ino length) {longer : Nat} (more : length ≤ longer) :
    volume.Within chunkSize ino longer := by
  intro index data stored
  obtain ⟨filled, short, inside⟩ := within index data stored
  exact ⟨filled, short, by omega⟩

theorem Within.put (within : volume.Within chunkSize ino length) {index : Nat} {data : Bytes} (filled : 0 < data.length)
    (short : data.length ≤ chunkSize) (inside : index * chunkSize + data.length ≤ length) :
    (volume.putChunk ino index data).Within chunkSize ino length := by
  intro other found stored
  rw [chunk?_putChunk, Function.update_apply] at stored
  split at stored
  · rename_i same
    rw [same, ← Option.some.inj stored]
    exact ⟨filled, short, inside⟩
  · exact within other found stored

theorem Within.foldl {step : Volume → Nat → Volume} {indexes : List Nat}
    (each : ∀ (volume : Volume), ∀ index ∈ indexes, volume.Within chunkSize ino length →
      (step volume index).Within chunkSize ino length) (within : volume.Within chunkSize ino length) :
    (indexes.foldl step volume).Within chunkSize ino length := by
  induction indexes generalizing volume with
  | nil => exact within
  | cons index indexes ih =>
    exact ih (fun volume other member => each volume other (List.mem_cons_of_mem _ member))
      (each volume index List.mem_cons_self within)

/-- What is stored of the chunk already, or nothing. -/
theorem Within.existing (within : volume.Within chunkSize ino length) (index : Nat) :
    ((volume.chunk? ino index).getD []).length ≤ chunkSize ∧
      (index * chunkSize + ((volume.chunk? ino index).getD []).length ≤ length ∨
        ((volume.chunk? ino index).getD []).length = 0) := by
  cases stored : volume.chunk? ino index with
  | none => exact ⟨Nat.zero_le _, .inr rfl⟩
  | some data =>
    obtain ⟨_, short, inside⟩ := within index data stored
    exact ⟨short, .inl inside⟩

theorem Within.deleteChunks (within : volume.Within chunkSize ino length) {shorter : Nat} {selected : Nat → Bool}
    (kept : ∀ index, selected index = false → index * chunkSize + chunkSize ≤ shorter) :
    (volume.deleteChunks ino selected).Within chunkSize ino shorter := by
  intro index data stored
  rw [chunk?_deleteChunks] at stored
  split at stored
  · cases stored
  · rename_i unselected
    obtain ⟨filled, short, _⟩ := within index data stored
    have bound := kept index (by simpa using unselected)
    exact ⟨filled, short, by omega⟩

theorem Within.updateChunk (within : volume.Within chunkSize ino length) {index : Nat} {data : Bytes} (filled : 0 < data.length)
    (short : data.length ≤ chunkSize) (inside : index * chunkSize + data.length ≤ length) :
    (volume.updateChunk ino index data).Within chunkSize ino length := by
  unfold Volume.updateChunk
  split
  · exact within
  · exact within.put filled short inside

/-- Only the last chunk can end past a size that it starts in front of. -/
theorem Within.of_last {last newSize : Nat} (within : volume.Within chunkSize ino (last * chunkSize + chunkSize))
    (started : last * chunkSize ≤ newSize)
    (ends : ∀ data, volume.chunk? ino last = some data → last * chunkSize + data.length ≤ newSize) :
    volume.Within chunkSize ino newSize := by
  intro index data stored
  obtain ⟨filled, short, inside⟩ := within index data stored
  refine ⟨filled, short, ?_⟩
  rcases Nat.lt_trichotomy index last with before | same | after
  · have apart := @chunk_before chunkSize _ _ before
    omega
  · rw [same] at stored ⊢
    exact ends data stored
  · have apart := @chunk_before chunkSize _ _ after
    omega

/-- Cutting leaves nothing past the new end. -/
theorem Within.cut (positive : 0 < chunkSize) (within : volume.Within chunkSize ino length) {newSize : Nat} (more : 0 < newSize) :
    (volume.cutChunks ino chunkSize newSize).Within chunkSize ino newSize := by
  have reached := @last_chunk chunkSize newSize more
  have remainder := @last_mod chunkSize positive newSize more
  have low := Nat.mod_lt (newSize - 1) positive
  have dropped := @Within.deleteChunks _ _ _ _ within ((newSize - 1) / chunkSize * chunkSize + chunkSize)
    (fun chunkIndex => chunkIndex > (newSize - 1) / chunkSize) (by
      intro index kept
      have upto : index ≤ (newSize - 1) / chunkSize := by simpa using kept
      have bound := Nat.mul_le_mul_right chunkSize upto
      omega)
  unfold cutChunks
  dsimp only
  generalize (volume.deleteChunks ino fun chunkIndex => chunkIndex > (newSize - 1) / chunkSize) = shortened at dropped ⊢
  generalize (newSize - 1) / chunkSize = last at reached dropped ⊢
  split
  · rename_i partial_
    rw [if_neg (by split at remainder <;> omega)] at remainder
    split
    · rename_i absent
      exact dropped.of_last (by omega) fun data stored => by rw [absent] at stored; cases stored
    · rename_i existing present
      have short := (dropped last existing present).2.1
      split
      · rename_i long
        refine Within.of_last (dropped.updateChunk ?_ ?_ ?_) (by omega) ?_
        · rw [List.length_take]
          omega
        · rw [List.length_take]
          omega
        · rw [List.length_take]
          omega
        · intro data stored
          rw [chunk?_updateChunk _ present, Function.update_self] at stored
          rw [← Option.some.inj stored, List.length_take]
          omega
      · rename_i fits
        refine dropped.of_last (by omega) ?_
        intro data stored
        rw [present] at stored
        rw [← Option.some.inj stored]
        omega
  · rename_i whole
    have full : (newSize - 1) % chunkSize + 1 = chunkSize := by
      by_contra other
      rw [if_neg other] at remainder
      omega
    exact dropped.mono (by omega)

theorem Within.congr (within : volume.Within chunkSize ino length) (same : volume'.chunk? ino = volume.chunk? ino) :
    volume'.Within chunkSize ino length := by
  intro index data stored
  rw [same] at stored
  exact within index data stored

/-- Only the file that was rewritten has to be looked at again. -/
theorem Rewrites.bounded (rewrites : Rewrites ino volume volume') {change : InodeRow → InodeRow} {result : Volume}
    (resized : volume'.resizeInode ino change = .ok result) (bounded : volume.Bounded chunkSize)
    (within : ∀ row, volume.inode? ino = some row → volume'.Within chunkSize ino (change row).size) :
    result.Bounded chunkSize := by
  have edits := rewrites.edits resized
  intro other row stored
  by_cases same : other = ino
  · subst same
    obtain ⟨⟨data, rfl⟩, _⟩ := rewrites
    rw [resizeInode_ok _ _ _ resized] at stored ⊢
    rw [inode?_modifyInode, inode?_updateInode, Option.map_eq_some_iff] at stored
    obtain ⟨old, found, changed⟩ := stored
    have numbered : old.ino = other := volume.inode.find?_key found
    rw [changeRow, if_pos numbered] at changed
    rw [← changed]
    exact (within old found).congr (chunk?_modifyInode _ _ _ _)
  · rw [edits.inodes other same] at stored
    exact (bounded other row stored).congr (edits.chunks other same)

end Volume

namespace AgentFSFile

variable {file : AgentFSFile} {volume : Volume} {length : Nat}

/-- A chunk that the data meets takes its part of the data. -/
theorem chunkData_within (positive : 0 < file.chunkSize) (within : volume.Within file.chunkSize file.ino length) {offset index : Nat}
    {data : Bytes} (filled : 0 < data.length) (met : index ∈ file.touchedChunks offset data)
    (reaches : offset + data.length ≤ length) :
    (file.writeChunk offset data volume index).Within file.chunkSize file.ino length := by
  unfold touchedChunks at met
  dsimp only at met
  rw [List.mem_range'_1] at met
  have below : index * file.chunkSize ≤ offset + data.length - 1 := by
    have upto : index ≤ (offset + data.length - 1) / file.chunkSize := by omega
    exact (Nat.le_div_iff_mul_le positive).mp upto
  have above : offset < index * file.chunkSize + file.chunkSize := by
    have step : (index + 1) * file.chunkSize = index * file.chunkSize + file.chunkSize := by ring
    have next : offset / file.chunkSize < index + 1 := by omega
    rw [← step]
    exact (Nat.div_lt_iff_lt_mul positive).mp next
  obtain ⟨short, inside⟩ := within.existing index
  unfold writeChunk
  apply within.put
  · unfold chunkData
    dsimp only
    rw [length_patch, List.length_drop, List.length_take]
    omega
  · unfold chunkData
    dsimp only
    rw [length_patch, List.length_drop, List.length_take]
    omega
  · unfold chunkData
    dsimp only
    rw [length_patch, List.length_drop, List.length_take]
    omega

theorem writeDataAtOffset_within (positive : 0 < file.chunkSize) (within : volume.Within file.chunkSize file.ino length)
    {offset : Nat} {data : Bytes} (filled : 0 < data.length) (reaches : offset + data.length ≤ length) :
    (file.writeDataAtOffset volume offset data).Within file.chunkSize file.ino length :=
  Volume.Within.foldl (fun _ _ met kept => chunkData_within positive kept filled met reaches) within

theorem pwrite_bounded (positive : 0 < file.chunkSize) {volume' : Volume} {offset : Nat} {data : Bytes}
    (bounded : volume.Bounded file.chunkSize) (written : file.pwrite volume offset data = .ok volume') :
    volume'.Bounded file.chunkSize := by
  unfold pwrite at written
  split at written
  · rw [← pure_eq_ok.mp written]
    exact bounded
  · rename_i some
    dsimp only at written
    have rewrites : Volume.Rewrites file.ino volume (if offset > file.currentSize volume then
        file.writeDataAtOffset volume (file.currentSize volume) (List.replicate (offset - file.currentSize volume) 0)
        else volume) := by
      split
      · exact writeDataAtOffset_rewrites _ _ _ _
      · exact .refl _ _
    refine (rewrites.trans (writeDataAtOffset_rewrites _ _ _ _)).bounded written bounded ?_
    intro row stored
    have size : file.currentSize volume = row.size := by
      rw [currentSize, stored]
      rfl
    rw [size]
    have within := (bounded file.ino row stored).mono (Nat.le_max_left row.size (offset + data.length))
    refine writeDataAtOffset_within positive ?_ (by omega) (Nat.le_max_right _ _)
    split
    · rename_i gap
      refine writeDataAtOffset_within positive within ?_ ?_
      · rw [List.length_replicate]
        omega
      · rw [List.length_replicate]
        omega
    · exact within

theorem truncate_bounded (positive : 0 < file.chunkSize) {volume' : Volume} {newSize : Nat}
    (bounded : volume.Bounded file.chunkSize) (truncated : file.truncate volume newSize = .ok volume') :
    volume'.Bounded file.chunkSize := by
  refine (truncate_rewrites file volume newSize).bounded truncated bounded ?_
  intro row stored
  have size : file.currentSize volume = row.size := by
    rw [currentSize, stored]
    rfl
  have within := bounded file.ino row stored
  rw [size]
  split
  · rename_i empty
    rw [empty]
    exact within.deleteChunks fun _ kept => by cases kept
  · split
    · exact within.cut positive (by omega)
    · rename_i longer
      exact within.mono (Nat.le_of_not_lt longer)

end AgentFSFile

namespace Remote

variable {volume volume' : Volume} {chunkSize length : Nat} {ino : Int}

theorem Pwrite.loop_within (positive : 0 < chunkSize) {rounds offset : Nat} {data : Bytes}
    (within : volume.Within chunkSize ino length) (reaches : offset + data.length ≤ length) :
    (Pwrite.loop ino chunkSize rounds volume offset data).Within chunkSize ino length := by
  induction rounds generalizing volume offset data with
  | zero => exact within
  | succ rounds ih =>
    unfold Pwrite.loop
    split
    · exact within
    · have low : offset % chunkSize < chunkSize := Nat.mod_lt _ positive
      have start : offset / chunkSize * chunkSize + offset % chunkSize = offset := Nat.div_add_mod' offset chunkSize
      dsimp only
      generalize toWrite : min (chunkSize - offset % chunkSize) data.length = size
      have piece : (data.take size).length = size := by
        rw [List.length_take]
        omega
      refine ih ?_ (by rw [List.length_drop]; omega)
      obtain ⟨short, inside⟩ := within.existing (offset / chunkSize)
      unfold Pwrite.writeChunk
      apply within.put
      · split
        · omega
        · rw [length_patch]
          omega
      · split
        · omega
        · rw [length_patch]
          omega
      · split
        · omega
        · rw [length_patch]
          omega

theorem Pwrite.run_bounded {call : Pwrite} (positive : 0 < call.chunkSize) (bounded : volume.Bounded call.chunkSize)
    (written : call.run volume = .ok volume') : volume'.Bounded call.chunkSize := by
  obtain ⟨_, _, resized⟩ := bind_eq_ok.mp written
  refine (loop_rewrites call.ino call.chunkSize call.data.length volume call.offset call.data).bounded resized bounded ?_
  intro row stored
  have within := (bounded call.ino row stored).mono (Nat.le_max_left row.size (call.offset + call.data.length))
  exact loop_within positive within (Nat.le_max_right _ _)

/-- The chunks that are added end with the new size. -/
theorem Truncate.extend_within {call : Truncate} (positive : 0 < call.chunkSize) {currentSize : Nat}
    (within : volume.Within call.chunkSize call.ino currentSize) (longer : currentSize < call.newSize) :
    (call.extend volume currentSize).Within call.chunkSize call.ino call.newSize := by
  have reached := @last_chunk call.chunkSize call.newSize (by omega)
  have low := Nat.mod_lt (call.newSize - 1) positive
  have grown := within.mono (Nat.le_of_lt longer)
  -- The length of a chunk in the longer file.
  have fits : ∀ index ≤ (call.newSize - 1) / call.chunkSize,
      0 < call.chunkLength ((call.newSize - 1) / call.chunkSize) index ∧
        call.chunkLength ((call.newSize - 1) / call.chunkSize) index ≤ call.chunkSize ∧
        index * call.chunkSize + call.chunkLength ((call.newSize - 1) / call.chunkSize) index ≤ call.newSize := by
    intro index upto
    unfold chunkLength
    split
    · rename_i last
      rw [last]
      omega
    · rename_i other
      have apart := @chunk_before call.chunkSize index _ (lt_of_le_of_ne upto other)
      omega
  have upto : (currentSize - 1) / call.chunkSize ≤ (call.newSize - 1) / call.chunkSize :=
    Nat.div_le_div_right (by omega)
  unfold extend
  dsimp only
  apply Volume.Within.foldl
  · intro volume index member kept
    rw [List.mem_range'_1] at member
    obtain ⟨filled, short, inside⟩ := fits index (by omega)
    apply kept.put
    · rw [List.length_replicate]
      exact filled
    · rw [List.length_replicate]
      exact short
    · rw [List.length_replicate]
      exact inside
  · split
    · exact grown
    · rename_i last known
      split at known
      · cases known
      · rw [← Option.some.inj known]
        split
        · exact grown
        · rename_i data stored
          obtain ⟨filled, short, inside⟩ := fits _ upto
          split
          · rename_i shorter
            have length := @length_pad _ (0 : UInt8) data
              (call.chunkLength ((call.newSize - 1) / call.chunkSize) ((currentSize - 1) / call.chunkSize))
            exact grown.updateChunk (by omega) (by omega) (by omega)
          · exact grown

theorem Truncate.run_bounded {call : Truncate} (positive : 0 < call.chunkSize) {status : Int}
    (bounded : volume.Bounded call.chunkSize) (truncated : call.run volume = .ok (status, volume')) :
    volume'.Bounded call.chunkSize := by
  unfold run at truncated
  split at truncated
  · rw [pure_eq_ok, Prod.mk.injEq] at truncated
    rw [← truncated.2]
    exact bounded
  · rename_i row stored
    obtain ⟨result, resized, returned⟩ := bind_eq_ok.mp truncated
    rw [pure_eq_ok, Prod.mk.injEq] at returned
    rw [← returned.2]
    have rewrites : Volume.Rewrites call.ino volume (if call.newSize = 0 then volume.deleteChunks call.ino fun _ => true
        else if call.newSize < row.size then volume.cutChunks call.ino call.chunkSize call.newSize
        else if call.newSize > row.size then call.extend volume row.size else volume) := by
      split
      · exact volume.deleteChunks_rewrites _ _
      · split
        · exact volume.cutChunks_rewrites _ _ _
        · split
          · exact call.extend_rewrites volume row.size
          · exact .refl _ _
    refine rewrites.bounded resized bounded ?_
    intro other found
    have within := bounded call.ino row stored
    split
    · rename_i empty
      rw [empty]
      exact within.deleteChunks fun _ kept => by cases kept
    · split
      · exact within.cut positive (by omega)
      · split
        · exact extend_within positive within (by omega)
        · rename_i longer _
          exact within.mono (Nat.le_of_not_lt longer)

end Remote

namespace Contents

variable {chunkSize : Nat} {volume volume' : Volume}

/-- Neither writer leaves a chunk that reaches past the end of its file. -/
theorem execute_bounded (positive : 0 < chunkSize) {operation : Operation} (sized : operation.Sized chunkSize)
    (bounded : volume.Bounded chunkSize) (done : operation.execute chunkSize volume = .ok volume') :
    volume'.Bounded chunkSize := by
  have mapped : ∀ {result : Except Failure (Int × Volume)}, result.map Prod.snd = .ok volume' →
      ∃ status, result = .ok (status, volume') := by
    intro result returned
    cases result with
    | error failure => cases returned
    | ok pair => exact ⟨pair.1, by rw [← Except.ok.inj returned]⟩
  cases operation with
  | remotePwrite bindings =>
    obtain ⟨status, executed⟩ := mapped done
    obtain ⟨call, parsed, ran⟩ := bind_eq_ok.mp executed
    obtain ⟨result, written, returned⟩ := bind_eq_ok.mp ran
    rw [pure_eq_ok, Prod.mk.injEq] at returned
    rw [returned.2] at written
    have chunked : call.chunkSize = chunkSize := sized call (by rw [parsed]; rfl)
    subst chunked
    exact Remote.Pwrite.run_bounded positive bounded written
  | remoteTruncate bindings =>
    obtain ⟨status, executed⟩ := mapped done
    obtain ⟨call, parsed, ran⟩ := bind_eq_ok.mp executed
    have chunked : call.chunkSize = chunkSize := sized call (by rw [parsed]; rfl)
    subst chunked
    exact Remote.Truncate.run_bounded positive bounded ran
  | pwrite ino offset data => exact @AgentFSFile.pwrite_bounded ⟨ino, chunkSize⟩ _ positive _ _ _ bounded done
  | truncate ino newSize => exact @AgentFSFile.truncate_bounded ⟨ino, chunkSize⟩ _ positive _ _ bounded done

end Contents

end AiryFS
