import AiryFS.Contents.Layout
import AiryFS.Remote.Contents

/-! What both writers do to contents.

Every write is a sequence of pieces within one chunk each, so one lemma about such a piece
carries the loops of both; the other contents stay as they are.
-/

set_option autoImplicit false

namespace AiryFS

open Foundation

namespace Volume

/-- At most the chunk rows of one inode differ. -/
structure Rewrites (ino : Int) (volume volume' : Volume) : Prop where
  tables : ∃ data, volume' = { volume with data }
  others : ∀ other, other ≠ ino → volume'.chunk? other = volume.chunk? other

variable {volume volume' volume'' : Volume} {chunkSize : Nat} {ino : Int} {content : Bytes}

theorem Rewrites.refl (ino : Int) (volume : Volume) : Rewrites ino volume volume := ⟨⟨_, rfl⟩, fun _ _ => rfl⟩

theorem Rewrites.trans (first : Rewrites ino volume volume') (second : Rewrites ino volume' volume'') :
    Rewrites ino volume volume'' := by
  obtain ⟨⟨data, rfl⟩, others⟩ := first
  obtain ⟨⟨data', rfl⟩, others'⟩ := second
  exact ⟨⟨data', rfl⟩, fun other different => (others' other different).trans (others other different)⟩

theorem putChunk_rewrites (volume : Volume) (ino : Int) (chunkIndex : Nat) (data : Bytes) :
    Rewrites ino volume (volume.putChunk ino chunkIndex data) :=
  ⟨⟨_, rfl⟩, fun _ different => volume.chunk?_putChunk_ne different chunkIndex data⟩

theorem deleteChunks_rewrites (volume : Volume) (ino : Int) (selected : Nat → Bool) :
    Rewrites ino volume (volume.deleteChunks ino selected) :=
  ⟨⟨_, rfl⟩, fun _ different => volume.chunk?_deleteChunks_ne different selected⟩

theorem updateChunk_rewrites (volume : Volume) (ino : Int) (chunkIndex : Nat) (data : Bytes) :
    Rewrites ino volume (volume.updateChunk ino chunkIndex data) := by
  unfold updateChunk
  split
  · exact .refl ino volume
  · exact volume.putChunk_rewrites ino chunkIndex data

theorem foldl_rewrites {step : Volume → Nat → Volume} (each : ∀ volume index, Rewrites ino volume (step volume index))
    (indexes : List Nat) (volume : Volume) : Rewrites ino volume (indexes.foldl step volume) := by
  induction indexes generalizing volume with
  | nil => exact .refl ino volume
  | cons index indexes ih => exact (each volume index).trans (ih _)

theorem chunk?_foldl_putChunk (volume : Volume) (ino : Int) (data : Nat → Bytes) (first number index : Nat) :
    ((List.range' first number).foldl (fun volume chunkIndex => volume.putChunk ino chunkIndex (data chunkIndex))
      volume).chunk? ino index =
        if first ≤ index ∧ index < first + number then some (data index) else volume.chunk? ino index := by
  induction number with
  | zero =>
    rw [List.range'_zero, List.foldl_nil, if_neg (by omega)]
  | succ number ih =>
    rw [List.range'_1_concat, List.foldl_append, List.foldl_cons, List.foldl_nil, chunk?_putChunk,
      Function.update_apply, ih]
    by_cases same : index = first + number
    · rw [if_pos same, if_pos (by omega), same]
    · rw [if_neg same]
      congr 1
      simp only [eq_iff_iff]
      omega

/-! ## One piece, in one chunk -/

theorem LaidOut.put (laidOut : volume.LaidOut chunkSize ino content) (positive : 0 < chunkSize) {offset : Nat}
    {piece : Bytes} (filled : piece ≠ []) (within : offset % chunkSize + piece.length ≤ chunkSize)
    (contiguous : offset / chunkSize ≤ content.length / chunkSize) :
    (volume.putChunk ino (offset / chunkSize)
      (patch 0 (chunk chunkSize content (offset / chunkSize)) (offset % chunkSize) piece)).LaidOut chunkSize ino
        (patch 0 content offset piece) := by
  rw [LaidOut, chunk?_putChunk, laidOut, layout_patch positive filled within contiguous]

theorem LaidOut.existing (laidOut : volume.LaidOut chunkSize ino content) (index : Nat) :
    (volume.chunk? ino index).getD [] = chunk chunkSize content index := by
  rw [laidOut, layout_getD]

/-! ## Getting shorter -/

theorem cutChunks_rewrites (volume : Volume) (ino : Int) (chunkSize newSize : Nat) :
    Rewrites ino volume (volume.cutChunks ino chunkSize newSize) := by
  have dropped := volume.deleteChunks_rewrites ino fun chunkIndex => chunkIndex > (newSize - 1) / chunkSize
  unfold cutChunks
  dsimp only
  split
  · split
    · exact dropped
    · split
      · exact dropped.trans (updateChunk_rewrites _ ino _ _)
      · exact dropped
  · exact dropped

theorem LaidOut.cut (laidOut : volume.LaidOut chunkSize ino content) (positive : 0 < chunkSize) {newSize : Nat}
    (filled : 0 < newSize) (shorter : newSize ≤ content.length) :
    (volume.cutChunks ino chunkSize newSize).LaidOut chunkSize ino (content.take newSize) := by
  have inside : ((newSize - 1) / chunkSize) * chunkSize < content.length := by
    have reached := @last_chunk chunkSize newSize filled
    omega
  have dropped : ∀ index, (volume.deleteChunks ino fun chunkIndex => chunkIndex > (newSize - 1) / chunkSize).chunk? ino
      index = if (newSize - 1) / chunkSize < index then none else layout chunkSize content index := by
    intro index
    rw [chunk?_deleteChunks, laidOut]
    simp
  unfold LaidOut
  funext index
  rw [layout_take positive filled shorter]
  unfold cutChunks
  dsimp only
  generalize (volume.deleteChunks ino fun chunkIndex => chunkIndex > (newSize - 1) / chunkSize) = shortened at dropped ⊢
  generalize (newSize - 1) / chunkSize = last at inside dropped ⊢
  have final : shortened.chunk? ino last = some (chunk chunkSize content last) := by
    rw [dropped, if_neg (lt_irrefl last), layout, if_pos inside]
  split
  · rename_i remains
    rw [final]
    dsimp only
    split
    · rw [chunk?_updateChunk _ final, Function.update_apply, dropped]
      by_cases same : index = last
      · rw [if_pos same, if_neg (by omega), if_pos ⟨same, remains⟩, same]
      · simp [same]
    · rename_i short
      rw [dropped]
      by_cases same : index = last
      · rw [if_neg (by omega), if_neg (by omega), if_pos ⟨same, remains⟩, same, layout, if_pos inside,
          List.take_of_length_le (by omega)]
      · simp [same]
  · rename_i full
    rw [dropped]
    simp [Nat.eq_zero_of_not_pos full]

theorem LaidOut.emptied (volume : Volume) (chunkSize : Nat) (ino : Int) :
    (volume.deleteChunks ino fun _ => true).LaidOut chunkSize ino [] := by
  unfold LaidOut
  funext index
  rw [chunk?_deleteChunks, layout]
  simp

/-! ## The new size -/

/-- At most the contents and the row of one inode differ. -/
structure Edits (ino : Int) (volume volume' : Volume) : Prop where
  dentry : volume'.dentry = volume.dentry
  inodes : ∀ other, other ≠ ino → volume'.inode? other = volume.inode? other
  chunks : ∀ other, other ≠ ino → volume'.chunk? other = volume.chunk? other

theorem Edits.refl (ino : Int) (volume : Volume) : Edits ino volume volume := ⟨rfl, fun _ _ => rfl, fun _ _ => rfl⟩

theorem Edits.stores (edits : Edits ino volume volume') {other : Int} (different : other ≠ ino)
    (stores : volume.Stores chunkSize other content) : volume'.Stores chunkSize other content := by
  obtain ⟨row, stored, kind, size⟩ := stores.file
  refine ⟨⟨row, ?_, kind, size⟩, ?_⟩
  · rw [edits.inodes other different]
    exact stored
  · rw [LaidOut, edits.chunks other different]
    exact stores.laidOut

theorem chunk?_modifyInode (volume : Volume) (ino : Int) (change : InodeRow → InodeRow) (other : Int) :
    (volume.modifyInode ino change).chunk? other = volume.chunk? other := by
  funext index
  rw [chunk?, modifyInode_data, chunk?]

theorem Rewrites.edits (rewrites : Rewrites ino volume volume') {change : InodeRow → InodeRow} {result : Volume}
    (resized : volume'.resizeInode ino change = .ok result) : Edits ino volume result := by
  obtain ⟨⟨data, rfl⟩, others⟩ := rewrites
  rw [resizeInode_ok _ _ _ resized]
  refine ⟨modifyInode_dentry _ _ _, ?_, ?_⟩
  · intro other different
    rw [inode?_modifyInode, inode?_updateInode_ne _ _ _ different]
    rfl
  · intro other different
    rw [chunk?_modifyInode]
    exact others other different

/-- The new content is stored once its size is. -/
theorem Rewrites.stores (rewrites : Rewrites ino volume volume') {change : InodeRow → InodeRow} {result : Volume}
    (resized : volume'.resizeInode ino change = .ok result) {row : InodeRow} (stored : volume.inode? ino = some row)
    (kind : isDirectory (change row).mode = false) (size : (change row).size = content.length)
    (laidOut : volume'.LaidOut chunkSize ino content) : result.Stores chunkSize ino content := by
  have numbered : row.ino = ino := volume.inode.find?_key stored
  obtain ⟨⟨data, rfl⟩, others⟩ := rewrites
  rw [resizeInode_ok _ _ _ resized]
  refine ⟨⟨{ change row with ino := row.ino }, ?_, kind, size⟩, ?_⟩
  · rw [inode?_modifyInode, inode?_updateInode]
    change (volume.inode? ino).map _ = _
    rw [stored, Option.map_some, changeRow, if_pos numbered]
  · rw [LaidOut, chunk?_modifyInode]
    exact laidOut

end Volume

/-! ## The byte array -/

/-- A write past the end fills the gap with zeros. -/
def posixWrite (content : Bytes) (offset : Nat) (data : Bytes) : Bytes :=
  if data = [] then content else patch 0 content offset data

/-- Growing appends zeros, shrinking discards. -/
def posixTruncate (content : Bytes) (newSize : Nat) : Bytes := (pad 0 content newSize).take newSize

theorem posixTruncate_of_le {content : Bytes} {newSize : Nat} (shorter : newSize ≤ content.length) :
    posixTruncate content newSize = content.take newSize := by
  rw [posixTruncate, pad_of_le shorter]

theorem posixTruncate_of_ge {content : Bytes} {newSize : Nat} (longer : content.length ≤ newSize) :
    posixTruncate content newSize = pad 0 content newSize := by
  rw [posixTruncate, List.take_of_length_le (by rw [length_pad]; omega)]

theorem length_posixTruncate (content : Bytes) (newSize : Nat) : (posixTruncate content newSize).length = newSize := by
  rw [posixTruncate, List.length_take, length_pad]
  omega

namespace AgentFSFile

variable {file : AgentFSFile} {volume : Volume} {content : Bytes}

theorem writeDataAtOffset_rewrites (file : AgentFSFile) (volume : Volume) (offset : Nat) (data : Bytes) :
    Volume.Rewrites file.ino volume (file.writeDataAtOffset volume offset data) :=
  Volume.foldl_rewrites (fun _ _ => Volume.putChunk_rewrites _ _ _ _) _ volume

/-- The part of the data that one round writes. -/
def slice (data : Bytes) (dataStart dataEnd : Nat) : Bytes := (data.take (min data.length dataEnd)).drop dataStart

theorem length_slice (data : Bytes) (dataStart dataEnd : Nat) :
    (slice data dataStart dataEnd).length = min data.length dataEnd - dataStart := by
  rw [slice, List.length_drop, List.length_take]
  omega

theorem take_append_slice {data : Bytes} {dataStart dataEnd : Nat} (ordered : dataStart ≤ min data.length dataEnd) :
    data.take dataStart ++ slice data dataStart dataEnd = data.take dataEnd := by
  have front : data.take dataStart = (data.take (min data.length dataEnd)).take dataStart := by
    rw [List.take_take, Nat.min_eq_left ordered]
  have short : (data.take dataEnd).length ≤ data.length := by simp
  rw [front, slice, List.take_append_drop, ← List.take_take, List.take_of_length_le short]

/-- One round takes the written part of the data up to the end of its chunk. -/
theorem writeChunk_laidOut (positive : 0 < file.chunkSize) {offset index : Nat} {data : Bytes}
    (filled : 0 < data.length) (inside : offset - index * file.chunkSize < file.chunkSize)
    (remaining : index * file.chunkSize < offset + data.length)
    (written : volume.LaidOut file.chunkSize file.ino
      (patch 0 content offset (data.take (index * file.chunkSize - offset))))
    (ends : offset < index * file.chunkSize + file.chunkSize) :
    (file.writeChunk offset data volume index).LaidOut file.chunkSize file.ino
      (patch 0 content offset (data.take (index * file.chunkSize + file.chunkSize - offset))) := by
  unfold writeChunk chunkData
  dsimp only
  generalize base : index * file.chunkSize = chunkStart at inside remaining written ends ⊢
  -- What is written already ends where this round begins.
  have taken : (data.take (chunkStart - offset)).length = chunkStart - offset := by
    rw [List.length_take]
    omega
  have position : (offset + (chunkStart - offset)) / file.chunkSize = index ∧
      (offset + (chunkStart - offset)) % file.chunkSize = offset - chunkStart := by
    rw [Nat.div_mod_unique positive, Nat.mul_comm, base]
    omega
  have piece := length_slice data (chunkStart - offset) (chunkStart + file.chunkSize - offset)
  have put := @Volume.LaidOut.put _ _ _ _ written positive (offset + (chunkStart - offset))
    (slice data (chunkStart - offset) (chunkStart + file.chunkSize - offset))
    (by rw [← List.length_pos_iff, piece]; omega) (by rw [position.2, piece]; omega)
    (Nat.div_le_div_right (by rw [length_patch, taken]; omega))
  have appended := @patch_append _ (0 : UInt8) content offset (data.take (chunkStart - offset))
    (slice data (chunkStart - offset) (chunkStart + file.chunkSize - offset))
  rw [taken, take_append_slice (by omega)] at appended
  rw [position.1, position.2, ← written.existing index, appended] at put
  exact put

/-- Writing that begins within the file, or right at its end. -/
theorem writeDataAtOffset_laidOut (laidOut : volume.LaidOut file.chunkSize file.ino content)
    (positive : 0 < file.chunkSize) {offset : Nat} (reached : offset ≤ content.length) {data : Bytes} (filled : data ≠ []) :
    (file.writeDataAtOffset volume offset data).LaidOut file.chunkSize file.ino (patch 0 content offset data) := by
  have low : offset % file.chunkSize < file.chunkSize := Nat.mod_lt _ positive
  have start : offset / file.chunkSize * file.chunkSize + offset % file.chunkSize = offset :=
    Nat.div_add_mod' offset file.chunkSize
  have length : 0 < data.length := List.length_pos_iff.mpr filled
  have last := @last_chunk file.chunkSize (offset + data.length) (by omega)
  have full : (offset + data.length - 1) % file.chunkSize < file.chunkSize := Nat.mod_lt _ positive
  have ordered : offset / file.chunkSize ≤ (offset + data.length - 1) / file.chunkSize :=
    Nat.div_le_div_right (by omega)
  unfold writeDataAtOffset touchedChunks
  dsimp only
  generalize offset / file.chunkSize = first at start ordered ⊢
  generalize (offset + data.length - 1) / file.chunkSize = final at last ordered ⊢
  -- After some rounds the data is written up to the end of a chunk.
  have rounds : ∀ number, first + number ≤ final + 1 →
      ((List.range' first number).foldl (file.writeChunk offset data) volume).LaidOut file.chunkSize file.ino
        (patch 0 content offset (data.take ((first + number) * file.chunkSize - offset))) := by
    intro number
    induction number with
    | zero =>
      intro _
      have nothing : first * file.chunkSize - offset = 0 := by omega
      rw [List.range'_zero, List.foldl_nil, Nat.add_zero, nothing, List.take_zero, patch_nil reached]
      exact laidOut
    | succ number ih =>
      intro within
      have before : first * file.chunkSize ≤ (first + number) * file.chunkSize :=
        Nat.mul_le_mul_right _ (by omega)
      have bounded : (first + number) * file.chunkSize ≤ final * file.chunkSize :=
        Nat.mul_le_mul_right _ (by omega)
      have next : (first + (number + 1)) * file.chunkSize = (first + number) * file.chunkSize + file.chunkSize := by ring
      rw [List.range'_1_concat, List.foldl_append, List.foldl_cons, List.foldl_nil, next]
      exact writeChunk_laidOut positive length (by omega) (by omega) (ih (by omega)) (by omega)
  have all : first + (final + 1 - first) = final + 1 := by omega
  have done := rounds (final + 1 - first) (by omega)
  rw [all, Nat.add_mul, List.take_of_length_le (by omega)] at done
  exact done

theorem currentSize_of_stores (stores : volume.Stores file.chunkSize file.ino content) :
    file.currentSize volume = content.length := by
  obtain ⟨row, stored, _, size⟩ := stores.file
  rw [currentSize, stored]
  exact size

theorem pwrite_ok {volume' : Volume} {offset : Nat} {data : Bytes}
    (written : file.pwrite volume offset data = .ok volume') : Volume.Edits file.ino volume volume' ∧
      (0 < file.chunkSize → volume.Stores file.chunkSize file.ino content →
        volume'.Stores file.chunkSize file.ino (posixWrite content offset data)) := by
  unfold pwrite at written
  split at written
  · rename_i none
    rw [← pure_eq_ok.mp written]
    refine ⟨.refl _ _, fun _ stores => ?_⟩
    rw [posixWrite, if_pos (List.length_eq_zero_iff.mp none)]
    exact stores
  · rename_i some
    have filled : data ≠ [] := fun none => some (by rw [none]; rfl)
    dsimp only at written
    have gap : Volume.Rewrites file.ino volume (if offset > file.currentSize volume then
        file.writeDataAtOffset volume (file.currentSize volume) (List.replicate (offset - file.currentSize volume) 0)
        else volume) := by
      split
      · exact writeDataAtOffset_rewrites _ _ _ _
      · exact .refl _ _
    have rewrites := gap.trans (writeDataAtOffset_rewrites file _ offset data)
    refine ⟨rewrites.edits written, fun positive stores => ?_⟩
    have size := currentSize_of_stores stores
    rw [size] at written rewrites
    obtain ⟨row, stored, kind, _⟩ := stores.file
    rw [posixWrite, if_neg filled]
    refine rewrites.stores written stored kind (by rw [length_patch]) ?_
    -- The gap first, so that the data begins at the end.
    rw [← patch_pad]
    apply writeDataAtOffset_laidOut _ positive (by rw [length_pad]; omega) filled
    split
    · rename_i past
      rw [pad_eq_patch]
      exact writeDataAtOffset_laidOut stores.laidOut positive (le_refl _) (by simp; omega)
    · rename_i within
      rw [pad_of_le (by omega)]
      exact stores.laidOut

theorem truncate_rewrites (file : AgentFSFile) (volume : Volume) (newSize : Nat) : Volume.Rewrites file.ino volume
    (if newSize = 0 then volume.deleteChunks file.ino fun _ => true
      else if newSize < file.currentSize volume then volume.cutChunks file.ino file.chunkSize newSize else volume) := by
  split
  · exact volume.deleteChunks_rewrites _ _
  · split
    · exact volume.cutChunks_rewrites _ _ _
    · exact .refl _ _

theorem truncate_ok {volume' : Volume} {newSize : Nat} (truncated : file.truncate volume newSize = .ok volume') :
    Volume.Edits file.ino volume volume' ∧
      (0 < file.chunkSize → newSize ≤ content.length → volume.Stores file.chunkSize file.ino content →
        volume'.Stores file.chunkSize file.ino (posixTruncate content newSize)) := by
  unfold truncate at truncated
  dsimp only at truncated
  have rewrites := truncate_rewrites file volume newSize
  refine ⟨rewrites.edits truncated, fun positive shorter stores => ?_⟩
  have size := currentSize_of_stores stores
  rw [size] at truncated rewrites
  obtain ⟨row, stored, kind, _⟩ := stores.file
  refine rewrites.stores truncated stored kind (by rw [length_posixTruncate]) ?_
  rw [posixTruncate_of_le shorter]
  split
  · rename_i empty
    rw [empty, List.take_zero]
    exact .emptied volume _ _
  · rename_i filled
    split
    · exact stores.laidOut.cut positive (by omega) shorter
    · rw [List.take_of_length_le (by omega)]
      exact stores.laidOut

end AgentFSFile

namespace Remote

variable {volume : Volume} {chunkSize : Nat} {ino : Int} {content : Bytes}

/-- A call that passes its checks writes something. -/
theorem Pwrite.parse_filled {bindings : List JsValue} {call : Pwrite} (parsed : Pwrite.parse bindings = .ok call) :
    call.data ≠ [] := by
  unfold Pwrite.parse at parsed
  simp only [bind_eq_ok, refuse_eq_ok, pure_eq_ok] at parsed
  obtain ⟨_, _, _, _, _, _, data, _, _, _, _, _, _, _, _, checks, _, _, rfl⟩ := parsed
  intro none
  exact checks (.inr (.inr (.inr (by simpa using none))))

theorem Pwrite.loop_rewrites (ino : Int) (chunkSize rounds : Nat) (volume : Volume) (offset : Nat) (data : Bytes) :
    Volume.Rewrites ino volume (Pwrite.loop ino chunkSize rounds volume offset data) := by
  induction rounds generalizing volume offset data with
  | zero => exact .refl ino volume
  | succ rounds ih =>
    unfold Pwrite.loop
    split
    · exact .refl ino volume
    · exact (Volume.putChunk_rewrites _ _ _ _).trans (ih _ _ _)

theorem Pwrite.loop_laidOut (positive : 0 < chunkSize) {rounds offset : Nat} {data : Bytes}
    (enough : data.length ≤ rounds) (laidOut : volume.LaidOut chunkSize ino content)
    (contiguous : offset / chunkSize ≤ content.length / chunkSize) (reached : data = [] → offset ≤ content.length) :
    (Pwrite.loop ino chunkSize rounds volume offset data).LaidOut chunkSize ino (patch 0 content offset data) := by
  induction rounds generalizing volume offset data content with
  | zero =>
    have none : data = [] := List.length_eq_zero_iff.mp (Nat.le_zero.mp enough)
    rw [none, patch_nil (reached none)]
    exact laidOut
  | succ rounds ih =>
    unfold Pwrite.loop
    split
    · rename_i none
      rw [List.length_eq_zero_iff.mp none, patch_nil (reached (List.length_eq_zero_iff.mp none))]
      exact laidOut
    · rename_i some
      have low : offset % chunkSize < chunkSize := Nat.mod_lt _ positive
      have start : offset / chunkSize * chunkSize + offset % chunkSize = offset := Nat.div_add_mod' offset chunkSize
      generalize toWrite : min (chunkSize - offset % chunkSize) data.length = size
      have length : (data.take size).length = size := by
        rw [List.length_take]
        omega
      have written : (Pwrite.writeChunk volume ino chunkSize offset (data.take size)).LaidOut chunkSize ino
          (patch 0 content offset (data.take size)) := by
        have put := @Volume.LaidOut.put _ _ _ _ laidOut positive offset (data.take size)
          (by rw [← List.length_pos_iff]; omega) (by omega) contiguous
        rw [← laidOut.existing] at put
        unfold Pwrite.writeChunk
        dsimp only
        split
        · -- A whole chunk leaves nothing of the old one.
          rename_i whole
          have aligned : offset % chunkSize = 0 := by omega
          rw [laidOut.existing, aligned, patch_whole (by rw [length_chunk]; omega)] at put
          exact put
        · exact put
      have reaches : offset + size ≤ (patch 0 content offset (data.take size)).length := by
        rw [length_patch]
        omega
      have fewer : (data.drop size).length ≤ rounds := by
        rw [List.length_drop]
        omega
      have rest := ih fewer written (Nat.div_le_div_right reaches) fun _ => reaches
      have appended := @patch_append _ (0 : UInt8) content offset (data.take size) (data.drop size)
      rw [length, List.take_append_drop] at appended
      rw [appended] at rest
      exact rest

theorem Pwrite.run_ok {call : Pwrite} {volume' : Volume} (written : call.run volume = .ok volume') :
    Volume.Edits call.ino volume volume' ∧
      (0 < call.chunkSize → call.data ≠ [] → volume.Stores call.chunkSize call.ino content →
        call.offset / call.chunkSize ≤ content.length / call.chunkSize →
          volume'.Stores call.chunkSize call.ino (posixWrite content call.offset call.data)) := by
  obtain ⟨_, _, resized⟩ := bind_eq_ok.mp written
  have rewrites := loop_rewrites call.ino call.chunkSize call.data.length volume call.offset call.data
  refine ⟨rewrites.edits resized, fun positive filled stores contiguous => ?_⟩
  obtain ⟨row, stored, kind, size⟩ := stores.file
  rw [posixWrite, if_neg filled]
  refine rewrites.stores resized stored kind (by rw [length_patch, size]) ?_
  exact loop_laidOut positive (le_refl _) stores.laidOut contiguous fun none => absurd none filled

theorem Truncate.extend_rewrites (call : Truncate) (volume : Volume) (currentSize : Nat) :
    Volume.Rewrites call.ino volume (call.extend volume currentSize) := by
  unfold extend
  dsimp only
  refine .trans ?_ (Volume.foldl_rewrites (fun _ _ => Volume.putChunk_rewrites _ _ _ _) _ _)
  split
  · exact .refl _ _
  · split
    · exact .refl _ _
    · split
      · exact Volume.updateChunk_rewrites _ _ _ _
      · exact .refl _ _

/-- The last chunk, filled up. -/
theorem Truncate.padded (call : Truncate) (last : Nat) {data : Bytes} (stored : volume.chunk? call.ino last = some data)
    (length index : Nat) : (if data.length < length then volume.updateChunk call.ino last (pad 0 data length)
      else volume).chunk? call.ino index = if index = last then some (pad 0 data length) else volume.chunk? call.ino index := by
  split
  · rw [volume.chunk?_updateChunk stored, Function.update_apply]
  · rename_i long
    rw [pad_of_le (by omega)]
    split
    · rename_i same
      rw [same, stored]
    · rfl

/-- Growing fills the last chunk up and continues with chunks of zeros. -/
theorem Truncate.extend_laidOut {call : Truncate} (positive : 0 < call.chunkSize)
    (laidOut : volume.LaidOut call.chunkSize call.ino content) (longer : content.length < call.newSize) :
    (call.extend volume content.length).LaidOut call.chunkSize call.ino (pad 0 content call.newSize) := by
  have reaches : (content.length - 1) / call.chunkSize ≤ (call.newSize - 1) / call.chunkSize :=
    Nat.div_le_div_right (by omega)
  have inside : ∀ index, content.length ≠ 0 →
      (index * call.chunkSize < content.length ↔ index ≤ (content.length - 1) / call.chunkSize) := by
    intro index some
    rw [Nat.le_div_iff_mul_le positive]
    omega
  unfold Volume.LaidOut
  funext index
  rw [layout_pad positive longer]
  unfold extend
  dsimp only
  rw [Volume.chunk?_foldl_putChunk]
  rw [show (if index = (call.newSize - 1) / call.chunkSize then (call.newSize - 1) % call.chunkSize + 1
    else call.chunkSize) = call.chunkLength ((call.newSize - 1) / call.chunkSize) index from rfl]
  generalize (call.newSize - 1) / call.chunkSize = final at reaches ⊢
  by_cases empty : content.length = 0
  · have range : 0 ≤ index ∧ index < 0 + (final + 1 - 0) ↔ ¬final < index := by omega
    have none : volume.chunk? call.ino index = none := by
      rw [laidOut, layout, if_neg (by omega)]
    simp only [if_pos empty, Option.elim_none, range, none]
    by_cases past : final < index
    · simp [past]
    · simp [past, empty]
  · have last := (inside ((content.length - 1) / call.chunkSize) empty).mpr (le_refl _)
    have stored : volume.chunk? call.ino ((content.length - 1) / call.chunkSize) =
        some (chunk call.chunkSize content ((content.length - 1) / call.chunkSize)) := by
      rw [laidOut, layout, if_pos last]
    simp only [if_neg empty, Option.elim_some, stored, call.padded _ stored]
    rw [laidOut, layout]
    have bound := inside index empty
    generalize (content.length - 1) / call.chunkSize = before at *
    by_cases old : index * call.chunkSize < content.length
    · have within := bound.mp old
      have range : ¬(before + 1 ≤ index ∧ index < before + 1 + (final + 1 - (before + 1))) := by omega
      have upto : ¬final < index := by omega
      have below : ¬content.length ≤ index * call.chunkSize := by omega
      rw [if_neg range, if_neg upto, if_neg below, if_pos old]
      split
      · rename_i same
        rw [same]
      · -- A chunk in front of the last one is full.
        rename_i different
        have full := @chunk_before call.chunkSize index before (by omega)
        rw [Truncate.chunkLength, if_neg (by omega), pad_of_le (by rw [length_chunk]; omega)]
    · have beyond : before < index := by
        by_contra within
        exact old (bound.mpr (by omega))
      have range : before + 1 ≤ index ∧ index < before + 1 + (final + 1 - (before + 1)) ↔ ¬final < index := by omega
      have apart : index ≠ before := by omega
      have above : content.length ≤ index * call.chunkSize := by omega
      simp only [range, if_neg apart, if_neg old, if_pos above]
      by_cases past : final < index
      · simp [past]
      · simp [past]

theorem Truncate.run_ok {call : Truncate} {status : Int} {volume' : Volume}
    (truncated : call.run volume = .ok (status, volume')) : Volume.Edits call.ino volume volume' ∧
      (0 < call.chunkSize → volume.Stores call.chunkSize call.ino content →
        volume'.Stores call.chunkSize call.ino (posixTruncate content call.newSize)) := by
  unfold run at truncated
  split at truncated
  · rename_i absent
    rw [pure_eq_ok, Prod.mk.injEq] at truncated
    rw [← truncated.2]
    refine ⟨.refl _ _, fun _ stores => ?_⟩
    obtain ⟨row, stored, _⟩ := stores.file
    rw [absent] at stored
    cases stored
  · rename_i row stored
    obtain ⟨result, resized, returned⟩ := bind_eq_ok.mp truncated
    rw [pure_eq_ok, Prod.mk.injEq] at returned
    rw [← returned.2]
    have rewrites : Volume.Rewrites call.ino volume (if call.newSize = 0 then volume.deleteChunks call.ino fun _ => true
        else if call.newSize < row.size then volume.cutChunks call.ino call.chunkSize call.newSize
        else if call.newSize > row.size then call.extend volume row.size else volume) := by
      split
      · exact volume.deleteChunks_rewrites _ _
      · split
        · exact volume.cutChunks_rewrites _ _ _
        · split
          · exact call.extend_rewrites volume row.size
          · exact .refl _ _
    refine ⟨rewrites.edits resized, fun positive stores => ?_⟩
    obtain ⟨row', stored', kind, size⟩ := stores.file
    rw [stored, Option.some.injEq] at stored'
    subst stored'
    refine rewrites.stores resized stored kind (by rw [length_posixTruncate]) ?_
    rw [size]
    split
    · rename_i empty
      rw [empty, posixTruncate_of_le (Nat.zero_le _), List.take_zero]
      exact .emptied volume _ _
    · rename_i filled
      split
      · rename_i shorter
        rw [posixTruncate_of_le (by omega)]
        exact stores.laidOut.cut positive (by omega) (by omega)
      · split
        · rename_i longer
          rw [posixTruncate_of_ge (by omega)]
          exact extend_laidOut positive stores.laidOut longer
        · rw [posixTruncate_of_ge (by omega), pad_of_le (by omega)]
          exact stores.laidOut

end Remote

end AiryFS
