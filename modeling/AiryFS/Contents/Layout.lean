import AiryFS.Direct.FileHandle

/-! Contents that the chunk rows of an inode spell out, and what the direct adapter reads there. -/

set_option autoImplicit false

namespace AiryFS

open Foundation

namespace Volume

/-- The chunk rows of the inode are the chunks of the content. -/
def LaidOut (volume : Volume) (chunkSize : Nat) (ino : Int) (content : Bytes) : Prop :=
  volume.chunk? ino = layout chunkSize content

/-- A file with the content, under its length. -/
structure Stores (volume : Volume) (chunkSize : Nat) (ino : Int) (content : Bytes) : Prop where
  file : ∃ row, volume.inode? ino = some row ∧ isDirectory row.mode = false ∧ row.size = content.length
  laidOut : volume.LaidOut chunkSize ino content

variable {volume : Volume} {chunkSize : Nat} {ino : Int} {content : Bytes}

/-! ## Rows in order -/

/-- The number of chunks that a length takes. -/
theorem stored_iff (positive : 0 < chunkSize) (length index : Nat) :
    index * chunkSize < length ↔ index < (length + chunkSize - 1) / chunkSize := by
  have step : (index + 1) * chunkSize = index * chunkSize + chunkSize := by ring
  rw [Nat.lt_iff_add_one_le, Nat.lt_iff_add_one_le, Nat.le_div_iff_mul_le positive, step]
  omega

theorem LaidOut.mem_iff (laidOut : volume.LaidOut chunkSize ino content) (row : DataRow) :
    row ∈ volume.data.rows ∧ row.ino = ino ↔
      row.chunkIndex * chunkSize < content.length ∧
        row = ⟨ino, row.chunkIndex, chunk chunkSize content row.chunkIndex⟩ := by
  have stored := congrFun laidOut row.chunkIndex
  rw [chunk?, layout] at stored
  constructor
  · rintro ⟨member, same⟩
    have found : volume.data.find? (ino, row.chunkIndex) = some row := by
      rw [← same]
      exact volume.data.find?_of_mem member
    rw [found, Option.map_some] at stored
    split at stored
    · rename_i inside
      refine ⟨inside, ?_⟩
      rw [← Option.some.inj stored, ← same]
    · cases stored
  · rintro ⟨inside, same⟩
    rw [if_pos inside, Option.map_eq_some_iff] at stored
    obtain ⟨other, found, data⟩ := stored
    have key : other.key = (ino, row.chunkIndex) := volume.data.find?_key found
    rw [DataRow.key, Prod.mk.injEq] at key
    have equal : other = row := by
      obtain ⟨otherIno, otherIndex, otherData⟩ := other
      rw [same, DataRow.mk.injEq]
      exact ⟨key.1, key.2, data⟩
    rw [← equal]
    exact ⟨volume.data.find?_mem found, key.1⟩

/-- A query for the chunks from one index up to another returns those that are stored, in order. -/
theorem LaidOut.chunkRows (laidOut : volume.LaidOut chunkSize ino content) (positive : 0 < chunkSize) {first bound : Nat}
    {selected : Nat → Bool} (range : ∀ index, selected index = true ↔ first ≤ index ∧ index < bound) :
    (volume.chunkRows ino selected).map (·.data) =
      (List.range' first (min bound ((content.length + chunkSize - 1) / chunkSize) - first)).map
        (chunk chunkSize content) := by
  generalize number : min bound ((content.length + chunkSize - 1) / chunkSize) - first = rows
  have query : volume.chunkRows ino selected =
      (List.range' first rows).map fun index => ⟨ino, index, chunk chunkSize content index⟩ := by
    apply volume.chunkRows_eq
    · rw [List.pairwise_map]
      exact List.pairwise_lt_range'
    · intro row
      rw [← and_assoc, laidOut.mem_iff, stored_iff positive, range, List.mem_map]
      constructor
      · rintro ⟨index, member, rfl⟩
        rw [List.mem_range'_1] at member
        exact ⟨⟨by simp only; omega, rfl⟩, by simp only; omega⟩
      · rintro ⟨⟨inside, same⟩, within⟩
        refine ⟨row.chunkIndex, ?_, same.symm⟩
        rw [List.mem_range'_1]
        omega
  rw [query, List.map_map]
  rfl

/-! ## What is read -/

/-- The whole file is its rows, one after the other. -/
theorem LaidOut.whole (laidOut : volume.LaidOut chunkSize ino content) (positive : 0 < chunkSize) :
    ((volume.chunkRows ino fun _ => true).map (·.data)).flatten = content := by
  have rows := @laidOut.mem_iff
  have count := stored_iff positive content.length
  generalize number : (content.length + chunkSize - 1) / chunkSize = chunks at count
  have query : volume.chunkRows ino (fun _ => true) = volume.chunkRows ino fun index => index < chunks := by
    unfold Volume.chunkRows
    congr 1
    apply List.filter_congr
    intro row member
    by_cases own : row.ino = ino
    · simp [own, (count row.chunkIndex).mp (rows row |>.mp ⟨member, own⟩).1]
    · simp [own]
  have long : content.length ≤ chunks * chunkSize := by
    by_contra short
    exact lt_irrefl _ ((count chunks).mp (by omega))
  rw [query, @LaidOut.chunkRows _ _ _ _ laidOut positive 0 chunks, number, Nat.min_self, Nat.sub_zero, flatten_chunks]
  · rw [Nat.zero_mul, List.drop_zero, List.take_of_length_le long]
  · intro index
    simp

end Volume

namespace AgentFSFile

variable {file : AgentFSFile} {volume : Volume} {content : Bytes}

/-- Once a buffer is collected, the loop takes what follows as far as the size allows. -/
theorem collect_later (startOffsetInChunk size : Nat) (rows buffers : List Bytes) (bytesCollected : Nat)
    (started : buffers ≠ []) : (collect startOffsetInChunk size rows buffers bytesCollected).flatten =
      buffers.flatten ++ rows.flatten.take (size - bytesCollected) := by
  induction rows generalizing buffers bytesCollected with
  | nil => simp [collect]
  | cons data rows ih =>
    have nonempty : buffers.length ≠ 0 := by simpa using started
    rw [collect, if_neg nonempty]
    split
    · rename_i empty
      have none : data = [] := by simpa using empty
      rw [ih buffers bytesCollected started, none]
      simp
    · rw [ih _ _ (by simp), List.flatten_append, List.flatten_singleton, List.flatten_cons, List.append_assoc]
      have front : (data.take (size - bytesCollected)).length ≤ data.length := by simp
      congr 1
      rw [List.drop_zero, Nat.sub_zero, List.take_append, ← List.take_take, List.take_of_length_le front]
      congr 2
      omega

/-- The first row is skipped up to the offset inside it. -/
theorem collect_first (startOffsetInChunk size : Nat) (data : Bytes) (rows : List Bytes)
    (inside : startOffsetInChunk < data.length) : (collect startOffsetInChunk size (data :: rows) [] 0).flatten =
      ((data :: rows).flatten.drop startOffsetInChunk).take size := by
  unfold collect
  rw [List.length_nil, if_pos rfl, if_neg (by omega)]
  dsimp only
  rw [List.nil_append, collect_later _ _ _ _ _ (by simp), List.flatten_singleton, List.flatten_cons,
    List.drop_append_of_le_length (Nat.le_of_lt inside), List.take_append, List.length_drop, Nat.zero_add, Nat.sub_zero]
  have front : (data.drop startOffsetInChunk).take (min (data.length - startOffsetInChunk) size) =
      (data.drop startOffsetInChunk).take size := by
    rw [Nat.min_comm, ← List.take_take, List.take_of_length_le (Nat.le_of_eq (List.length_drop)) ]
  rw [front]
  congr 2
  omega

theorem pread_laidOut (laidOut : volume.LaidOut file.chunkSize file.ino content) (positive : 0 < file.chunkSize)
    (offset size : Nat) : file.pread volume offset size = (content.drop offset).take size := by
  have split : offset / file.chunkSize * file.chunkSize + offset % file.chunkSize = offset :=
    Nat.div_add_mod' offset file.chunkSize
  have low : offset % file.chunkSize < file.chunkSize := Nat.mod_lt _ positive
  have count := Volume.stored_iff positive content.length
  generalize number : (content.length + file.chunkSize - 1) / file.chunkSize = chunks at count
  generalize start : offset / file.chunkSize = first at split
  -- The last chunk asked for reaches the end of the window.
  obtain ⟨bound, last, reach⟩ : ∃ bound : Nat, (∀ index : Nat,
      (index : Int) ≤ ((offset : Int) + size - 1) / file.chunkSize ↔ index < bound) ∧
        offset + size ≤ bound * file.chunkSize := by
    have inside := Volume.stored_iff positive (offset + size)
    refine ⟨(offset + size + file.chunkSize - 1) / file.chunkSize, ?_, ?_⟩
    · intro index
      rw [← inside index, Int.le_ediv_iff_mul_le (by omega)]
      have cast : (index : Int) * file.chunkSize = ((index * file.chunkSize : Nat) : Int) := by push_cast; rfl
      rw [cast]
      omega
    · by_contra short
      exact lt_irrefl _ ((inside _).mp (by omega))
  have rows := @Volume.LaidOut.chunkRows _ _ _ _ laidOut positive first bound (fun chunkIndex => first ≤ chunkIndex &&
    (chunkIndex : Int) ≤ ((offset : Int) + size - 1) / file.chunkSize) (by
      intro index
      simp [last])
  rw [pread, start, rows, number]
  cases taken : min bound chunks - first with
  | zero =>
    -- Nothing is asked for, or nothing is stored from there on.
    rw [List.range'_zero, List.map_nil, collect, List.flatten_nil]
    symm
    rw [List.take_eq_nil_iff, List.drop_eq_nil_iff]
    by_cases past : bound ≤ first
    · have bounded := Nat.mul_le_mul_right file.chunkSize past
      left
      omega
    · right
      have ended : ¬first * file.chunkSize < content.length := fun stored => by
        have more := (count first).mp stored
        omega
      omega
  | succ more =>
    have everything := @flatten_chunks _ file.chunkSize content first (more + 1)
    rw [List.range'_succ, List.map_cons] at everything ⊢
    by_cases inside : offset % file.chunkSize < (chunk file.chunkSize content first).length
    · rw [collect_first _ _ _ _ inside, everything]
      have ended : content.length ≤ chunks * file.chunkSize := by
        by_contra short
        exact lt_irrefl _ ((count chunks).mp (by omega))
      have last : bound * file.chunkSize = first * file.chunkSize + (more + 1) * file.chunkSize ∨
          chunks * file.chunkSize = first * file.chunkSize + (more + 1) * file.chunkSize := by
        rw [← Nat.add_mul]
        rcases Nat.le_total bound chunks with less | less
        · left
          congr 1
          omega
        · right
          congr 1
          omega
      apply List.ext_getElem?
      intro i
      simp only [List.getElem?_take, List.getElem?_drop]
      by_cases window : i < size
      · rw [if_pos window, if_pos window]
        have place : first * file.chunkSize + (offset % file.chunkSize + i) = offset + i := by omega
        rw [place]
        split
        · rfl
        · rw [List.getElem?_eq_none (by omega)]
      · rw [if_neg window, if_neg window]
    · -- The window starts past the end, in the last chunk.
      rw [length_chunk] at inside
      have short : content.length ≤ offset := by
        have stored := (count first).mpr (by omega)
        omega
      have alone : more = 0 := by
        by_contra further
        have stored := (count (first + 1)).mpr (by omega)
        rw [Nat.add_mul] at stored
        omega
      rw [alone, List.range'_zero, List.map_nil, collect, if_pos (by rw [length_chunk]; simp only [List.length_nil, if_true]; omega), collect,
        List.drop_eq_nil_of_le short, List.take_nil]
      rfl

end AgentFSFile

end AiryFS
