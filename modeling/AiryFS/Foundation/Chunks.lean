import Mathlib.Data.List.Basic
import Mathlib.Logic.Function.Basic
import Mathlib.Tactic.Common
import Mathlib.Tactic.Ring

/-! A sequence stored as chunks of one size.

Chunk `i` holds the elements from `i * size` on, every chunk but the last is full, and
there is no chunk past the end. Writing a piece into a sequence is writing it into the
chunks it meets, as long as it begins no later than in the chunk where the sequence ends.
-/

set_option autoImplicit false

namespace Foundation

variable {α : Type}

section Writing

variable (zero : α)

/-- Zeros up to the length, when it is not reached already. -/
def pad (xs : List α) (length : Nat) : List α := xs ++ List.replicate (length - xs.length) zero

/-- The piece written at an offset; a gap before it is filled with zeros. -/
def patch (xs : List α) (offset : Nat) (piece : List α) : List α :=
  (pad zero xs offset).take offset ++ piece ++ xs.drop (offset + piece.length)

end Writing

def chunk (size : Nat) (xs : List α) (index : Nat) : List α := (xs.drop (index * size)).take size

/-- The chunks that are stored. -/
def layout (size : Nat) (xs : List α) (index : Nat) : Option (List α) :=
  if index * size < xs.length then some (chunk size xs index) else none

variable {zero : α} {size : Nat} {xs : List α}

/-! ## Element by element -/

theorem getElem?_pad (length i : Nat) :
    (pad zero xs length)[i]? = if i < xs.length then xs[i]? else if i < length then some zero else none := by
  rw [pad, List.getElem?_append]
  split
  · rfl
  · rw [List.getElem?_replicate]
    congr 1
    simp only [eq_iff_iff]
    omega

@[simp] theorem length_pad (length : Nat) : (pad zero xs length).length = max xs.length length := by
  rw [pad, List.length_append, List.length_replicate]
  omega

theorem getElem?_patch (offset : Nat) (piece : List α) (i : Nat) :
    (patch zero xs offset piece)[i]? =
      if i < offset then (if i < xs.length then xs[i]? else some zero)
      else if i < offset + piece.length then piece[i - offset]? else xs[i]? := by
  have front : ((pad zero xs offset).take offset).length = offset := by
    rw [List.length_take, length_pad]
    omega
  rw [patch, List.append_assoc, List.getElem?_append, front]
  split
  · rename_i before
    rw [List.getElem?_take_of_lt before, getElem?_pad, if_pos before]
  · rename_i from_offset
    rw [List.getElem?_append]
    by_cases inside : i < offset + piece.length
    · rw [if_pos (by omega), if_pos inside]
    · rw [if_neg (by omega), if_neg inside, List.getElem?_drop]
      congr 1
      omega

@[simp] theorem length_patch (offset : Nat) (piece : List α) :
    (patch zero xs offset piece).length = max xs.length (offset + piece.length) := by
  rw [patch, List.length_append, List.length_append, List.length_take, length_pad, List.length_drop]
  omega

theorem getElem?_chunk (index i : Nat) :
    (chunk size xs index)[i]? = if i < size then xs[index * size + i]? else none := by
  rw [chunk, List.getElem?_take]
  split
  · rw [List.getElem?_drop]
  · rfl

@[simp] theorem length_chunk (index : Nat) : (chunk size xs index).length = min size (xs.length - index * size) := by
  rw [chunk, List.length_take, List.length_drop]

/-! ## Writing -/

theorem pad_eq_patch (length : Nat) :
    pad zero xs length = patch zero xs xs.length (List.replicate (length - xs.length) zero) := by
  apply List.ext_getElem?
  intro i
  rw [getElem?_pad, getElem?_patch, List.length_replicate, List.getElem?_replicate]
  by_cases before : i < xs.length
  · simp [before]
  · rw [if_neg before, if_neg before]
    by_cases within : i < length
    · rw [if_pos within, if_pos (by omega), if_pos (by omega)]
    · rw [if_neg within, if_neg (by omega), List.getElem?_eq_none (by omega)]

theorem pad_of_le {length : Nat} (reached : length ≤ xs.length) : pad zero xs length = xs := by
  rw [pad, Nat.sub_eq_zero_of_le reached, List.replicate_zero, List.append_nil]

@[simp] theorem patch_nil {offset : Nat} (within : offset ≤ xs.length) : patch zero xs offset [] = xs := by
  rw [patch, pad_of_le within]
  simp

/-- A piece that covers everything replaces it. -/
theorem patch_whole {piece : List α} (covers : xs.length ≤ piece.length) : patch zero xs 0 piece = piece := by
  rw [patch, List.take_zero, List.nil_append, Nat.zero_add, List.drop_eq_nil_of_le covers, List.append_nil]

theorem patch_pad (offset : Nat) (piece : List α) :
    patch zero (pad zero xs offset) offset piece = patch zero xs offset piece := by
  apply List.ext_getElem?
  intro i
  simp only [getElem?_patch, length_pad, getElem?_pad]
  grind

/-- Two pieces, one after the other. -/
theorem patch_append (offset : Nat) (first second : List α) :
    patch zero (patch zero xs offset first) (offset + first.length) second = patch zero xs offset (first ++ second) := by
  apply List.ext_getElem?
  intro i
  simp only [getElem?_patch, length_patch, List.length_append, List.getElem?_append]
  grind

/-! ## The chunks of a written sequence -/

theorem layout_getD (index : Nat) : (layout size xs index).getD [] = chunk size xs index := by
  unfold layout
  split
  · rfl
  · rename_i past
    rw [Option.getD_none, chunk, List.drop_eq_nil_of_le (by omega), List.take_nil]

/-- Chunks in front of another one end where it starts. -/
theorem chunk_before {index other : Nat} (before : index < other) : index * size + size ≤ other * size := by
  calc index * size + size = (index + 1) * size := by ring
    _ ≤ other * size := Nat.mul_le_mul_right size before

/-- Writing within one chunk, which is not past the one where the sequence ends. -/
theorem layout_patch (positive : 0 < size) {offset : Nat} {piece : List α} (filled : piece ≠ [])
    (within : offset % size + piece.length ≤ size) (contiguous : offset / size ≤ xs.length / size) :
    layout size (patch zero xs offset piece) =
      Function.update (layout size xs) (offset / size)
        (some (patch zero (chunk size xs (offset / size)) (offset % size) piece)) := by
  have length : 0 < piece.length := List.length_pos_iff.mpr filled
  have start : offset / size * size + offset % size = offset := Nat.div_add_mod' offset size
  have reached : offset / size * size ≤ xs.length :=
    le_trans (Nat.mul_le_mul_right size contiguous) (Nat.div_mul_le_self _ _)
  have low : offset % size < size := Nat.mod_lt _ positive
  funext index
  rw [Function.update_apply]
  split
  · rename_i same
    rw [same, layout, if_pos (by rw [length_patch]; omega), Option.some.injEq]
    apply List.ext_getElem?
    intro i
    simp only [getElem?_chunk, getElem?_patch, length_chunk]
    generalize offset / size * size = base at start reached ⊢
    generalize offset % size = inner at start within low ⊢
    subst start
    have piecewise : base + i - (base + inner) = i - inner := by omega
    rw [piecewise]
    grind
  · rename_i other
    have apart : index * size + size ≤ offset / size * size ∨ offset / size * size + size ≤ index * size := by
      rcases Nat.lt_or_gt_of_ne other with before | after
      · exact .inl (chunk_before before)
      · exact .inr (chunk_before after)
    have same : chunk size (patch zero xs offset piece) index = chunk size xs index := by
      apply List.ext_getElem?
      intro i
      rw [getElem?_chunk, getElem?_chunk]
      split
      · rw [getElem?_patch]
        grind
      · rfl
    rw [layout, layout, same, length_patch]
    congr 1
    simp only [eq_iff_iff]
    omega

/-! ## The chunks of a shorter or longer sequence -/

/-- The last chunk that a length reaches, and how much of it. -/
theorem last_chunk {length : Nat} (filled : 0 < length) :
    (length - 1) / size * size + ((length - 1) % size + 1) = length := by
  have split := Nat.div_add_mod' (length - 1) size
  omega

/-- A full last chunk leaves no remainder. -/
theorem last_mod (positive : 0 < size) {length : Nat} (filled : 0 < length) :
    length % size = if (length - 1) % size + 1 = size then 0 else (length - 1) % size + 1 := by
  have reached := @last_chunk size _ filled
  have low := Nat.mod_lt (length - 1) positive
  calc length % size = ((length - 1) % size + 1 + (length - 1) / size * size) % size := by
        rw [Nat.add_comm, reached]
    _ = ((length - 1) % size + 1) % size := Nat.add_mul_mod_self_right _ _ _
    _ = _ := by
      split
      · rename_i full
        rw [full, Nat.mod_self]
      · rw [Nat.mod_eq_of_lt (by omega)]

theorem chunk_take {length index : Nat} (whole : index * size + size ≤ length) :
    chunk size (xs.take length) index = chunk size xs index := by
  apply List.ext_getElem?
  intro i
  rw [getElem?_chunk, getElem?_chunk]
  split
  · rw [List.getElem?_take_of_lt (by omega)]
  · rfl

/-- A shorter sequence drops the chunks past its last one and may cut that one. -/
theorem layout_take (positive : 0 < size) {length : Nat} (filled : 0 < length) (shorter : length ≤ xs.length)
    (index : Nat) : layout size (xs.take length) index =
      if (length - 1) / size < index then none
      else if index = (length - 1) / size ∧ 0 < length % size then
        some ((chunk size xs index).take (length % size))
      else layout size xs index := by
  have reached := @last_chunk size _ filled
  have low := Nat.mod_lt (length - 1) positive
  rw [last_mod positive filled]
  generalize (length - 1) / size = last at reached ⊢
  generalize (length - 1) % size = inner at reached low ⊢
  rw [layout, List.length_take, Nat.min_eq_left shorter]
  rcases Nat.lt_trichotomy index last with before | same | after
  · have apart := @chunk_before size _ _ before
    rw [if_pos (by omega), if_neg (by omega), if_neg (by omega), chunk_take (by omega), layout, if_pos (by omega)]
  · subst same
    rw [if_pos (by omega), if_neg (by omega)]
    by_cases full : inner + 1 = size
    · rw [if_neg (by simp [full]), layout, if_pos (by omega), chunk_take (by omega)]
    · rw [if_pos (by simp [full]), if_neg full, Option.some.injEq]
      apply List.ext_getElem?
      intro i
      rw [getElem?_chunk, List.getElem?_take, List.getElem?_take, getElem?_chunk]
      grind
  · have apart := @chunk_before size _ _ after
    rw [if_neg (by omega), if_pos after]

/-- A longer sequence fills its last chunk with zeros and continues with chunks of zeros. -/
theorem layout_pad (positive : 0 < size) {length : Nat} (longer : xs.length < length) (index : Nat) :
    layout size (pad zero xs length) index =
      if (length - 1) / size < index then none
      else if xs.length ≤ index * size then
        some (List.replicate (if index = (length - 1) / size then (length - 1) % size + 1 else size) zero)
      else some (pad zero (chunk size xs index)
        (if index = (length - 1) / size then (length - 1) % size + 1 else size)) := by
  have reached := @last_chunk size length (by omega)
  have low := Nat.mod_lt (length - 1) positive
  generalize (length - 1) / size = last at reached ⊢
  generalize (length - 1) % size = inner at reached low ⊢
  rw [layout, length_pad, Nat.max_eq_right (by omega)]
  rcases Nat.lt_or_ge last index with after | upto
  · have apart := @chunk_before size _ _ after
    rw [if_neg (by omega), if_pos after]
  · have apart : index = last ∨ index * size + size ≤ last * size := by
      rcases Nat.lt_or_eq_of_le upto with before | same
      · exact .inr (chunk_before before)
      · exact .inl same
    have inside : index * size < length := by
      rcases apart with rfl | before <;> omega
    rw [if_pos inside, if_neg (by omega)]
    split
    · rename_i past
      rw [Option.some.injEq]
      apply List.ext_getElem?
      intro i
      rw [getElem?_chunk, getElem?_pad, List.getElem?_replicate]
      grind
    · rename_i stored
      rw [Option.some.injEq]
      apply List.ext_getElem?
      intro i
      rw [getElem?_chunk, getElem?_pad, getElem?_pad, getElem?_chunk, length_chunk]
      grind

/-! ## Reading -/

theorem flatten_chunks (first number : Nat) : ((List.range' first number).map (chunk size xs)).flatten =
    (xs.drop (first * size)).take (number * size) := by
  induction number generalizing first with
  | zero => simp
  | succ number ih =>
    rw [List.range'_succ, List.map_cons, List.flatten_cons, ih, chunk]
    have further : (first + 1) * size = first * size + size := by ring
    have all : (number + 1) * size = size + number * size := by ring
    rw [further, all, ← List.drop_drop, List.take_add]

/-! ## Chunks with gaps -/

/-- Rows of chunks in order, each no longer than a chunk and within the length. -/
structure Placed (size length : Nat) (rows : List (Nat × List α)) : Prop where
  ordered : rows.Pairwise fun first second => first.1 < second.1
  short : ∀ row ∈ rows, row.2.length ≤ size
  inside : ∀ row ∈ rows, row.1 * size + row.2.length ≤ length

section Placed

variable {length first : Nat} {row : Nat × List α} {rows : List (Nat × List α)}

theorem Placed.tail (placed : Placed size length (row :: rows)) : Placed size length rows where
  ordered := (List.pairwise_cons.mp placed.ordered).2
  short other member := placed.short other (List.mem_cons_of_mem _ member)
  inside other member := placed.inside other (List.mem_cons_of_mem _ member)

theorem Placed.later (placed : Placed size length (row :: rows)) : ∀ other ∈ rows, row.1 + 1 ≤ other.1 :=
  (List.pairwise_cons.mp placed.ordered).1

/-- They hold no more than there is room for from the first one on. -/
theorem Placed.sum_le (placed : Placed size length rows) (from_first : ∀ row ∈ rows, first ≤ row.1) :
    (rows.map fun row => row.2.length).sum ≤ length - first * size := by
  induction rows generalizing first with
  | nil => exact Nat.zero_le _
  | cons row rows ih =>
    have rest := ih placed.tail placed.later
    have short := placed.short row List.mem_cons_self
    have inside := placed.inside row List.mem_cons_self
    have start : first * size ≤ row.1 * size := Nat.mul_le_mul_right size (from_first row List.mem_cons_self)
    have next : (row.1 + 1) * size = row.1 * size + size := by ring
    rw [List.map_cons, List.sum_cons]
    omega

/-- When they fill all of it, no place is left out. -/
theorem Placed.covers (placed : Placed size length rows) (from_first : ∀ row ∈ rows, first ≤ row.1)
    (full : (rows.map fun row => row.2.length).sum = length - first * size) {place : Nat}
    (reached : first * size ≤ place) (within : place < length) :
    ∃ row ∈ rows, row.1 * size ≤ place ∧ place < row.1 * size + row.2.length := by
  induction rows generalizing first with
  | nil =>
    rw [List.map_nil, List.sum_nil] at full
    omega
  | cons row rows ih =>
    have rest := placed.tail.sum_le placed.later
    have short := placed.short row List.mem_cons_self
    have inside := placed.inside row List.mem_cons_self
    have start : first * size ≤ row.1 * size := Nat.mul_le_mul_right size (from_first row List.mem_cons_self)
    have next : (row.1 + 1) * size = row.1 * size + size := by ring
    rw [List.map_cons, List.sum_cons] at full
    by_cases here : place < row.1 * size + row.2.length
    · exact ⟨row, List.mem_cons_self, by omega, here⟩
    · -- The row is full, since the rest has no room for what it lacks.
      obtain ⟨other, member, covered⟩ := ih placed.tail placed.later (by omega) (by omega)
      exact ⟨other, List.mem_cons_of_mem _ member, covered⟩

end Placed

end Foundation
