import Mathlib.Data.List.Infix
import Mathlib.Data.List.DropRight
import Mathlib.Tactic.Common

/-! Lists cut into fields at a separator, and absolute spellings of field lists.

The fields of a list are its maximal runs without the separator. An absolute spelling
puts the separator before every field, and one spelling extends another at a field
boundary exactly when its fields extend the other's.
-/

set_option autoImplicit false

namespace Foundation

variable {α : Type} [DecidableEq α] (sep : α)

/-- Split at the separator and drop the empty pieces. -/
def fields (xs : List α) : List (List α) := (xs.splitOn sep).filter fun piece => !piece.isEmpty

/-- Pieces that a split can produce and a join keeps apart. -/
def Separable (pieces : List (List α)) : Prop := ∀ piece ∈ pieces, piece ≠ [] ∧ sep ∉ piece

/-- The separator, then the pieces joined by it. -/
def absolute (pieces : List (List α)) : List α := sep :: [sep].intercalate pieces

variable {sep}

/-! ## Splitting -/

omit [DecidableEq α] in
theorem mem_intercalate {pieces : List (List α)} {piece : List α} {x : α} (listed : piece ∈ pieces) (inside : x ∈ piece) :
    x ∈ [sep].intercalate pieces := by
  induction pieces with
  | nil => cases listed
  | cons first rest ih =>
    cases rest with
    | nil =>
      rw [List.mem_singleton.mp listed] at inside
      simpa using inside
    | cons next rest =>
      rw [List.intercalate_cons_cons, List.mem_append, List.mem_append]
      rcases List.mem_cons.mp listed with rfl | later
      · exact .inl (.inl inside)
      · exact .inr (ih later)

theorem mem_of_mem_splitOn {xs piece : List α} (member : piece ∈ xs.splitOn sep) : sep ∉ piece := by
  induction xs generalizing piece with
  | nil =>
    rw [List.splitOn_nil, List.mem_singleton] at member
    simp [member]
  | cons x xs ih =>
    rw [List.splitOn_cons_eq_if_modifyHead] at member
    split at member
    · rcases List.mem_cons.mp member with rfl | later
      · simp
      · exact ih later
    · rename_i different
      -- Only the first piece of the tail grows, and by a symbol that is not the separator.
      cases pieces : xs.splitOn sep with
      | nil => exact absurd pieces (List.splitOn_ne_nil sep xs)
      | cons first rest =>
        rw [pieces, List.modifyHead_cons] at member
        rcases List.mem_cons.mp member with rfl | later
        · have unseparated : sep ∉ first := ih (by rw [pieces]; exact List.mem_cons_self)
          simp only [beq_iff_eq] at different
          simp [unseparated, Ne.symm different]
        · exact ih (by rw [pieces]; exact List.mem_cons_of_mem _ later)

theorem mem_of_mem_piece {xs piece : List α} {x : α} (split : piece ∈ xs.splitOn sep) (inside : x ∈ piece) : x ∈ xs := by
  have joined : [sep].intercalate (xs.splitOn sep) = xs := List.intercalate_splitOn sep
  rw [← joined]
  exact mem_intercalate split inside

theorem fields_separable (xs : List α) : Separable sep (fields sep xs) := by
  intro piece member
  obtain ⟨split, nonempty⟩ := List.mem_filter.mp member
  refine ⟨?_, mem_of_mem_splitOn split⟩
  rintro rfl
  simp at nonempty

theorem fields_append_sep (xs ys : List α) : fields sep (xs ++ sep :: ys) = fields sep xs ++ fields sep ys := by
  rw [fields, List.splitOn_append_cons_self, List.filter_append]
  rfl

@[simp] theorem fields_nil : fields sep [] = [] := by
  simp [fields]

@[simp] theorem fields_cons_sep (xs : List α) : fields sep (sep :: xs) = fields sep xs := by
  simpa using @fields_append_sep α _ sep [] xs

@[simp] theorem fields_concat_sep (xs : List α) : fields sep (xs ++ [sep]) = fields sep xs := by
  simpa using @fields_append_sep α _ sep xs []

/-- Trailing separators separate nothing. -/
@[simp] theorem fields_trim (xs : List α) : fields sep (xs.rdropWhile (· == sep)) = fields sep xs := by
  induction xs using List.reverseRecOn with
  | nil => rfl
  | append_singleton xs x ih =>
    by_cases last : x = sep
    · subst last
      rw [List.rdropWhile_concat_pos _ _ _ (by simp), fields_concat_sep, ih]
    · rw [List.rdropWhile_concat_neg _ _ _ (by simpa using last)]

/-! ## Joining -/

theorem fields_intercalate {pieces : List (List α)} (separable : Separable sep pieces) :
    fields sep ([sep].intercalate pieces) = pieces := by
  cases pieces with
  | nil => simp
  | cons first rest =>
    rw [fields, List.splitOn_intercalate sep (fun piece member => (separable piece member).2) (by simp)]
    refine List.filter_eq_self.mpr ?_
    intro piece member
    simpa using (separable piece member).1

@[simp] theorem fields_absolute {pieces : List (List α)} (separable : Separable sep pieces) :
    fields sep (absolute sep pieces) = pieces := by
  rw [absolute, fields_cons_sep, fields_intercalate separable]

theorem absolute_injective {first second : List (List α)} (left : Separable sep first)
    (right : Separable sep second) (same : absolute sep first = absolute sep second) : first = second := by
  rw [← fields_absolute left, same, fields_absolute right]

omit [DecidableEq α] in
theorem absolute_append {first second : List (List α)} (started : first ≠ []) (continued : second ≠ []) :
    absolute sep (first ++ second) = absolute sep first ++ absolute sep second := by
  induction first with
  | nil => exact absurd rfl started
  | cons piece rest ih =>
    cases rest with
    | nil =>
      cases second with
      | nil => exact absurd rfl continued
      | cons => simp [absolute, List.intercalate_cons_cons]
    | cons next rest =>
      have tail := ih (by simp)
      simp only [absolute, List.cons_append, List.cons.injEq, true_and] at tail ⊢
      rw [List.intercalate_cons_cons, List.intercalate_cons_cons, tail]
      simp

/-- A separable field of an absolute spelling is never cut by a separator. -/
theorem absolute_prefix_iff {first second : List (List α)} (left : Separable sep first)
    (right : Separable sep second) (started : first ≠ []) :
    absolute sep first ++ [sep] <+: absolute sep second ↔ first <+: second ∧ first ≠ second := by
  constructor
  · rintro ⟨rest, spelled⟩
    have decomposed : second = first ++ fields sep rest := by
      rw [← fields_absolute right, ← spelled, List.append_assoc, List.singleton_append, fields_append_sep,
        fields_absolute left]
    refine ⟨⟨fields sep rest, decomposed.symm⟩, ?_⟩
    rintro rfl
    have length := congrArg List.length spelled
    simp at length
  · rintro ⟨⟨rest, rfl⟩, different⟩
    have continued : rest ≠ [] := by
      rintro rfl
      simp at different
    refine ⟨[sep].intercalate rest, ?_⟩
    rw [absolute_append started continued, List.append_assoc, absolute, absolute]
    simp

omit [DecidableEq α] in
theorem absolute_eq_root_iff {pieces : List (List α)} : absolute sep pieces = [sep] ↔ pieces = [] ∨ pieces = [[]] := by
  rw [absolute, List.cons.injEq]
  cases pieces with
  | nil => simp
  | cons first rest =>
    cases rest with
    | nil => simp
    | cons => simp [List.intercalate_cons_cons]

/-- The last field does not end in the separator, so nothing is trimmed. -/
theorem trim_absolute {pieces : List (List α)} (separable : Separable sep pieces) (started : pieces ≠ []) :
    (absolute sep pieces).rdropWhile (· == sep) = absolute sep pieces := by
  obtain ⟨front, last, rfl⟩ := List.eq_nil_or_concat pieces |>.resolve_left started
  obtain ⟨filled, unseparated⟩ := separable last (by simp)
  obtain ⟨init, symbol, rfl⟩ := List.eq_nil_or_concat last |>.resolve_left filled
  simp only [List.concat_eq_append] at *
  have kept : ∀ xs : List α, (xs ++ (init ++ [symbol])).rdropWhile (· == sep) = xs ++ (init ++ [symbol]) := by
    intro xs
    rw [← List.append_assoc, List.rdropWhile_concat_neg]
    intro same
    rw [beq_iff_eq] at same
    exact unseparated (by simp [same])
  have single : absolute sep [init ++ [symbol]] = [sep] ++ (init ++ [symbol]) := by simp [absolute]
  by_cases lonely : front = []
  · rw [lonely, List.nil_append, single]
    exact kept _
  · rw [absolute_append lonely (by simp), single, ← List.append_assoc]
    exact kept _

omit [DecidableEq α] in
theorem mem_absolute {pieces : List (List α)} {x : α} (member : x ∈ absolute sep pieces) :
    x = sep ∨ ∃ piece ∈ pieces, x ∈ piece := by
  induction pieces with
  | nil =>
    left
    simpa [absolute] using member
  | cons piece rest ih =>
    by_cases last : rest = []
    · subst last
      simpa [absolute] using member
    · have split := @absolute_append α sep [piece] rest (by simp) last
      rw [List.singleton_append] at split
      rw [split, List.mem_append] at member
      rcases member with first | later
      · rcases (by simpa [absolute] using first : x = sep ∨ x ∈ piece) with same | inside
        · exact .inl same
        · exact .inr ⟨piece, List.mem_cons_self, inside⟩
      · rcases ih later with same | ⟨other, listed, inside⟩
        · exact .inl same
        · exact .inr ⟨other, List.mem_cons_of_mem _ listed, inside⟩

/-- Between two separators stands a field and nothing else. -/
theorem delimited_infix_iff {pieces : List (List α)} {piece : List α} (separable : Separable sep pieces)
    (single : Separable sep [piece]) : sep :: piece ++ [sep] <:+: absolute sep pieces ++ [sep] ↔ piece ∈ pieces := by
  constructor
  · rintro ⟨front, back, spelled⟩
    have cut : fields sep (absolute sep pieces ++ [sep]) = fields sep front ++ (fields sep piece ++ fields sep back) := by
      rw [← spelled, List.append_assoc, List.cons_append, List.cons_append, fields_append_sep, List.append_assoc,
        List.singleton_append, fields_append_sep]
    have alone : fields sep piece = [piece] := by
      have joined := fields_intercalate single
      rwa [List.intercalate_singleton] at joined
    rw [fields_concat_sep, fields_absolute separable, alone] at cut
    rw [cut]
    simp
  · intro member
    induction pieces with
    | nil => cases member
    | cons first rest ih =>
      have later : Separable sep rest := fun other listed => separable other (List.mem_cons_of_mem _ listed)
      by_cases last : rest = []
      · subst last
        rw [List.mem_singleton.mp member, absolute, List.intercalate_singleton]
      · have split := @absolute_append α sep [first] rest (by simp) last
        rw [List.singleton_append] at split
        have head : absolute sep [first] = sep :: first := by rw [absolute, List.intercalate_singleton]
        rw [split, head, List.append_assoc]
        rcases List.mem_cons.mp member with rfl | inside
        · refine List.IsPrefix.isInfix ⟨[sep].intercalate rest ++ [sep], ?_⟩
          simp [absolute]
        · exact (ih later inside).trans (List.suffix_append _ _).isInfix

end Foundation
