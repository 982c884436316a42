import Mathlib.Data.List.Nodup
import Mathlib.Data.List.Perm.Basic
import Mathlib.Data.List.Sort

/-! Finite tables of rows under a unique key, in insertion order.

A table carries the proof of its uniqueness constraint, so a statement that would
break the constraint has no result. Rows keep their position when they are updated.
-/

set_option autoImplicit false

namespace Foundation

/-- Rows under a key that no two of them share. -/
@[ext] structure Table {Row Key : Type} (key : Row → Key) where
  rows : List Row
  unique : (rows.map key).Nodup

namespace Table

variable {Row Key : Type} {key : Row → Key}

def empty : Table key := ⟨[], List.nodup_nil⟩

instance [DecidableEq Row] : DecidableEq (Table key) := fun first second =>
  decidable_of_iff (first.rows = second.rows) Table.ext_iff.symm

/-- A list of rows as a table, when it satisfies the constraint. -/
def ofRows? [DecidableEq Key] (rows : List Row) : Option (Table key) :=
  if unique : (rows.map key).Nodup then some ⟨rows, unique⟩ else none

theorem ofRows?_eq_some [DecidableEq Key] {rows : List Row} {table : Table key} :
    ofRows? rows = some table ↔ table.rows = rows := by
  unfold ofRows?
  split
  · rw [Option.some.injEq, Table.ext_iff]
    exact eq_comm
  · rename_i duplicate
    simp only [reduceCtorEq, false_iff]
    rintro rfl
    exact duplicate table.unique

def find? [DecidableEq Key] (table : Table key) (k : Key) : Option Row :=
  table.rows.find? fun row => key row = k

/-- Delete the selected rows. -/
def deleteWhere (table : Table key) (selected : Row → Bool) : Table key where
  rows := table.rows.filter fun row => !selected row
  unique := table.unique.sublist (List.filter_sublist.map key)

def erase [DecidableEq Key] (table : Table key) (k : Key) : Table key :=
  table.deleteWhere fun row => key row = k

/-- Append a row unless its key is taken. -/
def insert? [DecidableEq Key] (table : Table key) (row : Row) : Option (Table key) :=
  ofRows? (table.rows ++ [row])

/-- `INSERT OR IGNORE`. -/
def insertOrIgnore [DecidableEq Key] (table : Table key) (row : Row) : Table key := (table.insert? row).getD table

/-- Update the selected rows in place, keys included, unless two rows then collide. -/
def update? [DecidableEq Key] (table : Table key) (selected : Row → Bool) (change : Row → Row) :
    Option (Table key) :=
  ofRows? (table.rows.map fun row => if selected row then change row else row)

/-- Update rows in place by a change that leaves every key alone. -/
def modify (table : Table key) (change : Row → Row) (same : ∀ row, key (change row) = key row) :
    Table key where
  rows := table.rows.map change
  unique := by
    rw [List.map_map, show key ∘ change = key from funext same]
    exact table.unique

/-- Replace the row of the same key, or append the row. -/
def upsert [DecidableEq Key] (table : Table key) (row : Row) : Table key where
  rows := (table.erase (key row)).rows ++ [row]
  unique := by
    rw [List.map_append, List.map_singleton]
    refine List.nodup_append.mpr ⟨(table.erase (key row)).unique, List.nodup_singleton _, ?_⟩
    intro k member other last
    obtain ⟨old, kept, rfl⟩ := List.mem_map.mp member
    rw [List.mem_singleton.mp last]
    simpa [erase, deleteWhere] using (List.mem_filter.mp kept).2

/-! ## Lookup -/

section Lookup

variable [DecidableEq Key] (table : Table key)

theorem find?_mem {k : Key} {row : Row} (found : table.find? k = some row) : row ∈ table.rows :=
  List.mem_of_find?_eq_some found

theorem find?_key {k : Key} {row : Row} (found : table.find? k = some row) : key row = k := by
  simpa using List.find?_some found

omit [DecidableEq Key] in
theorem eq_of_key {first second : Row} (left : first ∈ table.rows) (right : second ∈ table.rows)
    (same : key first = key second) : first = second :=
  List.inj_on_of_nodup_map table.unique left right same

theorem find?_eq_some_iff {k : Key} {row : Row} :
    table.find? k = some row ↔ row ∈ table.rows ∧ key row = k := by
  constructor
  · exact fun found => ⟨table.find?_mem found, table.find?_key found⟩
  · rintro ⟨member, rfl⟩
    cases found : table.find? (key row) with
    | none => simpa using List.find?_eq_none.mp found row member
    | some other =>
      rw [table.eq_of_key (table.find?_mem found) member (table.find?_key found)]

theorem find?_of_mem {row : Row} (member : row ∈ table.rows) : table.find? (key row) = some row :=
  table.find?_eq_some_iff.mpr ⟨member, rfl⟩

theorem find?_eq_none_iff {k : Key} : table.find? k = none ↔ ∀ row ∈ table.rows, key row ≠ k := by
  simp [find?]

omit [DecidableEq Key] in
@[simp] theorem mem_deleteWhere {selected : Row → Bool} {row : Row} :
    row ∈ (table.deleteWhere selected).rows ↔ row ∈ table.rows ∧ selected row = false := by
  simp [deleteWhere]

@[simp] theorem mem_erase {k : Key} {row : Row} :
    row ∈ (table.erase k).rows ↔ row ∈ table.rows ∧ key row ≠ k := by
  simp [erase]

theorem find?_erase (k other : Key) :
    (table.erase k).find? other = if other = k then none else table.find? other := by
  apply Option.ext
  intro row
  split
  · rename_i same
    simp only [find?_eq_some_iff, mem_erase, reduceCtorEq, iff_false]
    rintro ⟨⟨_, kept⟩, found⟩
    exact kept (found.trans same)
  · rename_i different
    simp only [find?_eq_some_iff, mem_erase]
    constructor
    · exact fun h => ⟨h.1.1, h.2⟩
    · exact fun h => ⟨⟨h.1, fun taken => different (h.2.symm.trans taken)⟩, h.2⟩

theorem find?_deleteWhere (selected : Row → Bool) (k : Key) :
    (table.deleteWhere selected).find? k = (table.find? k).filter fun row => !selected row := by
  apply Option.ext
  intro row
  simp only [find?_eq_some_iff, mem_deleteWhere, Option.filter_eq_some_iff, Bool.not_eq_true']
  constructor
  · exact fun h => ⟨⟨h.1.1, h.2⟩, h.1.2⟩
  · exact fun h => ⟨⟨h.1.1, h.2⟩, h.1.2⟩

theorem erase_of_find?_eq_none {k : Key} (absent : table.find? k = none) : table.erase k = table := by
  apply Table.ext
  simp only [erase, deleteWhere, List.filter_eq_self]
  intro row member
  simpa using table.find?_eq_none_iff.mp absent row member

theorem insert?_eq_some_iff {row : Row} {table' : Table key} :
    table.insert? row = some table' ↔ table.find? (key row) = none ∧ table'.rows = table.rows ++ [row] := by
  rw [insert?, ofRows?_eq_some]
  constructor
  · intro appended
    refine ⟨table.find?_eq_none_iff.mpr ?_, appended⟩
    intro old member same
    have unique := table'.unique
    rw [appended, List.map_append, List.nodup_append] at unique
    exact unique.2.2 (key old) (List.mem_map_of_mem member) (key row) (by simp) same
  · exact fun h => h.2

theorem nodup_append {row : Row} (absent : table.find? (key row) = none) :
    ((table.rows ++ [row]).map key).Nodup := by
  rw [List.map_append, List.map_singleton]
  refine List.nodup_append.mpr ⟨table.unique, List.nodup_singleton _, ?_⟩
  intro k member other last
  obtain ⟨old, old_mem, rfl⟩ := List.mem_map.mp member
  rw [List.mem_singleton.mp last]
  exact table.find?_eq_none_iff.mp absent old old_mem

theorem insert?_of_absent {row : Row} (absent : table.find? (key row) = none) :
    ∃ table', table.insert? row = some table' := by
  refine ⟨⟨table.rows ++ [row], table.nodup_append absent⟩, ?_⟩
  exact table.insert?_eq_some_iff.mpr ⟨absent, rfl⟩

/-- Rows of new keys are all inserted. -/
theorem foldl_insertOrIgnore {rows : List Row} (unique : ((table.rows ++ rows).map key).Nodup) :
    (rows.foldl insertOrIgnore table).rows = table.rows ++ rows := by
  induction rows generalizing table with
  | nil => exact (List.append_nil _).symm
  | cons row rest ih =>
    have absent : table.find? (key row) = none := by
      rw [find?_eq_none_iff]
      intro old member same
      rw [List.map_append, List.nodup_append] at unique
      exact unique.2.2 _ (List.mem_map_of_mem member) _ List.mem_cons_self same
    obtain ⟨next, inserted⟩ := table.insert?_of_absent absent
    have stored := (table.insert?_eq_some_iff.mp inserted).2
    have spelled : next.rows ++ rest = table.rows ++ row :: rest := by
      rw [stored, List.append_assoc, List.singleton_append]
    rw [List.foldl_cons, insertOrIgnore, inserted, Option.getD_some, ih next (by rw [spelled]; exact unique), spelled]

theorem find?_insert {row : Row} {table' : Table key} (inserted : table.insert? row = some table')
    (k : Key) : table'.find? k = if k = key row then some row else table.find? k := by
  obtain ⟨absent, appended⟩ := table.insert?_eq_some_iff.mp inserted
  unfold find?
  rw [appended, List.find?_append]
  split
  · rename_i same
    subst same
    simp only [find?] at absent
    simp [absent]
  · rename_i different
    simp [Ne.symm different]

@[simp] theorem find?_upsert (row : Row) (k : Key) :
    (table.upsert row).find? k = if k = key row then some row else table.find? k := by
  have erased := table.find?_erase (key row) k
  unfold find? at erased ⊢
  simp only [upsert, List.find?_append, erased]
  split
  · rename_i same
    simp [same]
  · rename_i different
    simp [Ne.symm different]

theorem find?_modify {change : Row → Row} (same : ∀ row, key (change row) = key row) (k : Key) :
    (table.modify change same).find? k = (table.find? k).map change := by
  simp [find?, modify, List.find?_map, Function.comp_def, same]

end Lookup

/-- The row of a key is the only one. -/
theorem filter_key [DecidableEq Key] (table : Table key) {k : Key} {row : Row} (found : table.find? k = some row) :
    table.rows.filter (fun other => key other = k) = [row] := by
  have nodup : (table.rows.filter fun other => key other = k).Nodup := table.unique.of_map.filter _
  refine List.perm_singleton.mp ((List.perm_ext_iff_of_nodup nodup (List.nodup_singleton row)).mpr ?_)
  intro other
  simp only [List.mem_filter, decide_eq_true_eq, List.mem_singleton]
  rw [← table.find?_eq_some_iff, found, Option.some.injEq]
  exact eq_comm

/-! ## Counting selected rows -/

section Counting

variable (table : Table key)

def count (selected : Row → Bool) : Nat := table.rows.countP selected

theorem count_eq_zero_iff {selected : Row → Bool} :
    table.count selected = 0 ↔ ∀ row ∈ table.rows, selected row = false := by
  simp [count, List.countP_eq_zero]

theorem count_pos_iff {selected : Row → Bool} :
    0 < table.count selected ↔ ∃ row ∈ table.rows, selected row = true := by
  simp [count, List.countP_pos_iff]

theorem count_insert [DecidableEq Key] {row : Row} {table' : Table key}
    (inserted : table.insert? row = some table') (selected : Row → Bool) :
    table'.count selected = table.count selected + if selected row then 1 else 0 := by
  rw [count, (table.insert?_eq_some_iff.mp inserted).2, List.countP_append, List.countP_singleton, count]

theorem update?_eq_some_iff [DecidableEq Key] {selected : Row → Bool} {change : Row → Row} {table' : Table key} :
    table.update? selected change = some table' ↔
      table'.rows = table.rows.map fun row => if selected row then change row else row :=
  ofRows?_eq_some

/-- A row that moves to another key is found there, and no longer where it was. -/
theorem find?_moved [DecidableEq Key] {k k' : Key} {row : Row} {change : Row → Row} {table' : Table key}
    (found : table.find? k = some row) (moved : key (change row) = k')
    (updated : table.update? (fun other => key other = k) change = some table') (other : Key) :
    table'.find? other = if other = k' then some (change row) else if other = k then none else table.find? other := by
  have rows := table.update?_eq_some_iff.mp updated
  have keyed : key row = k := table.find?_key found
  have listed : change row ∈ table'.rows := by
    rw [rows]
    exact List.mem_map.mpr ⟨row, table.find?_mem found, by simp [keyed]⟩
  split
  · rename_i here
    rw [here, ← moved]
    exact table'.find?_of_mem listed
  · rename_i elsewhere
    -- Any other row of the new table is an old one.
    have old : ∀ kept ∈ table'.rows, key kept = other → kept ∈ table.rows ∧ other ≠ k := by
      intro kept member same
      rw [rows] at member
      obtain ⟨before, inside, changed⟩ := List.mem_map.mp member
      by_cases chosen : key before = k
      · rw [if_pos (by simpa using chosen)] at changed
        have single : before = row := table.eq_of_key inside (table.find?_mem found) (chosen.trans keyed.symm)
        rw [← changed, single, moved] at same
        exact absurd same.symm elsewhere
      · rw [if_neg (by simpa using chosen)] at changed
        rw [← changed] at same ⊢
        exact ⟨inside, fun equal => chosen (same.trans equal)⟩
    split
    · rename_i left
      rw [table'.find?_eq_none_iff]
      intro kept member same
      exact (old kept member same).2 left
    · rename_i apart
      cases before : table.find? other with
      | none =>
        rw [table'.find?_eq_none_iff]
        intro kept member same
        exact table.find?_eq_none_iff.mp before kept (old kept member same).1 same
      | some kept =>
        rw [table'.find?_eq_some_iff]
        have same := table.find?_key before
        refine ⟨?_, same⟩
        rw [rows]
        refine List.mem_map.mpr ⟨kept, table.find?_mem before, if_neg ?_⟩
        rw [same]
        simpa using apart

/-- A row may move to a key that is free. -/
theorem update?_of_absent [DecidableEq Key] {k k' : Key} {change : Row → Row}
    (moved : ∀ row ∈ table.rows, key row = k → key (change row) = k') (free : table.find? k' = none) :
    ∃ table', table.update? (fun row => key row = k) change = some table' := by
  have apart := table.find?_eq_none_iff.mp free
  have unique : ((table.rows.map fun row => if decide (key row = k) = true then change row else row).map key).Nodup := by
    rw [List.map_map]
    refine List.Nodup.map_on ?_ (List.Nodup.of_map key table.unique)
    intro first left second right same
    simp only [Function.comp_apply, decide_eq_true_eq] at same
    by_cases chosen : key first = k
    · by_cases also : key second = k
      · exact table.eq_of_key left right (chosen.trans also.symm)
      · rw [if_pos chosen, if_neg also, moved first left chosen] at same
        exact absurd same.symm (apart second right)
    · by_cases also : key second = k
      · rw [if_neg chosen, if_pos also, moved second right also] at same
        exact absurd same (apart first left)
      · rw [if_neg chosen, if_neg also] at same
        exact table.eq_of_key left right same
  exact ⟨⟨_, unique⟩, table.update?_eq_some_iff.mpr rfl⟩

/-- An update in place that keeps a selection keeps its count. -/
theorem count_update [DecidableEq Key] {chosen : Row → Bool} {change : Row → Row} {table' : Table key}
    (updated : table.update? chosen change = some table') {selected : Row → Bool}
    (kept : ∀ row, selected (change row) = selected row) : table'.count selected = table.count selected := by
  rw [count, table.update?_eq_some_iff.mp updated, List.countP_map, count]
  apply List.countP_congr
  intro row _
  rw [Function.comp_apply]
  split
  · rw [kept]
  · rfl

/-- Deleting the row of one key takes that row, and no other, out of every count. -/
theorem count_erase [DecidableEq Key] {k : Key} {row : Row} (found : table.find? k = some row)
    (selected : Row → Bool) :
    table.count selected = (table.erase k).count selected + if selected row then 1 else 0 := by
  have split := List.countP_eq_countP_filter_add table.rows selected (fun other => !decide (key other = k))
  simp only [Bool.not_not] at split
  rw [table.filter_key found, List.countP_singleton] at split
  exact split

/-- Updating the row of one key in place moves its weight from the old row to the new one. -/
theorem count_moved [DecidableEq Key] {k : Key} {row : Row} (found : table.find? k = some row)
    {change : Row → Row} {table' : Table key}
    (updated : table.update? (fun other => key other = k) change = some table') (selected : Row → Bool) :
    table'.count selected = (table.erase k).count selected + if selected (change row) then 1 else 0 := by
  have keyed : key row = k := table.find?_key found
  have rows := table.update?_eq_some_iff.mp updated
  -- Count the old table by what each row becomes.
  have before := table.count_erase found fun other => selected (if key other = k then change other else other)
  rw [if_pos keyed] at before
  have kept : (table.erase k).count (fun other => selected (if key other = k then change other else other)) =
      (table.erase k).count selected := by
    apply List.countP_congr
    intro other member
    rw [if_neg ((table.mem_erase).mp member).2]
  rw [kept] at before
  rw [← before, count, rows, List.countP_map, count]
  apply List.countP_congr
  intro other _
  simp

end Counting

end Table

end Foundation
