import AiryFS.Foundation.Table
import AiryFS.Foundation.Fallible

/-! Named copies of a table, kept together in one table.

A copy is taken whole and dropped whole, and its rows come back in the order in which they
were taken. Filling an empty table with them gives the table that was copied.
-/

set_option autoImplicit false

namespace Foundation

variable {Name Row Key : Type} {key : Row → Key}

/-- The rows of every copy, each under the name of its copy. -/
abbrev Archive (Name : Type) {Row Key : Type} (key : Row → Key) := Table fun row : Name × Row => (row.1, key row.2)

namespace Archive

variable [DecidableEq Name] [DecidableEq Key] {archive archive' : Archive Name key} {name other : Name} {rows : List Row}

/-- The rows of one copy. -/
def select (archive : Archive Name key) (name : Name) : List Row :=
  archive.rows.filterMap fun row => if row.1 = name then some row.2 else none

def capture? (archive : Archive Name key) (name : Name) (rows : List Row) : Option (Archive Name key) :=
  Table.ofRows? (archive.rows ++ rows.map fun row => (name, row))

def drop (archive : Archive Name key) (name : Name) : Archive Name key := archive.deleteWhere fun row => row.1 = name

omit [DecidableEq Key] in
theorem select_append (archive : Archive Name key) (copied : List Row) :
    (archive.rows ++ copied.map fun row => (name, row)).filterMap (fun row => if row.1 = other then some row.2 else none) =
      archive.select other ++ if name = other then copied else [] := by
  rw [List.filterMap_append, select, List.filterMap_map]
  congr 1
  split
  · rename_i same
    have every : ((fun row : Name × Row => if row.1 = other then some row.2 else none) ∘ fun row => (name, row)) = some := by
      funext row
      exact if_pos same
    rw [every, List.filterMap_some]
  · rename_i different
    rw [List.filterMap_eq_nil_iff]
    intro row _
    rw [Function.comp_apply, if_neg different]

theorem select_capture (captured : archive.capture? name rows = some archive') :
    archive'.select name = archive.select name ++ rows := by
  rw [select, Table.ofRows?_eq_some.mp captured, select_append, if_pos rfl]

theorem select_capture_ne (captured : archive.capture? name rows = some archive') (different : other ≠ name) :
    archive'.select other = archive.select other := by
  rw [select, Table.ofRows?_eq_some.mp captured, select_append, if_neg (Ne.symm different), List.append_nil]

omit [DecidableEq Key] in
theorem select_drop_ne (archive : Archive Name key) (different : other ≠ name) :
    (archive.drop name).select other = archive.select other := by
  rw [select, drop, Table.deleteWhere, List.filterMap_filter, select]
  apply List.filterMap_congr
  intro row _
  by_cases mine : row.1 = name
  · rw [if_neg (by simp [mine]), if_neg (by rw [mine]; exact Ne.symm different)]
  · rw [if_pos (by simp [mine])]

omit [DecidableEq Key] in
theorem select_drop (archive : Archive Name key) (name : Name) : (archive.drop name).select name = [] := by
  rw [select, List.filterMap_eq_nil_iff]
  intro row kept
  exact if_neg (by simpa using ((archive.mem_deleteWhere).mp kept).2)

end Archive

section Fill

variable [DecidableEq Key] {State Frame ε : Type} {table : State → Table key} {frame : State → Frame}
  {insert : State → Row → Except ε State}

/-- Inserting rows of different keys one by one fills the table, as long as there is room for
what remains and an insertion changes nothing else that is looked at. -/
theorem fill {room : State → List Row → Prop}
    (inserts : ∀ state row rest, (table state).find? (key row) = none → room state (row :: rest) →
      ∃ state', insert state row = .ok state' ∧ (table state').rows = (table state).rows ++ [row] ∧
        frame state' = frame state ∧ room state' rest)
    {rows : List Row} {state : State} (unique : (((table state).rows ++ rows).map key).Nodup) (enough : room state rows) :
    ∃ state', rows.foldlM insert state = .ok state' ∧ (table state').rows = (table state).rows ++ rows ∧
      frame state' = frame state := by
  induction rows generalizing state with
  | nil => exact ⟨state, rfl, (List.append_nil _).symm, rfl⟩
  | cons row rest ih =>
    have absent : (table state).find? (key row) = none := by
      rw [Table.find?_eq_none_iff]
      intro old member same
      rw [List.map_append, List.nodup_append] at unique
      exact unique.2.2 _ (List.mem_map_of_mem member) _ List.mem_cons_self same
    obtain ⟨next, inserted, stored, kept, remaining⟩ := inserts state row rest absent enough
    have spelled : (table next).rows ++ rest = (table state).rows ++ row :: rest := by
      rw [stored, List.append_assoc, List.singleton_append]
    obtain ⟨final, filled, rows, same⟩ := ih (by rw [spelled]; exact unique) remaining
    refine ⟨final, ?_, rows.trans spelled, same.trans kept⟩
    rw [List.foldlM_cons, inserted]
    exact filled

/-- The rows of a table make that table again in an empty one. -/
theorem refill {room : State → List Row → Prop}
    (inserts : ∀ state row rest, (table state).find? (key row) = none → room state (row :: rest) →
      ∃ state', insert state row = .ok state' ∧ (table state').rows = (table state).rows ++ [row] ∧
        frame state' = frame state ∧ room state' rest)
    (copied : Table key) {state : State} (empty : table state = .empty) (enough : room state copied.rows) :
    ∃ state', copied.rows.foldlM insert state = .ok state' ∧ table state' = copied ∧ frame state' = frame state := by
  have start : (table state).rows ++ copied.rows = copied.rows := by
    rw [empty]
    rfl
  obtain ⟨final, filled, rows, kept⟩ := fill inserts (by rw [start]; exact copied.unique) enough
  exact ⟨final, filled, Table.ext (rows.trans start), kept⟩

/-- Where nothing is ever full. -/
theorem refill_of_free
    (inserts : ∀ state row, (table state).find? (key row) = none → ∃ state', insert state row = .ok state' ∧
      (table state').rows = (table state).rows ++ [row] ∧ frame state' = frame state)
    (copied : Table key) {state : State} (empty : table state = .empty) :
    ∃ state', copied.rows.foldlM insert state = .ok state' ∧ table state' = copied ∧ frame state' = frame state := by
  have free : ∀ state row (rest : List Row), (table state).find? (key row) = none → True → ∃ state',
      insert state row = .ok state' ∧ (table state').rows = (table state).rows ++ [row] ∧
        frame state' = frame state ∧ True := by
    intro state row _ absent _
    obtain ⟨next, inserted, stored, kept⟩ := inserts state row absent
    exact ⟨next, inserted, stored, kept, trivial⟩
  exact @refill _ _ _ _ _ _ _ _ _ _ (fun _ _ => True) free copied state empty trivial

end Fill

end Foundation
