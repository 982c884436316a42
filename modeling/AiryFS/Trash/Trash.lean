import AiryFS.Direct.Children
import AiryFS.Foundation.Relinking

/-! Recoverable deletes: an entry is moved to a reserved directory, and its first path is kept in a table.

Each call is one transition, as its lock makes it. What a failing rename has done is rolled back.
-/

set_option autoImplicit false

namespace AiryFS

open Foundation

namespace Trash

def TRASH_ROOT : Text := "/.airyfs-trash".toList

inductive TrashType where
  | file
  | directory
  | symlink
  deriving DecidableEq, Repr

structure TrashEntry where
  id : Text
  originalPath : Text
  trashPath : Text
  type : TrashType
  size : Nat
  deletedAt : Int
  deriving DecidableEq, Repr

/-- The rows of `fs_trash` under their primary key; the trash paths are unique, too. -/
abbrev TrashTable := Table TrashEntry.id

/-- A volume and its trash. -/
structure Trashed where
  volume : Volume
  trash : TrashTable

/-- `ORDER BY deleted_at DESC, id DESC`: the order of the bytes of an id is that of its code points. -/
def TrashEntry.Later (first second : TrashEntry) : Prop :=
  second.deletedAt < first.deletedAt ∨
    second.deletedAt = first.deletedAt ∧ second.id.map Char.toNat ≤ first.id.map Char.toNat

instance : DecidableRel TrashEntry.Later := fun first second =>
  inferInstanceAs (Decidable (_ ∨ _ ∧ second.id.map Char.toNat ≤ first.id.map Char.toNat))

def listTrash (trash : TrashTable) : List TrashEntry := trash.rows.insertionSort TrashEntry.Later

def requireTrash (trash : TrashTable) (id : Text) : Except Failure TrashEntry :=
  required ((listTrash trash).find? fun candidate => candidate.id = id)
    (.http 404 "TRASH_NOT_FOUND" s!"Trash entry not found: {String.ofList id}")

/-- The path is the trash, or spelled below it. -/
def inTrash (path : Text) : Bool := path = TRASH_ROOT || (TRASH_ROOT ++ ['/']).isPrefixOf path

def typeOf (row : InodeRow) : TrashType :=
  if isDirectory row.mode then .directory else if isSymlink row.mode then .symlink else .file

/-- `fs.mkdir(TRASH_ROOT)`, which may find it there. -/
def makeRoot (volume : Volume) : Except Failure Volume :=
  match AgentFS.mkdir volume TRASH_ROOT with
  | .ok volume => .ok volume
  | .error (.fs error) => if error.code = .EEXIST then .ok volume else .error (.fs error)
  | .error failure => .error failure

def trashPathOf (id : Text) : Text := TRASH_ROOT ++ ['/'] ++ id

/-- The moved entry stays moved, should its row violate a constraint. -/
def moveToTrash (state : Trashed) (path id : Text) : Trashed × Except Failure TrashEntry :=
  if path = ['/'] ∨ inTrash path then
    (state, .error (.http 400 "INVALID_ARGUMENT" "The volume root and trash namespace cannot be trashed"))
  else
    let trashPath := trashPathOf id
    match AgentFS.stat state.volume path with
    | .error failure => (state, .error failure)
    | .ok stats =>
      match makeRoot state.volume with
      | .error failure => (state, .error failure)
      | .ok made =>
        match AgentFS.rename made path trashPath with
        | .error failure => ({ state with volume := made }, .error failure)
        | .ok volume =>
          let entry : TrashEntry := ⟨id, path, trashPath, typeOf stats, stats.size, state.volume.now⟩
          if state.trash.rows.any fun row => row.trashPath = trashPath then
            ({ state with volume }, .error (.constraint "fs_trash"))
          else
            match state.trash.insert? entry with
            | none => ({ state with volume }, .error (.constraint "fs_trash"))
            | some trash => (⟨volume, trash⟩, .ok entry)

/-- What a restore answers, and what it leaves. -/
structure Restoring where
  entry : TrashEntry
  restoredPath : Text
  state : Trashed

def restoreTrash (state : Trashed) (id : Text) (destination : Option Text) : Except Failure Restoring := do
  let entry ← requireTrash state.trash id
  let restoredPath := destination.getD entry.originalPath
  refuse (inTrash restoredPath) (.http 400 "INVALID_ARGUMENT" "Cannot restore into the trash namespace")
  let volume ← AgentFS.rename state.volume entry.trashPath restoredPath
  return ⟨entry, restoredPath, volume, state.trash.erase id⟩

def undoTrash (state : Trashed) : Except Failure Restoring := do
  let entry ← required (listTrash state.trash).head? (.http 404 "TRASH_EMPTY" "Trash is empty")
  restoreTrash state entry.id none

/-! ## The list -/

variable {trash : TrashTable} {entry : TrashEntry} {id : Text}

theorem mem_listTrash : entry ∈ listTrash trash ↔ entry ∈ trash.rows := List.mem_insertionSort _

/-- A row is found by its id wherever it is listed. -/
theorem find_listTrash (trash : TrashTable) (id : Text) :
    ((listTrash trash).find? fun candidate => candidate.id = id) = trash.find? id := by
  apply Option.ext
  intro entry
  rw [trash.find?_eq_some_iff]
  constructor
  · intro found
    exact ⟨mem_listTrash.mp (List.mem_of_find?_eq_some found), by simpa using List.find?_some found⟩
  · rintro ⟨listed, rfl⟩
    cases found : (listTrash trash).find? fun candidate => candidate.id = entry.id with
    | none => simpa using List.find?_eq_none.mp found entry (mem_listTrash.mpr listed)
    | some other =>
      have named : other.id = entry.id := by simpa using List.find?_some found
      rw [trash.eq_of_key (mem_listTrash.mp (List.mem_of_find?_eq_some found)) listed named]

theorem requireTrash_eq_ok : requireTrash trash id = .ok entry ↔ trash.find? id = some entry := by
  rw [requireTrash, required_eq_ok, find_listTrash]

theorem moveToTrash_eq_ok {state after : Trashed} {path : Text} (moved : moveToTrash state path id = (after, .ok entry)) :
    inTrash path = false ∧ ∃ stats made volume, AgentFS.stat state.volume path = .ok stats ∧ makeRoot state.volume = .ok made ∧
      AgentFS.rename made path (trashPathOf id) = .ok volume ∧
      entry = ⟨id, path, trashPathOf id, typeOf stats, stats.size, state.volume.now⟩ ∧
      after.volume = volume ∧ state.trash.find? id = none ∧ after.trash.rows = state.trash.rows ++ [entry] := by
  unfold moveToTrash at moved
  split at moved
  · cases (Prod.mk.inj moved).2
  · rename_i passed
    rw [not_or, Bool.not_eq_true] at passed
    dsimp only at moved
    split at moved
    · cases (Prod.mk.inj moved).2
    · rename_i stats known
      split at moved
      · cases (Prod.mk.inj moved).2
      · rename_i made ready
        split at moved
        · cases (Prod.mk.inj moved).2
        · rename_i volume renamed
          split at moved
          · cases (Prod.mk.inj moved).2
          · split at moved
            · cases (Prod.mk.inj moved).2
            · rename_i trash inserted
              obtain ⟨rfl, same⟩ := Prod.mk.inj moved
              obtain rfl := Except.ok.inj same
              exact ⟨passed.2, stats, made, volume, known, ready, renamed, rfl, rfl, state.trash.insert?_eq_some_iff.mp inserted⟩

/-- A walk follows the entries. -/
theorem walk_eq_follow (volume : Volume) (start : Int) (place : List Text) :
    AgentFS.walk volume start place = Relinking.follow volume.child start place := by
  induction place generalizing start with
  | nil => rfl
  | cons name rest ih =>
    rw [Volume.walk_cons, Relinking.follow_cons]
    congr 1
    funext next
    exact ih next

end Trash

end AiryFS
