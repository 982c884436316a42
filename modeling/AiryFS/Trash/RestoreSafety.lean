import AiryFS.Direct.Renaming
import AiryFS.Files.DirectoryTree
import AiryFS.Trash.Trash

/-! What a restore does to the volume around it.

A restore is a rename out of the trash. It loses something exactly when the rename finds something to
replace, when the destination is the trashed entry itself or below it, or when a second path leads to one of
the two directories.
-/

set_option autoImplicit false

namespace AiryFS

open Foundation

namespace Trash

/-- The requests that restore. -/
inductive RestoreRequest where
  | restore (id : Text) (destination : Option Text)
  | undo
  deriving DecidableEq, Repr

def RestoreRequest.respond (state : Trashed) : RestoreRequest → Except Failure Restoring
  | .restore id destination => restoreTrash state id destination
  | .undo => undoTrash state

/-- A request that fails leaves what it found. -/
def RestoreRequest.handle (state : Trashed) (request : RestoreRequest) : Trashed :=
  match request.respond state with
  | .ok done => done.state
  | .error _ => state

/-- The entry was brought to a path that did not exist, and nothing else has changed but times. -/
structure Restored (before after : Trashed) (entry : TrashEntry) (restoredPath : Text) : Prop where
  held : ∃ ino, AgentFS.resolvePath before.volume entry.trashPath = some ino
  free : AgentFS.resolvePath before.volume restoredPath = none
  carried : Relinking.Carried before.volume.child after.volume.child ROOT_INO (fields '/' entry.trashPath) (fields '/' restoredPath)
  nodes : ∀ ino, Volume.SameNode ino before.volume after.volume
  row : after.trash.rows = before.trash.rows.filter fun row => row.id ≠ entry.id

/-- The request fails and changes nothing, or it restores an entry. -/
def Harmless (state : Trashed) (request : RestoreRequest) : Prop :=
  (∃ failure, request.respond state = .error failure ∧ request.handle state = state) ∨
    ∃ done, request.respond state = .ok done ∧ Restored state done.state done.entry done.restoredPath

/-- The row that a request names, and where it is to go. -/
def RestoreRequest.chosen (state : Trashed) : RestoreRequest → Option (TrashEntry × Text)
  | .restore id destination => (state.trash.find? id).map fun entry => (entry, destination.getD entry.originalPath)
  | .undo => (listTrash state.trash).head?.map fun entry => (entry, entry.originalPath)

/-- The two paths are spelled differently, and where the rename gets as far as the destination, something there refuses it,
or nothing is there and the two directories are led to once and not from what is moved. -/
structure Clear (volume : Volume) (trashPath restoredPath : Text) : Prop where
  different : AgentFS.normalizePath trashPath ≠ AgentFS.normalizePath restoredPath
  refused : ∀ {parent name newParent newName ino mode destination},
    AgentFS.Attempts volume trashPath restoredPath parent name newParent newName ino mode →
    volume.child newParent newName = some destination → AgentFS.Refuses volume destination mode
  alone : ∀ {parent name newParent newName ino mode},
    AgentFS.Attempts volume trashPath restoredPath parent name newParent newName ino mode → volume.child newParent newName = none →
    Relinking.Alone volume.child ROOT_INO (fields '/' trashPath).dropLast (fields '/' restoredPath).dropLast parent newParent ino

variable {state : Trashed} {request : RestoreRequest} {entry : TrashEntry} {restoredPath : Text} {done : Restoring}

theorem restoreTrash_eq_ok {id : Text} {destination : Option Text} : restoreTrash state id destination = .ok done ↔
    ∃ volume, state.trash.find? id = some done.entry ∧ done.restoredPath = destination.getD done.entry.originalPath ∧
      inTrash done.restoredPath = false ∧ AgentFS.rename state.volume done.entry.trashPath done.restoredPath = .ok volume ∧
      done.state = ⟨volume, state.trash.erase id⟩ := by
  constructor
  · intro restored
    obtain ⟨entry, found, restored⟩ := bind_eq_ok.mp restored
    obtain ⟨_, outside, restored⟩ := bind_eq_ok.mp restored
    obtain ⟨volume, renamed, returned⟩ := bind_eq_ok.mp restored
    rw [refuse_eq_ok, Bool.not_eq_true] at outside
    rw [← pure_eq_ok.mp returned]
    exact ⟨volume, requireTrash_eq_ok.mp found, rfl, outside, renamed, rfl⟩
  · rintro ⟨volume, found, path, outside, renamed, after⟩
    unfold restoreTrash
    rw [requireTrash_eq_ok.mpr found, ok_bind, ← path]
    dsimp only
    rw [refuse_of_not (by rw [outside]; simp), ok_bind, renamed, ok_bind, ← after]
    rfl

/-- What a request that succeeds has done. -/
theorem respond_eq_ok : request.respond state = .ok done ↔
    ∃ volume, request.chosen state = some (done.entry, done.restoredPath) ∧ inTrash done.restoredPath = false ∧
      AgentFS.rename state.volume done.entry.trashPath done.restoredPath = .ok volume ∧
      done.state = ⟨volume, state.trash.erase done.entry.id⟩ := by
  cases request with
  | restore id destination =>
    unfold RestoreRequest.respond RestoreRequest.chosen
    rw [restoreTrash_eq_ok]
    refine exists_congr fun volume => ?_
    rw [Option.map_eq_some_iff]
    constructor
    · rintro ⟨found, path, outside, renamed, after⟩
      rw [state.trash.find?_key found]
      exact ⟨⟨_, found, by rw [path]⟩, outside, renamed, after⟩
    · rintro ⟨⟨entry, found, same⟩, outside, renamed, after⟩
      obtain ⟨rfl, path⟩ := Prod.mk.inj same
      rw [state.trash.find?_key found] at after
      exact ⟨found, path.symm, outside, renamed, after⟩
  | undo =>
    unfold RestoreRequest.respond RestoreRequest.chosen undoTrash
    rw [bind_eq_ok]
    constructor
    · rintro ⟨first, listed, restored⟩
      rw [required_eq_ok] at listed
      obtain ⟨volume, found, path, outside, renamed, after⟩ := restoreTrash_eq_ok.mp restored
      have known := state.trash.find?_of_mem (mem_listTrash.mp (List.mem_of_mem_head? listed))
      obtain rfl := Option.some.inj (known.symm.trans found)
      exact ⟨volume, by rw [listed, Option.map_some, path]; rfl, outside, renamed, after⟩
    · rintro ⟨volume, picked, outside, renamed, after⟩
      rw [Option.map_eq_some_iff] at picked
      obtain ⟨first, listed, same⟩ := picked
      obtain ⟨rfl, path⟩ := Prod.mk.inj same
      have known := state.trash.find?_of_mem (mem_listTrash.mp (List.mem_of_mem_head? listed))
      exact ⟨_, required_eq_ok.mpr listed, restoreTrash_eq_ok.mpr ⟨volume, known, path.symm, outside, renamed, after⟩⟩

/-- A request whose rename succeeds is harmless only by restoring. -/
theorem Harmless.restored (harmless : Harmless state request) (picked : request.chosen state = some (entry, restoredPath))
    (outside : inTrash restoredPath = false) {volume : Volume}
    (renamed : AgentFS.rename state.volume entry.trashPath restoredPath = .ok volume) :
    Restored state ⟨volume, state.trash.erase entry.id⟩ entry restoredPath := by
  have responded : request.respond state = .ok ⟨entry, restoredPath, ⟨volume, state.trash.erase entry.id⟩⟩ :=
    respond_eq_ok.mpr ⟨volume, picked, outside, renamed, rfl⟩
  rcases harmless with ⟨failure, failed, -⟩ | ⟨done, succeeded, restored⟩
  · exact absurd (failed.symm.trans responded) (by simp)
  · obtain rfl := Except.ok.inj (succeeded.symm.trans responded)
    exact restored

section

variable {volume after : Volume} {trashPath name newName : Text} {parent newParent ino mode : Int}

/-- An attempt that finds nothing at the destination is a move in the graph of entries. -/
theorem move_of_attempts (attempts : AgentFS.Attempts volume trashPath restoredPath parent name newParent newName ino mode)
    (free : volume.child newParent newName = none) :
    (fields '/' trashPath = (fields '/' trashPath).dropLast ++ [name] ∧
      fields '/' restoredPath = (fields '/' restoredPath).dropLast ++ [newName]) ∧
    Relinking.Move volume.child ROOT_INO (fields '/' trashPath).dropLast name (fields '/' restoredPath).dropLast newName
      parent newParent ino := by
  obtain ⟨parts, spelled, reached⟩ := AgentFS.resolveParent_eq_some.mp attempts.source
  obtain ⟨newParts, newSpelled, newReached⟩ := AgentFS.resolveParent_eq_some.mp attempts.target
  rw [walk_eq_follow] at reached newReached
  rw [spelled, newSpelled, List.dropLast_concat, List.dropLast_concat]
  exact ⟨⟨rfl, rfl⟩, reached, newReached, attempts.held, free⟩

/-- The rename then relinks the entry. -/
theorem child_renamed (attempts : AgentFS.Attempts volume trashPath restoredPath parent name newParent newName ino mode)
    (free : volume.child newParent newName = none) (renamed : AgentFS.rename volume trashPath restoredPath = .ok after) :
    after.child = Relinking.relink volume.child parent name newParent newName ino ∧ ∀ other, Volume.SameNode other volume after := by
  obtain ⟨number, held, -, moves⟩ := AgentFS.rename_moves renamed attempts.source attempts.target
    (move_of_attempts attempts free).2.apart
  obtain rfl := Option.some.inj (held.symm.trans attempts.held)
  refine ⟨?_, fun other => moves.nodes other (by rw [free]; simp)⟩
  funext other label
  exact moves.children other label

end

theorem Restored.of_clear (clear : Clear state.volume entry.trashPath restoredPath) {volume : Volume}
    (renamed : AgentFS.rename state.volume entry.trashPath restoredPath = .ok volume) :
    Restored state ⟨volume, state.trash.erase entry.id⟩ entry restoredPath := by
  obtain ⟨parent, name, newParent, newName, ino, mode, attempts, -⟩ := AgentFS.rename_attempts clear.different renamed
  have free : state.volume.child newParent newName = none := by
    cases taken : state.volume.child newParent newName with
    | none => rfl
    | some destination => exact absurd renamed (attempts.refused taken (clear.refused attempts taken) clear.different volume)
  obtain ⟨⟨spelled, newSpelled⟩, move⟩ := move_of_attempts attempts free
  obtain ⟨relinked, nodes⟩ := child_renamed attempts free renamed
  refine ⟨⟨ino, ?_⟩, ?_, ?_, nodes, ?_⟩
  · rw [AgentFS.resolvePath_of_parent attempts.source]
    exact attempts.held
  · rw [AgentFS.resolvePath_of_parent attempts.target]
    exact free
  · rw [relinked, spelled, newSpelled]
    exact move.carried_of_alone (clear.alone attempts free)
  · simp [Table.erase, Table.deleteWhere]

theorem Harmless.clear (harmless : Harmless state request) (picked : request.chosen state = some (entry, restoredPath))
    (outside : inTrash restoredPath = false) : Clear state.volume entry.trashPath restoredPath where
  different := by
    intro same
    have renamed : AgentFS.rename state.volume entry.trashPath restoredPath = .ok state.volume := by
      unfold AgentFS.rename
      dsimp only
      rw [if_pos same]
      rfl
    have restored := harmless.restored picked outside renamed
    obtain ⟨ino, held⟩ := restored.held
    have free := restored.free
    rw [← AgentFS.resolvePath_normalizePath, ← same, AgentFS.resolvePath_normalizePath, held] at free
    cases free
  refused := by
    intro parent name newParent newName ino mode destination attempts taken
    by_contra open_
    obtain ⟨volume, renamed⟩ := attempts.replaces taken open_
    have free := (harmless.restored picked outside renamed).free
    rw [← AgentFS.resolvePath_normalizePath, attempts.destination, taken] at free
    cases free
  alone := by
    intro parent name newParent newName ino mode attempts free
    obtain ⟨volume, renamed⟩ := attempts.renames_free free
    have carried := (harmless.restored picked outside renamed).carried
    obtain ⟨⟨spelled, newSpelled⟩, move⟩ := move_of_attempts attempts free
    obtain ⟨relinked, -⟩ := child_renamed attempts free renamed
    rw [relinked, spelled, newSpelled] at carried
    exact move.alone_of_carried carried

/-- A restore or an undo is harmless exactly when what it names is clear to be moved, or it does not get to the rename. -/
theorem restore_harmless_iff (state : Trashed) (request : RestoreRequest) : Harmless state request ↔
    ∀ entry restoredPath, request.chosen state = some (entry, restoredPath) → inTrash restoredPath = false →
      Clear state.volume entry.trashPath restoredPath := by
  constructor
  · exact fun harmless entry restoredPath picked outside => harmless.clear picked outside
  · intro clear
    cases responded : request.respond state with
    | error failure =>
      refine .inl ⟨failure, responded, ?_⟩
      unfold RestoreRequest.handle
      rw [responded]
    | ok done =>
      obtain ⟨volume, picked, outside, renamed, after⟩ := respond_eq_ok.mp responded
      refine .inr ⟨done, responded, ?_⟩
      rw [after]
      exact .of_clear (clear _ _ picked outside) renamed

/-- A file was deleted, and another written in its place. -/
def replacedSample : Trashed where
  volume := { Volume.fresh 0 with
    inode := ⟨[InodeRow.root 0, { InodeRow.create 16877 0 0 0 with ino := 2, nlink := 1 },
      { InodeRow.create 33188 0 0 0 with ino := 3, nlink := 1 }, { InodeRow.create 33188 0 0 0 with ino := 4, nlink := 1, size := 1 }],
      by decide⟩
    dentry := ⟨[⟨".airyfs-trash".toList, 1, 2⟩, ⟨"u".toList, 2, 3⟩, ⟨"f".toList, 1, 4⟩], by decide⟩
    data := ⟨[⟨4, 0, [7]⟩], List.nodup_singleton _⟩
    inodeSequence := 4 }
  trash := ⟨[⟨"u".toList, "/f".toList, "/.airyfs-trash/u".toList, .file, 0, 0⟩], List.nodup_singleton _⟩

theorem undo_replaces : ¬Harmless replacedSample .undo := by
  rintro (⟨failure, failed, -⟩ | ⟨done, responded, restored⟩)
  · have succeeds : (RestoreRequest.undo.respond replacedSample).toOption.isSome = true := by decide +kernel
    rw [failed] at succeeds
    cases succeeds
  · obtain ⟨-, picked, -⟩ := respond_eq_ok.mp responded
    have path : (RestoreRequest.undo.chosen replacedSample).map Prod.snd = some "/f".toList := by decide +kernel
    rw [picked, Option.map_some, Option.some.injEq] at path
    have there : AgentFS.resolvePath replacedSample.volume done.restoredPath ≠ none := by
      rw [show done.restoredPath = "/f".toList from path]
      decide +kernel
    exact there restored.free

end Trash

end AiryFS
