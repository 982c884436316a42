import AiryFS.Trash.RestoreSafety

/-! Soft deletes, and the undos that follow them.

A delete hangs an entry below the trash directory, the undo of the last delete hangs it where it was. The
table is asked for the latest row, which is that of the last delete as long as the keys of the rows ascend.
-/

set_option autoImplicit false

namespace AiryFS

open Foundation Relinking

namespace Trash

/-- A soft delete: its path, the id that `crypto.randomUUID` gives it, and the clock it reads. -/
structure Delete where
  path : Text
  id : Text
  clock : Int
  plain : id ≠ [] ∧ '/' ∉ id

def Trashed.at (state : Trashed) (clock : Int) : Trashed := { state with volume := { state.volume with clock } }

def delete (state : Trashed) (request : Delete) : Except Failure Trashed :=
  match moveToTrash (state.at request.clock) request.path request.id with
  | (after, .ok _) => .ok after
  | (_, .error failure) => .error failure

def deleteAll (state : Trashed) (requests : List Delete) : Except Failure Trashed := requests.foldlM delete state

/-- Undos at these clocks: what each restores, and the last state. -/
def undoAll : Trashed → List Int → Except Failure (List Restoring × Trashed)
  | state, [] => .ok ([], state)
  | state, clock :: clocks => do
    let done ← undoTrash (state.at clock)
    let (later, after) ← undoAll done.state clocks
    return (done :: later, after)

/-- The path of the trash. -/
def bin : List Text := [".airyfs-trash".toList]

/-- Outside of the trash every path leads where it led, to what was there, and the rows are the same. -/
structure Same (before after : Trashed) : Prop where
  visible : ∀ place, ¬bin <+: place → AgentFS.walk after.volume ROOT_INO place = AgentFS.walk before.volume ROOT_INO place
  nodes : ∀ ino ≤ before.volume.inodeSequence, Volume.SameNode ino before.volume after.volume
  trash : after.trash.rows = before.trash.rows

/-- Undos take the deletes back, the last one first: after each, the state is the one before that delete. -/
def LastInFirstOut (origin state : Trashed) (requests : List Delete) : Prop :=
  ∀ kept gone clocks, requests = kept ++ gone → clocks.length = gone.length →
    ∃ undone after middle, undoAll state clocks = .ok (undone, after) ∧
      undone.map (fun done => (done.entry.id, done.restoredPath)) = (gone.map fun request => (request.id, request.path)).reverse ∧
      deleteAll origin kept = .ok middle ∧ Same middle after

/-- The second and the id, as the table orders them. -/
def Earlier (first second : Int × Text) : Prop :=
  first.1 < second.1 ∨ first.1 = second.1 ∧ first.2.map Char.toNat < second.2.map Char.toNat

def TrashEntry.key (entry : TrashEntry) : Int × Text := (entry.deletedAt, entry.id)

def Delete.key (request : Delete) : Int × Text := (request.clock / 1000, request.id)

/-- Every key is later than all the keys before it. -/
def Rising (rows : List TrashEntry) (requests : List Delete) : Prop :=
  (∀ row ∈ rows, ∀ request ∈ requests, Earlier row.key request.key) ∧
    requests.Pairwise fun first second => Earlier first.key second.key

/-- What is asked of the volume: nothing leads back to where it has been, and one path leads to the trash. -/
structure Ordinary (volume : Volume) : Prop where
  returnless : Returnless volume.child ROOT_INO
  sole : ∀ ino, AgentFS.resolvePath volume TRASH_ROOT = some ino → Solely volume.child ROOT_INO bin ino
  numbered : volume.Numbered
  rooted : ROOT_INO ≤ volume.inodeSequence

/-! ## The path of the trash -/

theorem fields_root : fields '/' TRASH_ROOT = bin := by decide +kernel

theorem fields_trashPathOf {id : Text} (plain : id ≠ [] ∧ '/' ∉ id) : fields '/' (trashPathOf id) = bin ++ [id] := by
  have single : fields '/' id = [id] := by
    have whole := @fields_intercalate _ _ '/' [id] (by rintro piece listed; rw [List.mem_singleton.mp listed]; exact plain)
    simpa using whole
  rw [trashPathOf, List.append_assoc, List.singleton_append, fields_append_sep, fields_root, single]

theorem under_bin {parts : List Text} {name : Text} : parts ++ [name] <+: bin ↔ parts ++ [name] = bin := by
  refine ⟨?_, fun same => same ▸ List.prefix_rfl⟩
  intro within
  exact within.eq_of_length_le (by simp [bin])

/-! ## The trash directory -/

/-- The trash directory is there, and nothing else has changed. -/
structure Readied (volume made : Volume) (trash : Int) : Prop where
  returnless : Returnless made.child ROOT_INO
  sole : Solely made.child ROOT_INO bin trash
  numbered : made.Numbered
  rooted : ROOT_INO ≤ made.inodeSequence
  visible : ∀ place, ¬bin <+: place → AgentFS.walk made ROOT_INO place = AgentFS.walk volume ROOT_INO place
  nodes : ∀ ino ≤ volume.inodeSequence, Volume.SameNode ino volume made
  sequence : volume.inodeSequence ≤ made.inodeSequence
  fresh : ∀ id, AgentFS.walk volume ROOT_INO (bin ++ [id]) = none → made.child trash id = none

variable {volume made : Volume} {trash : Int} {id : Text}

theorem resolve_root (volume : Volume) : AgentFS.resolvePath volume TRASH_ROOT = follow volume.child ROOT_INO bin := by
  rw [AgentFS.resolvePath_eq, fields_root, walk_eq_follow]

theorem Ordinary.readied (ordinary : Ordinary volume) (there : AgentFS.resolvePath volume TRASH_ROOT = some trash) :
    Readied volume volume trash where
  returnless := ordinary.returnless
  sole := ordinary.sole trash there
  numbered := ordinary.numbered
  rooted := ordinary.rooted
  visible _ _ := rfl
  nodes ino _ := .refl ino volume
  sequence := Int.le_refl _
  fresh id absent := by
    rw [walk_eq_follow, follow_concat, (ordinary.sole trash there).here] at absent
    exact absent

/-- A new directory has nothing below it. -/
theorem Ordinary.created (ordinary : Ordinary volume) (adds : Volume.Adds trash ROOT_INO ".airyfs-trash".toList volume made) :
    Readied volume made trash := by
  have above : ∀ path, AgentFS.walk volume ROOT_INO path = some ROOT_INO → path = [] := by
    intro path reached
    rw [walk_eq_follow] at reached
    exact ordinary.returnless [] path ROOT_INO rfl reached
  have walks : ∀ path, AgentFS.walk made ROOT_INO path = if path = bin then some trash else AgentFS.walk volume ROOT_INO path :=
    fun path => adds.walks_of_only ordinary.numbered rfl above ordinary.rooted path
  have old : ∀ {path}, AgentFS.walk volume ROOT_INO path ≠ some trash := by
    intro path reached
    have known := ordinary.numbered.walk_le ordinary.rooted reached
    have fresh := adds.fresh
    omega
  have sole : Solely made.child ROOT_INO bin trash := by
    constructor
    · rw [← walk_eq_follow, walks, if_pos rfl]
    · intro other reached
      rw [← walk_eq_follow, walks] at reached
      by_contra different
      rw [if_neg different] at reached
      exact old reached
  refine ⟨?_, sole, adds.numbered ordinary.numbered ordinary.rooted, ?_, ?_, ?_, ?_, ?_⟩
  · intro front rest here reached around
    have whole : AgentFS.walk made ROOT_INO (front ++ rest) = some here := by
      rw [walk_eq_follow, follow_append, reached]
      exact around
    have first : AgentFS.walk made ROOT_INO front = some here := by
      rw [walk_eq_follow]
      exact reached
    rw [walks] at whole first
    split at whole
    · -- The new directory itself.
      obtain rfl := Option.some.inj whole
      split at first
      · rename_i all same
        rw [same] at all
        simpa using all
      · exact absurd first old
    · split at first
      · obtain rfl := Option.some.inj first
        exact absurd whole old
      · rw [AgentFS.walk_append, first, Option.bind_some, walk_eq_follow] at whole
        rw [walk_eq_follow] at first
        exact ordinary.returnless front rest here first whole
  · rw [adds.sequence, adds.fresh]
    have rooted := ordinary.rooted
    omega
  · intro place outside
    rw [walks, if_neg]
    rintro rfl
    exact outside List.prefix_rfl
  · intro ino known
    have different : ino ≠ trash := by
      have fresh := adds.fresh
      omega
    exact ⟨by rw [adds.inodes ino different], adds.chunks ino different, adds.symlinks ino different⟩
  · rw [adds.sequence, adds.fresh]
    omega
  · intro id absent
    have below := walks (bin ++ [id])
    rw [if_neg (by simp [bin]), absent, walk_eq_follow, follow_concat, sole.here] at below
    exact below

theorem Ordinary.makeRoot (ordinary : Ordinary volume) (ready : makeRoot volume = .ok made) : ∃ trash, Readied volume made trash := by
  unfold Trash.makeRoot at ready
  have parent : AgentFS.resolveParent volume TRASH_ROOT = some (ROOT_INO, ".airyfs-trash".toList) :=
    AgentFS.resolveParent_eq_some.mpr ⟨[], fields_root, rfl⟩
  split at ready
  · rename_i volume' done
    obtain rfl := Except.ok.inj ready
    obtain ⟨parentIno, name, ino, above, adds, -⟩ := @AgentFS.mkdir_adds _ _ 1 _ done
    obtain ⟨rfl, rfl⟩ := Prod.mk.inj (Option.some.inj (parent.symm.trans above))
    exact ⟨ino, ordinary.created adds⟩
  · rename_i error failed
    split at ready
    · rename_i taken
      obtain rfl := Except.ok.inj ready
      obtain ⟨code, syscall, place, message⟩ := error
      obtain rfl : code = .EEXIST := taken
      obtain ⟨ino, there⟩ := AgentFS.mkdir_exists failed
      exact ⟨ino, ordinary.readied there⟩
    · cases ready
  · cases ready

/-- A trash directory that is there stays as it is. -/
theorem makeRoot_there {ino : Int} (there : AgentFS.resolvePath volume TRASH_ROOT = some ino) (ready : makeRoot volume = .ok made) :
    made = volume := by
  unfold makeRoot at ready
  split at ready
  · rename_i done
    obtain ⟨missing, -⟩ := AgentFS.mkdir_parent done (AgentFS.resolveParent_eq_some.mpr ⟨[], fields_root, rfl⟩)
    exact absurd (there.symm.trans missing) (by simp)
  · split at ready
    · exact (Except.ok.inj ready).symm
    · cases ready
  · cases ready

@[simp] theorem walk_at (state : Trashed) (clock : Int) : AgentFS.walk (state.at clock).volume = AgentFS.walk state.volume :=
  AgentFS.walk_congr rfl

@[simp] theorem resolvePath_at (state : Trashed) (clock : Int) (path : Text) :
    AgentFS.resolvePath (state.at clock).volume path = AgentFS.resolvePath state.volume path := by
  rw [AgentFS.resolvePath_eq, walk_at, AgentFS.resolvePath_eq]

theorem Ordinary.at {state : Trashed} (ordinary : Ordinary state.volume) (clock : Int) : Ordinary (state.at clock).volume where
  returnless := ordinary.returnless
  sole ino there := ordinary.sole ino (by rw [← resolvePath_at state clock]; exact there)
  numbered := ⟨ordinary.numbered.entries, ordinary.numbered.inodes, ordinary.numbered.chunks, ordinary.numbered.symlinks⟩
  rooted := ordinary.rooted

theorem Readied.of_at {state : Trashed} {clock : Int} (readied : Readied (state.at clock).volume made trash) :
    Readied state.volume made trash where
  returnless := readied.returnless
  sole := readied.sole
  numbered := readied.numbered
  rooted := readied.rooted
  visible place outside := by rw [readied.visible place outside, walk_at]
  nodes ino known := ⟨(readied.nodes ino known).row, (readied.nodes ino known).chunks, (readied.nodes ino known).symlink⟩
  sequence := readied.sequence
  fresh id absent := readied.fresh id (by rw [walk_at]; exact absent)

/-! ## One delete -/

/-- The entry at the path now hangs below the trash directory. -/
structure Thrown (made : Volume) (trash : Int) (entry : TrashEntry) (parts : List Text) (name : Text) (parent node : Int) (after : Volume) :
    Prop where
  spelled : fields '/' entry.originalPath = parts ++ [name]
  placed : entry.trashPath = trashPathOf entry.id
  plain : entry.id ≠ [] ∧ '/' ∉ entry.id
  outside : inTrash entry.originalPath = false
  move : Move made.child ROOT_INO parts name bin entry.id parent trash node
  present : made.inode? node ≠ none
  child : after.child = relink made.child parent name trash entry.id node
  nodes : ∀ ino, Volume.SameNode ino made after
  numbered : after.Numbered
  sequence : after.inodeSequence = made.inodeSequence

variable {state after : Trashed} {request : Delete} {entry : TrashEntry} {moved : Volume}

theorem thrown_of_rename (readied : Readied volume made trash) (plain : entry.id ≠ [] ∧ '/' ∉ entry.id)
    (placed : entry.trashPath = trashPathOf entry.id) (outside : inTrash entry.originalPath = false)
    (free : made.child trash entry.id = none) (held : ∃ ino, AgentFS.resolvePath made entry.originalPath = some ino)
    (renamed : AgentFS.rename made entry.originalPath (trashPathOf entry.id) = .ok moved) :
    ∃ parts name parent node, Thrown made trash entry parts name parent node moved := by
  have above : AgentFS.resolveParent made (trashPathOf entry.id) = some (trash, entry.id) := by
    refine AgentFS.resolveParent_eq_some.mpr ⟨bin, fields_trashPathOf plain, ?_⟩
    rw [walk_eq_follow]
    exact readied.sole.here
  have different : AgentFS.normalizePath entry.originalPath ≠ AgentFS.normalizePath (trashPathOf entry.id) := by
    intro same
    obtain ⟨ino, held⟩ := held
    rw [← AgentFS.resolvePath_normalizePath, same, AgentFS.resolvePath_normalizePath, AgentFS.resolvePath_of_parent above] at held
    exact absurd (held.symm.trans free) (by simp)
  obtain ⟨parent, name, trash', id', node, mode, attempts, -⟩ := AgentFS.rename_attempts different renamed
  obtain ⟨rfl, rfl⟩ := Prod.mk.inj (Option.some.inj (attempts.target.symm.trans above))
  obtain ⟨⟨spelled, -⟩, move⟩ := move_of_attempts attempts free
  rw [fields_trashPathOf plain, List.dropLast_concat] at move
  obtain ⟨number, led, present, moves⟩ := AgentFS.rename_moves renamed attempts.source attempts.target move.apart
  obtain rfl := Option.some.inj (led.symm.trans attempts.held)
  obtain ⟨relinked, nodes⟩ := child_renamed attempts free renamed
  exact ⟨_, name, parent, number, spelled, placed, plain, outside, move, present, relinked, nodes,
    moves.numbered readied.rooted readied.numbered, moves.sequence⟩

/-- The row that a delete writes. -/
def Records (request : Delete) (entry : TrashEntry) : Prop :=
  entry.id = request.id ∧ entry.originalPath = request.path ∧ entry.key = request.key

/-- The id names nothing in the trash directory, or a row that there is; a delete with such an id fails. -/
def Unguessed (state : Trashed) (id : Text) : Prop :=
  AgentFS.walk state.volume ROOT_INO (bin ++ [id]) = none ∨ ∃ row, state.trash.find? id = some row

theorem delete_thrown (ordinary : Ordinary state.volume) (unguessed : Unguessed state request.id)
    (deleted : delete state request = .ok after) :
    ∃ made trash entry parts name parent node, makeRoot (state.at request.clock).volume = .ok made ∧
      Readied state.volume made trash ∧ Thrown made trash entry parts name parent node after.volume ∧
      Records request entry ∧ state.trash.find? request.id = none ∧ after.trash.rows = state.trash.rows ++ [entry] := by
  unfold delete at deleted
  split at deleted
  · rename_i after' entry moved
    obtain rfl := Except.ok.inj deleted
    obtain ⟨outside, stats, made, volume, known, ready, renamed, rfl, rfl, unused, rows⟩ := moveToTrash_eq_ok moved
    obtain ⟨trash, readied⟩ := (ordinary.at request.clock).makeRoot ready
    have readied := readied.of_at
    have free : made.child trash request.id = none := by
      refine readied.fresh request.id (unguessed.resolve_right ?_)
      rintro ⟨row, used⟩
      exact absurd (used.symm.trans unused) (by simp)
    have held : ∃ ino, AgentFS.resolvePath made request.path = some ino := by
      obtain ⟨⟨_, ino⟩, resolved, -⟩ := bind_eq_ok.mp known
      have reached := (AgentFS.resolvePathOrThrow_ok resolved).2
      refine ⟨ino, ?_⟩
      by_cases within : bin <+: fields '/' request.path
      · -- What is found in the trash is there already, and so is the trash.
        have there : ∃ here, AgentFS.resolvePath (state.at request.clock).volume TRASH_ROOT = some here := by
          rw [resolve_root]
          rw [AgentFS.resolvePath_eq, walk_eq_follow] at reached
          exact follow_isSome_of_prefix within reached
        obtain ⟨here, there⟩ := there
        rw [makeRoot_there there ready]
        exact reached
      · rw [resolvePath_at, AgentFS.resolvePath_eq] at reached
        rw [AgentFS.resolvePath_eq, readied.visible _ within]
        exact reached
    have thrown : ∃ parts name parent node, Thrown made trash
        ⟨request.id, request.path, trashPathOf request.id, typeOf stats, stats.size, (state.at request.clock).volume.now⟩
        parts name parent node _ := thrown_of_rename readied request.plain rfl outside free held renamed
    obtain ⟨parts, name, parent, node, thrown⟩ := thrown
    exact ⟨made, trash, _, parts, name, parent, node, ready, readied, thrown, ⟨rfl, rfl, rfl⟩, unused, rows⟩
  · cases deleted

theorem Thrown.reached {parts : List Text} {name : Text} {parent node : Int}
    (thrown : Thrown made trash entry parts name parent node after.volume) (sole : Solely made.child ROOT_INO bin trash)
    (same : parts ++ [name] = bin) : node = trash := by
  have here := thrown.move.reached
  rw [same, sole.here] at here
  exact (Option.some.inj here).symm

/-- The trash directory itself was deleted: it hangs below itself, and nothing is at its path. -/
theorem Thrown.lost {parts : List Text} {name : Text} {parent node : Int}
    (thrown : Thrown made trash entry parts name parent node after.volume) (readied : Readied volume made trash)
    (same : parts ++ [name] = bin) :
    Returnless after.volume.child ROOT_INO ∧ follow after.volume.child ROOT_INO bin = none := by
  obtain rfl := thrown.reached readied.sole same
  have move := thrown.move
  have sole := readied.sole
  rw [← same] at move sole
  rw [thrown.child, ← same]
  exact ⟨move.lost_returnless readied.returnless sole, move.lost_absent sole⟩

/-- Anything else was. -/
theorem Thrown.kept {parts : List Text} {name : Text} {parent node : Int}
    (thrown : Thrown made trash entry parts name parent node after.volume) (returnless : Returnless made.child ROOT_INO)
    (sole : Solely made.child ROOT_INO bin trash) (beside : parts ++ [name] ≠ bin) :
    Returnless after.volume.child ROOT_INO ∧ Solely after.volume.child ROOT_INO bin trash := by
  have below := thrown.move.below sole (fun within => beside (under_bin.mp within))
  rw [thrown.child]
  exact ⟨thrown.move.returnless returnless below, thrown.move.solely sole below⟩

/-- A delete keeps what is asked of the volume, and guesses no id. -/
theorem delete_ordinary (ordinary : Ordinary state.volume) (unguessed : Unguessed state request.id)
    (deleted : delete state request = .ok after) :
    Ordinary after.volume ∧ ∀ id, Unguessed state id → Unguessed after id := by
  obtain ⟨made, trash, entry, parts, name, parent, node, -, readied, thrown, records, -, rows⟩ :=
    delete_thrown ordinary unguessed deleted
  have rooted : ROOT_INO ≤ after.volume.inodeSequence := by
    rw [thrown.sequence]
    exact readied.rooted
  have found : ∀ {id} (row : TrashEntry), row ∈ after.trash.rows → row.id = id → ∃ row, after.trash.find? id = some row := by
    rintro _ row listed rfl
    exact ⟨row, after.trash.find?_of_mem listed⟩
  have used : ∀ {id}, (∃ row, state.trash.find? id = some row) → ∃ row, after.trash.find? id = some row := by
    rintro id ⟨row, known⟩
    refine found row ?_ (state.trash.find?_key known)
    rw [rows]
    exact List.mem_append_left _ (state.trash.find?_mem known)
  by_cases same : parts ++ [name] = bin
  · obtain ⟨returnless, absent⟩ := thrown.lost readied same
    refine ⟨⟨returnless, ?_, thrown.numbered, rooted⟩, ?_⟩
    · intro ino there
      rw [resolve_root, absent] at there
      cases there
    · intro id _
      left
      rw [walk_eq_follow, follow_concat, absent]
      rfl
  · obtain ⟨returnless, sole⟩ := thrown.kept readied.returnless readied.sole same
    refine ⟨⟨returnless, ?_, thrown.numbered, rooted⟩, ?_⟩
    · intro ino there
      rw [resolve_root, sole.here] at there
      rw [← Option.some.inj there]
      exact sole
    · rintro id (absent | known)
      · by_cases own : id = entry.id
        · right
          refine found entry ?_ own.symm
          rw [rows]
          exact List.mem_append_right _ (List.mem_singleton_self _)
        · left
          rw [walk_eq_follow, follow_concat, sole.here, Option.bind_some, thrown.child, relink, if_neg fun fresh => own fresh.2]
          split
          · rfl
          · exact readied.fresh id absent
      · exact .inr (used known)

/-! ## The stack of deletes -/

/-- An entry that was deleted from this graph. -/
structure Layer (base : Volume) (trash : Int) (current : Int → Text → Option Int) (entry : TrashEntry) (parts : List Text) (name : Text)
    (parent node : Int) : Prop where
  spelled : fields '/' entry.originalPath = parts ++ [name]
  placed : entry.trashPath = trashPathOf entry.id
  plain : entry.id ≠ [] ∧ '/' ∉ entry.id
  outside : inTrash entry.originalPath = false
  move : Move current ROOT_INO parts name bin entry.id parent trash node
  beside : parts ++ [name] ≠ bin
  returnless : Returnless current ROOT_INO
  sole : Solely current ROOT_INO bin trash
  present : base.inode? node ≠ none

/-- What the deletes have made of the graph. -/
inductive Stacked (base : Volume) (trash : Int) : List TrashEntry → (Int → Text → Option Int) → Prop where
  | base : Stacked base trash [] base.child
  | push {entries : List TrashEntry} {current : Int → Text → Option Int} {entry : TrashEntry} {parts : List Text} {name : Text}
      {parent node : Int} : Stacked base trash entries current → Layer base trash current entry parts name parent node →
      Stacked base trash (entries ++ [entry]) (relink current parent name trash entry.id node)

structure Holds (base : Volume) (rows : List TrashEntry) (trash : Int) (entries : List TrashEntry) (state : Trashed) : Prop where
  rows : state.trash.rows = rows ++ entries
  stacked : Stacked base trash entries state.volume.child
  nodes : ∀ ino, Volume.SameNode ino base state.volume
  returnless : Returnless state.volume.child ROOT_INO
  sole : Solely state.volume.child ROOT_INO bin trash
  numbered : state.volume.Numbered
  sequence : state.volume.inodeSequence = base.inodeSequence
  rooted : ROOT_INO ≤ base.inodeSequence

variable {base : Volume} {rows entries : List TrashEntry} {current other : Int → Text → Option Int}

theorem Stacked.pop (stacked : Stacked base trash (entries ++ [entry]) other) : ∃ current parts name parent node,
    Stacked base trash entries current ∧ Layer base trash current entry parts name parent node ∧
      other = relink current parent name trash entry.id node := by
  generalize all : entries ++ [entry] = whole at stacked
  cases stacked with
  | base => simp at all
  | push below layer =>
    obtain ⟨rfl, last⟩ := List.append_inj' all rfl
    obtain rfl := List.singleton_inj.mp last
    exact ⟨_, _, _, _, _, below, layer, rfl⟩

/-- The paths of the deletes determine the graph. -/
theorem Stacked.unique (stacked : Stacked base trash entries current) (again : Stacked base trash entries other) : current = other := by
  induction stacked generalizing other with
  | base =>
    generalize none_ : ([] : List TrashEntry) = whole at again
    cases again with
    | base => rfl
    | push => simp at none_
  | push below layer ih =>
    obtain ⟨current', parts', name', parent', node', below', layer', rfl⟩ := again.pop
    obtain rfl := ih below'
    obtain ⟨rfl, last⟩ := List.append_inj' (layer.spelled.symm.trans layer'.spelled) rfl
    obtain rfl := List.singleton_inj.mp last
    obtain rfl := Option.some.inj (layer.move.source.symm.trans layer'.move.source)
    obtain rfl := Option.some.inj (layer.move.held.symm.trans layer'.move.held)
    rfl

theorem Holds.ordinary (holds : Holds base rows trash entries state) : Ordinary state.volume where
  returnless := holds.returnless
  sole ino there := by
    rw [resolve_root, holds.sole.here] at there
    rw [← Option.some.inj there]
    exact holds.sole
  numbered := holds.numbered
  rooted := by
    rw [holds.sequence]
    exact holds.rooted

/-- The first delete begins a stack. -/
theorem Readied.holds (readied : Readied volume made trash) (table : TrashTable) : Holds made table.rows trash [] ⟨made, table⟩ where
  rows := (List.append_nil _).symm
  stacked := .base
  nodes ino := .refl ino made
  returnless := readied.returnless
  sole := readied.sole
  numbered := readied.numbered
  sequence := rfl
  rooted := readied.rooted

/-- A delete that does not take the trash directory adds to it. -/
theorem Holds.thrown {parts : List Text} {name : Text} {parent node : Int} (holds : Holds base rows trash entries state)
    (thrown : Thrown state.volume trash entry parts name parent node after.volume) (beside : parts ++ [name] ≠ bin)
    (written : after.trash.rows = state.trash.rows ++ [entry]) : Holds base rows trash (entries ++ [entry]) after := by
  obtain ⟨returnless, sole⟩ := thrown.kept holds.returnless holds.sole beside
  refine ⟨by rw [written, holds.rows, List.append_assoc], ?_, fun ino => (holds.nodes ino).trans (thrown.nodes ino), returnless, sole,
    thrown.numbered, thrown.sequence.trans holds.sequence, holds.rooted⟩
  rw [thrown.child]
  exact .push holds.stacked ⟨thrown.spelled, thrown.placed, thrown.plain, thrown.outside, thrown.move, beside, holds.returnless,
    holds.sole, (holds.nodes node).symm.present thrown.present⟩

/-! ## One undo -/

theorem undoTrash_ok {done : Restoring} (undone : undoTrash state = .ok done) :
    (listTrash state.trash).head? = some done.entry ∧ done.restoredPath = done.entry.originalPath ∧
      ∃ volume, AgentFS.rename state.volume done.entry.trashPath done.restoredPath = .ok volume ∧
        done.state = ⟨volume, state.trash.erase done.entry.id⟩ := by
  have responded : RestoreRequest.undo.respond state = .ok done := undone
  obtain ⟨volume, picked, -, renamed, same⟩ := respond_eq_ok.mp responded
  obtain ⟨first, listed, pair⟩ := Option.map_eq_some_iff.mp picked
  obtain ⟨rfl, path⟩ := Prod.mk.inj pair
  exact ⟨listed, path.symm, volume, renamed, same⟩

/-- A path that spells one below another is below it. -/
theorem fields_of_below {first second : Text} (within : (first ++ ['/']).isPrefixOf second = true) :
    fields '/' first <+: fields '/' second := by
  rw [List.isPrefixOf_iff_prefix] at within
  obtain ⟨rest, rfl⟩ := within
  rw [List.append_assoc, List.singleton_append, fields_append_sep]
  exact List.prefix_append _ _

/-- The undo of the last delete succeeds and takes it off the stack. -/
theorem Holds.undo (holds : Holds base rows trash (entries ++ [entry]) state) (clock : Int)
    (first : (listTrash state.trash).head? = some entry) :
    ∃ done, undoTrash (state.at clock) = .ok done ∧ done.entry = entry ∧ done.restoredPath = entry.originalPath ∧
      Holds base rows trash entries done.state := by
  obtain ⟨current, parts, name, parent, node, stacked, layer, relinked⟩ := holds.stacked.pop
  have below := layer.move.below layer.sole fun within => layer.beside (under_bin.mp within)
  have back := layer.move.reverse layer.returnless layer.sole below
  rw [← relinked] at back
  obtain ⟨row, stored⟩ := Option.ne_none_iff_exists'.mp ((holds.nodes node).present layer.present)
  have attempts : AgentFS.Attempts (state.at clock).volume entry.trashPath entry.originalPath trash entry.id parent name node row.mode := by
    refine ⟨?_, ?_, back.held, ?_, ?_⟩
    · refine AgentFS.resolveParent_eq_some.mpr ⟨bin, by rw [layer.placed, fields_trashPathOf layer.plain], ?_⟩
      rw [walk_eq_follow]
      exact back.source
    · refine AgentFS.resolveParent_eq_some.mpr ⟨parts, layer.spelled, ?_⟩
      rw [walk_eq_follow]
      exact back.target
    · have same : (state.at clock).volume.inode? node = some row := stored
      rw [AgentFS.getInodeMode, same]
      rfl
    · -- The path of the entry led somewhere before its id hung in the trash.
      rintro ⟨-, spelled⟩
      have within := fields_of_below spelled
      rw [AgentFS.fields_normalizePath, AgentFS.fields_normalizePath, layer.placed, fields_trashPathOf layer.plain, layer.spelled] at within
      exact absurd (layer.move.absent_below within) (by rw [layer.move.reached]; simp)
  obtain ⟨volume, renamed⟩ := attempts.renames_free back.free
  obtain ⟨hung, nodes⟩ := child_renamed attempts back.free renamed
  have child : volume.child = current := by
    rw [hung, show (state.at clock).volume.child = state.volume.child from rfl, relinked]
    exact relink_back layer.move.held layer.move.free
  obtain ⟨_, _, _, moves⟩ := AgentFS.rename_moves renamed attempts.source attempts.target back.apart
  have known : state.trash.find? entry.id = some entry :=
    state.trash.find?_of_mem (mem_listTrash.mp (List.mem_of_mem_head? first))
  refine ⟨⟨entry, entry.originalPath, volume, state.trash.erase entry.id⟩, ?_, rfl, rfl, ?_⟩
  · unfold undoTrash
    rw [show listTrash (state.at clock).trash = listTrash state.trash from rfl, first]
    exact restoreTrash_eq_ok.mpr ⟨volume, known, rfl, layer.outside, renamed, rfl⟩
  · have numbered := (holds.ordinary.at clock).numbered
    refine ⟨?_, by rw [child]; exact stacked, fun ino => (holds.nodes ino).trans ?_, by rw [child]; exact layer.returnless,
      by rw [child]; exact layer.sole, moves.numbered (holds.ordinary.at clock).rooted numbered, moves.sequence.trans holds.sequence, holds.rooted⟩
    · have unique := state.trash.unique
      rw [holds.rows, ← List.append_assoc, List.map_append, List.nodup_append] at unique
      change state.trash.rows.filter _ = _
      rw [holds.rows, ← List.append_assoc, List.filter_append, List.filter_eq_self.mpr, List.filter_cons_of_neg (by simp),
        List.filter_nil, List.append_nil]
      intro row listed
      have different := unique.2.2 _ (List.mem_map_of_mem listed) entry.id (by simp)
      simpa using different
    · exact ⟨(nodes ino).row, (nodes ino).chunks, (nodes ino).symlink⟩

/-! ## The order of the table -/

theorem charCodes_inj {first second : Text} (same : first.map Char.toNat = second.map Char.toNat) : first = second :=
  List.map_injective_iff.mpr (fun _ _ => Char.toNat_inj.mp) same

theorem TrashEntry.later_total (first second : TrashEntry) : first.Later second ∨ second.Later first := by
  unfold Later
  rcases lt_trichotomy first.deletedAt second.deletedAt with less | same | more
  · exact .inr (.inl less)
  · rcases le_total (first.id.map Char.toNat) (second.id.map Char.toNat) with below | above
    · exact .inr (.inr ⟨same, below⟩)
    · exact .inl (.inr ⟨same.symm, above⟩)
  · exact .inl (.inl more)

theorem TrashEntry.later_trans {first second third : TrashEntry} (left : first.Later second) (right : second.Later third) :
    first.Later third := by
  unfold Later at left right ⊢
  rcases left with above | ⟨same, above⟩ <;> rcases right with higher | ⟨equal, higher⟩
  · exact .inl (higher.trans above)
  · exact .inl (by rw [equal]; exact above)
  · exact .inl (by rw [← same]; exact higher)
  · exact .inr ⟨equal.trans same, higher.trans above⟩

/-- Of two rows, the one that is listed first is the one whose key is later. -/
theorem later_iff_earlier {first second : TrashEntry} (different : first.id ≠ second.id) :
    first.Later second ↔ Earlier second.key first.key := by
  have apart : second.id.map Char.toNat ≠ first.id.map Char.toNat := fun same => different (charCodes_inj same).symm
  unfold TrashEntry.Later Earlier TrashEntry.key
  rw [le_iff_lt_or_eq, or_iff_left apart]

/-- The table is asked for the row that is later than all the others. -/
theorem head_listTrash {table : TrashTable} :
    (listTrash table).head? = some entry ↔ entry ∈ table.rows ∧ ∀ row ∈ table.rows, row ≠ entry → Earlier row.key entry.key := by
  have : Std.Total TrashEntry.Later := ⟨TrashEntry.later_total⟩
  have : IsTrans TrashEntry TrashEntry.Later := ⟨fun _ _ _ => TrashEntry.later_trans⟩
  have sorted : (listTrash table).Pairwise TrashEntry.Later := List.pairwise_insertionSort _ _
  have ids : ∀ {row}, row ∈ table.rows → entry ∈ table.rows → row ≠ entry → entry.id ≠ row.id :=
    fun listed also different same => different (table.eq_of_key listed also same.symm)
  constructor
  · intro first
    have listed := mem_listTrash.mp (List.mem_of_mem_head? first)
    refine ⟨listed, fun row also different => ?_⟩
    obtain ⟨rest, spelled⟩ := List.head?_eq_some_iff.mp first
    rw [spelled, List.pairwise_cons] at sorted
    have within : row ∈ entry :: rest := by
      rw [← spelled]
      exact mem_listTrash.mpr also
    exact (later_iff_earlier (ids also listed different)).mp (sorted.1 row ((List.mem_cons.mp within).resolve_left different))
  · rintro ⟨listed, latest⟩
    cases spelled : listTrash table with
    | nil => exact absurd (mem_listTrash.mpr listed) (by rw [spelled]; simp)
    | cons first rest =>
      rw [spelled, List.pairwise_cons] at sorted
      have also : first ∈ table.rows := mem_listTrash.mp (by rw [spelled]; exact List.mem_cons_self)
      by_contra different
      have different : first ≠ entry := fun same => different (by rw [same]; rfl)
      have within : entry ∈ first :: rest := by
        rw [← spelled]
        exact mem_listTrash.mpr listed
      have before := sorted.1 entry ((List.mem_cons.mp within).resolve_left different.symm)
      have after := latest first also different
      unfold TrashEntry.Later at before
      unfold Earlier TrashEntry.key at after
      dsimp only at after
      rcases after with less | ⟨same, less⟩
      · rcases before with more | ⟨equal, -⟩
        · exact absurd (less.trans more) (lt_irrefl _)
        · exact absurd less (by rw [equal]; exact lt_irrefl _)
      · rcases before with more | ⟨-, more⟩
        · exact absurd more (by rw [same]; exact lt_irrefl _)
        · exact absurd (less.trans_le more) (lt_irrefl _)

/-! ## Runs -/

theorem deleteAll_append (state : Trashed) (first second : List Delete) :
    deleteAll state (first ++ second) = deleteAll state first >>= fun middle => deleteAll middle second := List.foldlM_append

theorem deleteAll_cons (state : Trashed) (request : Delete) (rest : List Delete) :
    deleteAll state (request :: rest) = delete state request >>= fun middle => deleteAll middle rest := List.foldlM_cons

theorem undoAll_append {undone : List Restoring} {first second : List Int} (ran : undoAll state (first ++ second) = .ok (undone, after)) :
    ∃ front back middle, undoAll state first = .ok (front, middle) ∧ undoAll middle second = .ok (back, after) ∧
      undone = front ++ back ∧ front.length = first.length := by
  induction first generalizing state undone with
  | nil => exact ⟨[], undone, state, rfl, ran, rfl, rfl⟩
  | cons clock first ih =>
    obtain ⟨done, one, ran⟩ := bind_eq_ok.mp ran
    obtain ⟨⟨later, last⟩, rest, returned⟩ := bind_eq_ok.mp ran
    obtain ⟨rfl, rfl⟩ := Prod.mk.inj (pure_eq_ok.mp returned)
    obtain ⟨front, back, middle, started, ended, rfl, sized⟩ := ih rest
    refine ⟨done :: front, back, middle, ?_, ended, rfl, by rw [List.length_cons, sized, List.length_cons]⟩
    rw [undoAll, one, ok_bind, started]
    rfl

theorem delete_ordinary_all {requests : List Delete} (ordinary : Ordinary state.volume)
    (unguessed : ∀ request ∈ requests, Unguessed state request.id) (deleted : deleteAll state requests = .ok after) :
    Ordinary after.volume ∧ ∀ id, Unguessed state id → Unguessed after id := by
  induction requests generalizing state with
  | nil =>
    obtain rfl := Except.ok.inj deleted
    exact ⟨ordinary, fun _ => id⟩
  | cons request rest ih =>
    rw [deleteAll_cons] at deleted
    obtain ⟨middle, one, deleted⟩ := bind_eq_ok.mp deleted
    obtain ⟨kept, still⟩ := delete_ordinary ordinary (unguessed request List.mem_cons_self) one
    obtain ⟨last, all⟩ := ih kept (fun other listed => still _ (unguessed other (List.mem_cons_of_mem _ listed))) deleted
    exact ⟨last, fun id fresh => all id (still id fresh)⟩

/-- Deletes that leave the trash directory alone add their rows to the stack. -/
theorem Holds.delete (holds : Holds base rows trash entries state) (unguessed : Unguessed state request.id)
    (beside : fields '/' request.path ≠ bin) (deleted : Trash.delete state request = .ok after) :
    ∃ entry, Records request entry ∧ Holds base rows trash (entries ++ [entry]) after := by
  obtain ⟨made, trash', entry, parts, name, parent, node, ready, -, thrown, records, -, written⟩ :=
    delete_thrown holds.ordinary unguessed deleted
  have there : AgentFS.resolvePath (state.at request.clock).volume TRASH_ROOT = some trash := by
    rw [resolve_root]
    exact holds.sole.here
  obtain rfl := makeRoot_there there ready
  obtain rfl : trash = trash' := Option.some.inj (holds.sole.here.symm.trans thrown.move.target)
  refine ⟨entry, records, ?_⟩
  refine holds.thrown ⟨thrown.spelled, thrown.placed, thrown.plain, thrown.outside, thrown.move, thrown.present, thrown.child, ?_,
    thrown.numbered, thrown.sequence⟩ ?_ written
  · exact fun ino => ⟨(thrown.nodes ino).row, (thrown.nodes ino).chunks, (thrown.nodes ino).symlink⟩
  · rw [← thrown.spelled, records.2.1]
    exact beside

theorem Holds.deleteAll {requests : List Delete} (holds : Holds base rows trash entries state)
    (unguessed : ∀ request ∈ requests, Unguessed state request.id) (beside : ∀ request ∈ requests, fields '/' request.path ≠ bin)
    (deleted : Trash.deleteAll state requests = .ok after) :
    ∃ more, List.Forall₂ Records requests more ∧ Holds base rows trash (entries ++ more) after := by
  induction requests generalizing state entries with
  | nil =>
    obtain rfl := Except.ok.inj deleted
    exact ⟨[], .nil, by rw [List.append_nil]; exact holds⟩
  | cons request rest ih =>
    rw [deleteAll_cons] at deleted
    obtain ⟨middle, one, deleted⟩ := bind_eq_ok.mp deleted
    have fresh := unguessed request List.mem_cons_self
    have still := (delete_ordinary holds.ordinary fresh one).2
    obtain ⟨entry, records, added⟩ := holds.delete fresh (beside request List.mem_cons_self) one
    obtain ⟨more, recorded, all⟩ := ih added (fun other listed => still _ (unguessed other (List.mem_cons_of_mem _ listed)))
      (fun other listed => beside other (List.mem_cons_of_mem _ listed)) deleted
    exact ⟨entry :: more, .cons records recorded, by rw [List.append_assoc] at all; exact all⟩

/-- The same from a volume that may have no trash directory yet. -/
theorem deleteAll_holds {requests : List Delete} (ordinary : Ordinary state.volume) (some_ : requests ≠ [])
    (unguessed : ∀ request ∈ requests, Unguessed state request.id) (beside : ∀ request ∈ requests, fields '/' request.path ≠ bin)
    (deleted : deleteAll state requests = .ok after) :
    ∃ base trash entries, Readied state.volume base trash ∧ List.Forall₂ Records requests entries ∧
      Holds base state.trash.rows trash entries after := by
  obtain ⟨request, rest, rfl⟩ := List.exists_cons_of_ne_nil some_
  rw [deleteAll_cons] at deleted
  obtain ⟨middle, one, deleted⟩ := bind_eq_ok.mp deleted
  have fresh := unguessed request List.mem_cons_self
  have still := (delete_ordinary ordinary fresh one).2
  obtain ⟨made, trash, entry, parts, name, parent, node, -, readied, thrown, records, -, written⟩ := delete_thrown ordinary fresh one
  have first : Holds made state.trash.rows trash ([] ++ [entry]) middle := by
    refine (readied.holds state.trash).thrown thrown ?_ written
    rw [← thrown.spelled, records.2.1]
    exact beside request List.mem_cons_self
  obtain ⟨more, recorded, all⟩ := first.deleteAll (fun other listed => still _ (unguessed other (List.mem_cons_of_mem _ listed)))
    (fun other listed => beside other (List.mem_cons_of_mem _ listed)) deleted
  exact ⟨made, trash, entry :: more, readied, .cons records recorded, all⟩

/-- Undos of a stack whose keys rise take off its last entries. -/
theorem Holds.undoAll {kept gone : List TrashEntry} {clocks : List Int} (holds : Holds base rows trash (kept ++ gone) state)
    (rising : ∀ front entry back, gone = front ++ entry :: back → ∀ row ∈ rows ++ kept ++ front, Earlier row.key entry.key)
    (sized : clocks.length = gone.length) :
    ∃ undone after, Trash.undoAll state clocks = .ok (undone, after) ∧ Holds base rows trash kept after ∧
      undone.map (fun done => (done.entry.id, done.restoredPath)) = (gone.map fun entry => (entry.id, entry.originalPath)).reverse := by
  induction gone using List.reverseRecOn generalizing state clocks with
  | nil =>
    rw [List.length_eq_zero_iff.mp sized]
    exact ⟨[], state, rfl, by rw [List.append_nil] at holds; exact holds, rfl⟩
  | append_singleton gone entry ih =>
    rw [← List.append_assoc] at holds
    obtain ⟨clock, clocks, rfl⟩ : ∃ clock rest, clocks = clock :: rest := List.exists_cons_of_length_pos (by rw [sized]; simp)
    have first : (listTrash state.trash).head? = some entry := by
      refine head_listTrash.mpr ⟨by rw [holds.rows]; simp, ?_⟩
      intro row listed different
      rw [holds.rows, ← List.append_assoc, ← List.append_assoc] at listed
      rcases List.mem_append.mp listed with earlier | last
      · exact rising gone entry [] rfl row earlier
      · exact absurd (List.mem_singleton.mp last) different
    obtain ⟨done, one, same, path, popped⟩ := holds.undo clock first
    obtain ⟨undone, after, ran, left, ids⟩ := ih popped
      (fun front other back spelled => rising front other (back ++ [entry]) (by rw [spelled]; simp)) (by simpa using sized)
    refine ⟨done :: undone, after, ?_, left, ?_⟩
    · rw [Trash.undoAll, one, ok_bind, ran]
      rfl
    · rw [List.map_cons, ids, path, same, List.map_append, List.reverse_append]
      rfl

/-- Undos that name the entries in their order show that the keys rise. -/
theorem Holds.rising {gone : List TrashEntry} {clocks : List Int} {undone : List Restoring} (holds : Holds base rows trash (entries ++ gone) state)
    (ran : Trash.undoAll state clocks = .ok (undone, after)) (sized : clocks.length = gone.length)
    (ids : undone.map (·.entry.id) = (gone.map (·.id)).reverse) :
    Holds base rows trash entries after ∧
      ∀ front entry back, gone = front ++ entry :: back → ∀ row ∈ rows ++ entries ++ front, Earlier row.key entry.key := by
  induction gone using List.reverseRecOn generalizing state clocks undone with
  | nil =>
    rw [List.length_eq_zero_iff.mp sized] at ran
    obtain ⟨rfl, rfl⟩ := Prod.mk.inj (Except.ok.inj ran)
    exact ⟨by rw [List.append_nil] at holds; exact holds, fun front entry back spelled => absurd spelled (by simp)⟩
  | append_singleton gone entry ih =>
    rw [← List.append_assoc] at holds
    obtain ⟨clock, clocks, rfl⟩ : ∃ clock rest, clocks = clock :: rest := List.exists_cons_of_length_pos (by rw [sized]; simp)
    obtain ⟨done, one, ran⟩ := bind_eq_ok.mp ran
    obtain ⟨⟨later, last⟩, rest, returned⟩ := bind_eq_ok.mp ran
    obtain ⟨rfl, rfl⟩ := Prod.mk.inj (pure_eq_ok.mp returned)
    rw [List.map_cons, List.map_append, List.reverse_append] at ids
    obtain ⟨named, ids⟩ := List.cons.inj ids
    obtain ⟨first, -⟩ := undoTrash_ok one
    have listed : entry ∈ state.trash.rows := by
      rw [holds.rows]
      simp
    have own : done.entry = entry := state.trash.eq_of_key (head_listTrash.mp first).1 listed named
    rw [own] at first
    obtain ⟨done', one', -, -, popped⟩ := holds.undo clock first
    obtain rfl := Except.ok.inj (one.symm.trans one')
    obtain ⟨left, earlier⟩ := ih popped rest (by simpa using sized) ids
    refine ⟨left, ?_⟩
    intro front other back spelled row within
    rcases List.eq_nil_or_concat back with rfl | ⟨back, final, rfl⟩
    · obtain ⟨rfl, same⟩ := List.append_inj' spelled rfl
      obtain rfl := List.singleton_inj.mp same
      have present : row ∈ state.trash.rows := by
        rw [holds.rows, ← List.append_assoc, ← List.append_assoc]
        exact List.mem_append_left _ within
      refine (head_listTrash.mp first).2 row present ?_
      -- Two rows of one table are not the same.
      rintro rfl
      have unique := List.Nodup.of_map _ state.trash.unique
      rw [holds.rows, ← List.append_assoc, ← List.append_assoc, List.nodup_append] at unique
      exact unique.2.2 row within row (List.mem_singleton_self _) rfl
    · rw [List.concat_eq_append, ← List.cons_append, ← List.append_assoc] at spelled
      exact earlier front other back (List.append_inj' spelled rfl).1 row within

/-! ## The order of the undos -/

theorem Records.keys {requests : List Delete} (records : List.Forall₂ Records requests entries) :
    entries.map TrashEntry.key = requests.map Delete.key := by
  induction records with
  | nil => rfl
  | cons one _ ih => rw [List.map_cons, List.map_cons, ih, one.2.2]

theorem Records.ids {requests : List Delete} (records : List.Forall₂ Records requests entries) :
    (entries.map fun entry => (entry.id, entry.originalPath)) = requests.map fun request => (request.id, request.path) := by
  induction records with
  | nil => rfl
  | cons one _ ih => rw [List.map_cons, List.map_cons, ih, one.1, one.2.1]

/-- The keys of the deletes are those of their rows. -/
theorem rising_iff {requests : List Delete} (records : List.Forall₂ Records requests entries) : Rising rows requests ↔
    ∀ front entry back, entries = front ++ entry :: back → ∀ row ∈ rows ++ front, Earlier row.key entry.key := by
  have keyed : Rising rows requests ↔ (∀ row ∈ rows, ∀ entry ∈ entries, Earlier row.key entry.key) ∧
      entries.Pairwise fun first second => Earlier first.key second.key := by
    have keys := Records.keys records
    have pairs : (entries.map TrashEntry.key).Pairwise Earlier ↔ entries.Pairwise fun first second => Earlier first.key second.key :=
      List.pairwise_map
    have others : (requests.map Delete.key).Pairwise Earlier ↔ requests.Pairwise fun first second => Earlier first.key second.key :=
      List.pairwise_map
    rw [keys] at pairs
    have each : ∀ row : TrashEntry, (∀ request ∈ requests, Earlier row.key request.key) ↔ ∀ entry ∈ entries, Earlier row.key entry.key := by
      intro row
      have first : (∀ key ∈ entries.map TrashEntry.key, Earlier row.key key) ↔ ∀ entry ∈ entries, Earlier row.key entry.key :=
        List.forall_mem_map
      have second : (∀ key ∈ requests.map Delete.key, Earlier row.key key) ↔ ∀ request ∈ requests, Earlier row.key request.key :=
        List.forall_mem_map
      rw [keys] at first
      exact second.symm.trans first
    unfold Rising
    rw [← others, pairs]
    exact and_congr_left fun _ => forall₂_congr fun row _ => each row
  rw [keyed]
  constructor
  · rintro ⟨old, new⟩ front entry back rfl row within
    rcases List.mem_append.mp within with earlier | earlier
    · exact old row earlier entry (by simp)
    · exact (List.pairwise_append.mp new).2.2 row earlier entry List.mem_cons_self
  · intro each
    refine ⟨?_, ?_⟩
    · intro row listed entry within
      obtain ⟨front, back, spelled⟩ := List.append_of_mem within
      exact each front entry back spelled row (List.mem_append_left _ listed)
    · clear records keyed
      induction entries using List.reverseRecOn with
      | nil => exact .nil
      | append_singleton front entry ih =>
        refine List.pairwise_append.mpr ⟨ih ?_, List.pairwise_singleton _ _, ?_⟩
        · exact fun first other back spelled => each first other (back ++ [entry]) (by rw [spelled]; simp)
        · intro row within last same
          rw [List.mem_singleton.mp same]
          exact each front entry [] rfl row (List.mem_append_right _ within)

theorem Stacked.nil (stacked : Stacked base trash [] current) : current = base.child := stacked.unique .base

/-- The whole stack is taken off: what is left is the volume with its trash directory. -/
theorem Readied.same {origin : Trashed} (readied : Readied origin.volume base trash)
    (holds : Holds base origin.trash.rows trash [] after) : Same origin after where
  visible place outside := by
    rw [← readied.visible place outside, walk_eq_follow, walk_eq_follow, holds.stacked.nil]
  nodes ino known := (readied.nodes ino known).trans (holds.nodes ino)
  trash := by rw [holds.rows, List.append_nil]

theorem Holds.same (first : Holds base rows trash entries state) (second : Holds base rows trash entries after) : Same state after where
  visible place _ := by
    rw [walk_eq_follow, walk_eq_follow, first.stacked.unique second.stacked]
  nodes ino _ := (first.nodes ino).symm.trans (second.nodes ino)
  trash := by rw [first.rows, second.rows]

variable {origin : Trashed} {requests : List Delete}

/-- Keys that rise are enough. -/
theorem lastInFirstOut_of_rising (ordinary : Ordinary origin.volume) (unguessed : ∀ request ∈ requests, Unguessed origin request.id)
    (deleted : deleteAll origin requests = .ok state) (beside : ∀ request ∈ requests, fields '/' request.path ≠ bin)
    (rising : Rising origin.trash.rows requests) : LastInFirstOut origin state requests := by
  rintro kept gone clocks rfl sized
  rw [deleteAll_append] at deleted
  obtain ⟨middle, front, rest⟩ := bind_eq_ok.mp deleted
  have before : ∀ request ∈ kept, Unguessed origin request.id := fun request listed => unguessed request (List.mem_append_left _ listed)
  have still := (delete_ordinary_all ordinary before front).2
  have later : ∀ request ∈ gone, Unguessed middle request.id :=
    fun request listed => still _ (unguessed request (List.mem_append_right _ listed))
  have apart : ∀ request ∈ gone, fields '/' request.path ≠ bin := fun request listed => beside request (List.mem_append_right _ listed)
  by_cases first : kept = []
  · subst first
    obtain rfl := Except.ok.inj front
    by_cases none_ : gone = []
    · subst none_
      obtain rfl := Except.ok.inj rest
      rw [List.length_eq_zero_iff.mp sized]
      exact ⟨[], origin, origin, rfl, rfl, rfl, ⟨fun _ _ => rfl, fun ino _ => .refl ino _, rfl⟩⟩
    · obtain ⟨base, trash, entries, readied, records, holds⟩ := deleteAll_holds ordinary none_ later apart rest
      have holds : Holds base origin.trash.rows trash ([] ++ entries) state := holds
      obtain ⟨undone, after, ran, left, ids⟩ := holds.undoAll
        (by rw [List.append_nil]; exact (rising_iff records).mp rising) (by rw [sized, records.length_eq])
      exact ⟨undone, after, origin, ran, by rw [ids, Records.ids records], rfl, readied.same left⟩
  · obtain ⟨base, trash, entries, -, records, holds⟩ := deleteAll_holds ordinary first before
      (fun request listed => beside request (List.mem_append_left _ listed)) front
    obtain ⟨more, recorded, all⟩ := holds.deleteAll later apart rest
    have both := (rising_iff (List.rel_append records recorded)).mp rising
    obtain ⟨undone, after, ran, left, ids⟩ := all.undoAll
      (fun first entry back spelled row within => both (entries ++ first) entry back (by rw [spelled, List.append_assoc]) row
        (by rw [← List.append_assoc]; exact within))
      (by rw [sized, recorded.length_eq])
    exact ⟨undone, after, middle, ran, by rw [ids, Records.ids recorded], front, holds.same left⟩

/-- The last of those that are. -/
theorem exists_last {α : Type} {chosen : α → Prop} {items : List α} (some_ : ∃ item ∈ items, chosen item) :
    ∃ front item back, items = front ++ item :: back ∧ chosen item ∧ ∀ later ∈ back, ¬chosen later := by
  induction items with
  | nil =>
    obtain ⟨item, listed, -⟩ := some_
    cases listed
  | cons first rest ih =>
    by_cases later : ∃ item ∈ rest, chosen item
    · obtain ⟨front, item, back, rfl, here, after⟩ := ih later
      exact ⟨first :: front, item, back, rfl, here, after⟩
    · refine ⟨[], first, rest, rfl, ?_, fun item listed here => later ⟨item, listed, here⟩⟩
      obtain ⟨item, listed, here⟩ := some_
      rcases List.mem_cons.mp listed with rfl | within
      · exact here
      · exact absurd ⟨item, within, here⟩ later

/-- What was deleted with the trash directory itself does not come back. -/
theorem undo_lost {done : Restoring} (listed : entry ∈ state.trash.rows) (placed : entry.trashPath = trashPathOf entry.id)
    (plain : entry.id ≠ [] ∧ '/' ∉ entry.id) (named : fields '/' entry.originalPath = bin)
    (missing : AgentFS.walk state.volume ROOT_INO (bin ++ [entry.id]) = none) (clock : Int)
    (undone : undoTrash (state.at clock) = .ok done) : done.entry.id ≠ entry.id := by
  intro same
  obtain ⟨first, path, volume, renamed, -⟩ := undoTrash_ok undone
  have own : done.entry = entry := state.trash.eq_of_key (head_listTrash.mp first).1 listed same
  rw [path, own] at renamed
  have different : AgentFS.normalizePath entry.trashPath ≠ AgentFS.normalizePath entry.originalPath := by
    intro equal
    have both := congrArg (fields '/') equal
    rw [AgentFS.fields_normalizePath, AgentFS.fields_normalizePath, placed, fields_trashPathOf plain, named] at both
    simp [bin] at both
  obtain ⟨parent, name, _, _, ino, mode, attempts, -⟩ := AgentFS.rename_attempts different renamed
  have reached := AgentFS.resolvePath_of_parent attempts.source
  rw [AgentFS.resolvePath_eq, placed, fields_trashPathOf plain, walk_at, missing] at reached
  exact absurd (reached.trans attempts.held) (by simp)

theorem LastInFirstOut.beside (lifo : LastInFirstOut origin state requests) (ordinary : Ordinary origin.volume)
    (unguessed : ∀ request ∈ requests, Unguessed origin request.id) (deleted : deleteAll origin requests = .ok state) :
    ∀ request ∈ requests, fields '/' request.path ≠ bin := by
  by_contra some_
  push Not at some_
  obtain ⟨front, request, back, rfl, own, beside⟩ := exists_last some_
  rw [deleteAll_append] at deleted
  obtain ⟨kept, before, rest⟩ := bind_eq_ok.mp deleted
  rw [deleteAll_cons] at rest
  obtain ⟨lost, one, rest⟩ := bind_eq_ok.mp rest
  obtain ⟨known, still⟩ := delete_ordinary_all ordinary (fun other listed => unguessed other (List.mem_append_left _ listed)) before
  have fresh := still _ (unguessed request (by simp))
  obtain ⟨well, further⟩ := delete_ordinary known fresh one
  obtain ⟨made, trash, entry, parts, name, parent, node, -, readied, thrown, records, -, written⟩ := delete_thrown known fresh one
  have named : fields '/' entry.originalPath = bin := by rw [records.2.1, own]
  have absent := (thrown.lost readied (by rw [← thrown.spelled, named])).2
  have gone : ∀ id, AgentFS.walk lost.volume ROOT_INO (bin ++ [id]) = none := by
    intro id
    rw [walk_eq_follow, follow_concat, absent]
    rfl
  -- All the undos but the last take back what came after it.
  obtain ⟨undone, after, middle, ran, ids, -⟩ := lifo front (request :: back) (List.replicate back.length 0 ++ [0]) rfl (by simp)
  obtain ⟨first, last, halfway, began, ended, rfl, sized⟩ := undoAll_append ran
  rw [List.length_replicate] at sized
  rw [List.map_append, List.map_cons, List.reverse_cons] at ids
  obtain ⟨firstIds, lastIds⟩ := List.append_inj ids (by simp [sized])
  have left : entry ∈ halfway.trash.rows ∧ AgentFS.walk halfway.volume ROOT_INO (bin ++ [entry.id]) = none := by
    by_cases none_ : back = []
    · subst none_
      obtain rfl := Except.ok.inj rest
      obtain ⟨-, rfl⟩ := Prod.mk.inj (Except.ok.inj began)
      exact ⟨by rw [written]; simp, gone entry.id⟩
    · obtain ⟨base, bin', entries, ready, recorded, holds⟩ := deleteAll_holds well none_
        (fun other listed => further _ (still _ (unguessed other (by simp [listed])))) beside rest
      have pairs := congrArg (List.map Prod.fst) firstIds
      rw [← Records.ids recorded, List.map_reverse, List.map_map, List.map_map] at pairs
      have holds : Holds base _ bin' ([] ++ entries) _ := holds
      obtain ⟨emptied, -⟩ := holds.rising began (by rw [List.length_replicate, recorded.length_eq]) pairs
      refine ⟨by rw [emptied.rows, List.append_nil, written]; simp, ?_⟩
      rw [walk_eq_follow, follow_concat, emptied.sole.here, Option.bind_some, emptied.stacked.nil]
      exact ready.fresh entry.id (gone entry.id)
  obtain ⟨done, rest', rfl⟩ : ∃ done rest, last = done :: rest := List.exists_cons_of_ne_nil (by rintro rfl; simp at lastIds)
  obtain ⟨done', undone, -⟩ := bind_eq_ok.mp ended
  have same : done' = done := by
    rw [Trash.undoAll, undone, ok_bind] at ended
    exact (List.cons.inj (Prod.mk.inj (Except.ok.inj ended)).1).1
  obtain rfl := same
  refine undo_lost left.1 thrown.placed thrown.plain named left.2 0 undone ?_
  rw [records.1]
  exact (Prod.mk.inj (List.cons.inj lastIds).1).1

/-- Undo is last-in first-out exactly when the keys of the rows rise and no delete names the trash directory. -/
theorem undo_lifo_iff (ordinary : Ordinary origin.volume) (unguessed : ∀ request ∈ requests, Unguessed origin request.id)
    (deleted : deleteAll origin requests = .ok state) : LastInFirstOut origin state requests ↔
      (∀ request ∈ requests, fields '/' request.path ≠ bin) ∧ Rising origin.trash.rows requests := by
  constructor
  · intro lifo
    have beside := lifo.beside ordinary unguessed deleted
    refine ⟨beside, ?_⟩
    by_cases none_ : requests = []
    · subst none_
      exact ⟨fun _ _ _ listed => absurd listed List.not_mem_nil, .nil⟩
    · obtain ⟨base, trash, entries, -, records, holds⟩ := deleteAll_holds ordinary none_ unguessed beside deleted
      obtain ⟨undone, after, -, ran, ids, -⟩ := lifo [] requests (List.replicate requests.length 0) rfl (by simp)
      have pairs := congrArg (List.map Prod.fst) ids
      rw [← Records.ids records, List.map_reverse, List.map_map, List.map_map] at pairs
      have holds : Holds base origin.trash.rows trash ([] ++ entries) state := holds
      obtain ⟨-, rising⟩ := holds.rising ran (by rw [List.length_replicate, records.length_eq]) pairs
      refine (rising_iff records).mpr ?_
      rw [List.append_nil] at rising
      exact rising
  · rintro ⟨beside, rising⟩
    exact lastInFirstOut_of_rising ordinary unguessed deleted beside rising

/-- A tree of directories is what is asked of the volume. -/
theorem ordinary_of_tree (tree : volume.DirectoryTree)
    (directory : ∀ ino, AgentFS.resolvePath volume TRASH_ROOT = some ino → volume.Directory ino) : Ordinary volume where
  returnless := by
    intro front rest here reached around
    cases rest with
    | nil => rfl
    | cons label rest =>
      rw [follow_cons, Option.bind_eq_some_iff] at around
      obtain ⟨next, found, along⟩ := around
      have whole : follow volume.child ROOT_INO (front ++ label :: rest) = some here := by
        rw [follow_append, reached, Option.bind_some, follow_cons, found]
        exact along
      rw [← walk_eq_follow] at reached whole
      have same := tree.walk_unique (tree.holder found) reached whole
      simp at same
  sole := by
    intro ino there
    have here := there
    rw [resolve_root] at here
    refine ⟨here, fun other reached => ?_⟩
    rw [← walk_eq_follow] at reached here
    exact tree.walk_unique (directory ino there) reached here
  numbered := tree.numbered
  rooted := tree.rooted

/-- A directory with one file. -/
def nestedSample : Trashed where
  volume := { Volume.fresh 0 with
    inode := ⟨[InodeRow.root 0, { InodeRow.create DEFAULT_DIR_MODE 0 0 0 with ino := 2, nlink := 1 },
      { InodeRow.create DEFAULT_FILE_MODE 0 0 0 with ino := 3, nlink := 1 }], by decide⟩
    dentry := ⟨[⟨"d".toList, 1, 2⟩, ⟨"f".toList, 2, 3⟩], by decide⟩
    inodeSequence := 3 }
  trash := .empty

theorem nestedSample_ordinary : Ordinary nestedSample.volume := by
  refine ordinary_of_tree (.of_entries (by decide) (by decide) (by decide) (by decide) (by decide) (by decide) (by decide)) ?_
  intro ino there
  have missing : AgentFS.resolvePath nestedSample.volume TRASH_ROOT = none := by decide +kernel
  rw [missing] at there
  cases there

/-- The file is deleted, then its directory. -/
def nestedDeletes (first second : Int) : List Delete :=
  [⟨"/d/f".toList, "z".toList, first, by decide⟩, ⟨"/d".toList, "y".toList, second, by decide⟩]

theorem nestedDeletes_unguessed (first second : Int) : ∀ request ∈ nestedDeletes first second, Unguessed nestedSample request.id := by
  have missing : ∀ id ∈ ["z".toList, "y".toList], AgentFS.walk nestedSample.volume ROOT_INO (bin ++ [id]) = none := by decide +kernel
  intro request listed
  rcases List.mem_cons.mp listed with rfl | listed
  · exact .inl (missing _ (by simp))
  · rw [List.mem_singleton.mp listed]
    exact .inl (missing _ (by simp))

theorem undo_lifo_nested : ∃ state, deleteAll nestedSample (nestedDeletes 1000 2000) = .ok state ∧
    LastInFirstOut nestedSample state (nestedDeletes 1000 2000) := by
  have deletes : (deleteAll nestedSample (nestedDeletes 1000 2000)).toOption.isSome = true := by decide +kernel
  cases deleted : deleteAll nestedSample (nestedDeletes 1000 2000) with
  | error failure =>
    rw [deleted] at deletes
    cases deletes
  | ok state =>
    refine ⟨state, rfl, (undo_lifo_iff nestedSample_ordinary (nestedDeletes_unguessed 1000 2000) deleted).mpr ⟨by decide +kernel, ?_, ?_⟩⟩
    · exact fun row listed => absurd listed List.not_mem_nil
    · exact List.pairwise_pair.mpr (.inl (by decide))

/-- Both deletes fall into one second, and the id of the file is the greater: its undo finds no directory. -/
theorem undo_out_of_order : ¬∀ (origin state : Trashed) (requests : List Delete), Ordinary origin.volume →
    (∀ request ∈ requests, Unguessed origin request.id) → deleteAll origin requests = .ok state → LastInFirstOut origin state requests := by
  intro claim
  have fails : ((deleteAll nestedSample (nestedDeletes 1000 1001)).bind fun state => undoAll state [0, 0]).toOption.isSome = false ∧
      (deleteAll nestedSample (nestedDeletes 1000 1001)).toOption.isSome = true := by decide +kernel
  cases deleted : deleteAll nestedSample (nestedDeletes 1000 1001) with
  | error failure =>
    rw [deleted] at fails
    cases fails.2
  | ok state =>
    obtain ⟨undone, after, _, ran, -⟩ := claim nestedSample state _ nestedSample_ordinary (nestedDeletes_unguessed 1000 1001) deleted
      [] _ [0, 0] rfl rfl
    rw [deleted] at fails
    have all : (undoAll state [0, 0]).toOption.isSome = false := fails.1
    rw [ran] at all
    cases all

end Trash

end AiryFS
