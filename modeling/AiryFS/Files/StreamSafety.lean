import AiryFS.Files.FileStream
import AiryFS.Files.TreeWrites

/-! Streaming writes are atomic as long as nobody else touches the temporary file.

The new contents grow under an inode that only the hidden name leads to. The rename moves that
name's entry over the path; where the call fails before, removing the name removes the file.
-/

set_option autoImplicit false

namespace AiryFS

open Foundation

namespace FileStream

variable {stream : FileStream}

/-- The hidden name is no part of the path, as it holds a random identifier. -/
structure Unguessed (stream : FileStream) : Prop where
  plain : '/' ∉ stream.uuid
  apart : stream.uploadName ∉ fields '/' stream.path

theorem Unguessed.separable (unguessed : stream.Unguessed) : Separable '/' [stream.uploadName] := by
  intro piece member
  rw [List.mem_singleton.mp member]
  refine ⟨List.append_ne_nil_of_left_ne_nil (by decide) _, ?_⟩
  intro slash
  rcases List.mem_append.mp slash with mark | uuid
  · exact absurd mark (by decide)
  · exact unguessed.plain uuid

theorem Unguessed.fields_temp (unguessed : stream.Unguessed) : fields '/' stream.temp = fields '/' stream.parent ++ [stream.uploadName] := by
  have own : fields '/' stream.uploadName = [stream.uploadName] := by simpa using fields_intercalate unguessed.separable
  rw [temp, fields_append_sep, own]

/-- The path and the hidden name are entries of one directory. -/
theorem fields_path {temp : Text} (valid : stream.temporaryPath = .ok temp) :
    fields '/' stream.path = [] ∨ ∃ name, fields '/' stream.path = fields '/' stream.parent ++ [name] := by
  obtain ⟨_, passed, _⟩ := bind_eq_ok.mp valid
  rw [refuse_eq_ok, not_or] at passed
  have whole : stream.path.rdropWhile (· ≠ '/') ++ stream.path.rtakeWhile (· ≠ '/') = stream.path :=
    List.rdropWhile_append_rtakeWhile
  have plain : '/' ∉ stream.path.rtakeWhile (· ≠ '/') := fun slash => by simpa using List.mem_rtakeWhile_imp slash
  have tail : ∀ {text : Text}, '/' ∉ text → fields '/' text = if text = [] then [] else [text] := by
    intro text plain
    split
    · rename_i empty
      rw [empty, fields_nil]
    · rename_i filled
      have separable : Separable '/' [text] := fun piece member => by
        rw [List.mem_singleton.mp member]
        exact ⟨filled, plain⟩
      simpa using fields_intercalate separable
  unfold parent
  rcases List.eq_nil_or_concat (stream.path.rdropWhile (· ≠ '/')) with none | ⟨front, last, spelled⟩
  · rw [none, List.nil_append] at whole
    rw [none, List.dropLast_nil, fields_nil, ← whole, tail plain]
    split
    · exact .inl rfl
    · exact .inr ⟨_, rfl⟩
  · have slash : last = '/' := by
      have filled : stream.path.rdropWhile (· ≠ '/') ≠ [] := by
        rw [spelled]
        simp
      have ends : (stream.path.rdropWhile (· ≠ '/')).getLast? = some last := by
        rw [spelled, List.concat_eq_append, List.getLast?_concat]
      rw [← Option.some.inj ((List.getLast?_eq_some_getLast filled).symm.trans ends)]
      simpa using List.rdropWhile_last_not _ _ filled
    rw [spelled, List.concat_eq_append, slash, List.append_assoc, List.singleton_append] at whole
    rw [spelled, List.concat_eq_append, List.dropLast_concat, ← whole, fields_append_sep, tail plain]
    right
    rw [if_neg]
    · exact ⟨_, rfl⟩
    · intro none
      rw [none] at whole
      exact passed.2 (by rw [← whole]; simp)

end FileStream

/-! ## What is asked of a call, and of the others -/

namespace Volume

/-- Some entry leads to the inode. -/
def Named (volume : Volume) (ino : Int) : Prop := ∃ parent label, volume.child parent label = some ino

instance (volume : Volume) (ino : Int) : Decidable (volume.Named ino) :=
  decidable_of_iff (∃ entry ∈ volume.dentry.rows, entry.ino = ino) <| by
    constructor
    · rintro ⟨entry, member, rfl⟩
      exact ⟨entry.parentIno, entry.name, child_of_mem member⟩
    · rintro ⟨parent, label, found⟩
      obtain ⟨entry, member, _, _, same⟩ := mem_of_child found
      exact ⟨entry, member, same⟩

/-- At most one entry leads to the inode, and it has this name. -/
def Sole (volume : Volume) (name : Text) (ino : Int) : Prop :=
  ∀ parent label, volume.child parent label = some ino → label = name ∧ ∀ other label', volume.child other label' = some ino → other = parent

/-- A reader of the path sees the same. -/
structure SameView (before after : Volume) (path : Text) : Prop where
  resolves : AgentFS.resolvePath after path = AgentFS.resolvePath before path
  node : ∀ ino, AgentFS.resolvePath before path = some ino → SameNode ino before after

end Volume

namespace StreamSystem

variable (stream : FileStream) (chunkSize : Nat) (state : StreamSystem)

def finished : Bool :=
  match state.phase with
  | .resolved | .rejected _ => true
  | _ => false

def rejects : Bool :=
  match state.phase with
  | .rejected _ => true
  | _ => false

/-- The path leads to a file that holds everything the call was to write. -/
def Complete : Prop := ∃ ino, AgentFS.resolvePath state.volume stream.path = some ino ∧
  state.volume.Stored chunkSize ino (.file stream.content)

/-- A step of the call leaves the path alone or completes it at once, nobody reads the new contents there
before, and a call that rejects leaves no name of its file. -/
structure Atomic (action : Action) : Prop where
  shown : action = .next → state.volume.SameView (state.step stream chunkSize action).volume stream.path ∨
    (state.step stream chunkSize action).phase = .resolved ∧ (state.step stream chunkSize action).Complete stream chunkSize
  unseen : (state.step stream chunkSize action).finished = false → ∀ ino, (state.step stream chunkSize action).made = some ino →
    AgentFS.resolvePath (state.step stream chunkSize action).volume stream.path ≠ some ino
  clean : state.finished = false → ∀ failure, (state.step stream chunkSize action).phase = .rejected failure →
    ∀ ino, (state.step stream chunkSize action).made = some ino → ¬(state.step stream chunkSize action).volume.Named ino

/-- The hidden path leads to the file of the call, or nowhere. -/
def Placed : Prop :=
  match state.made with
  | none => AgentFS.resolvePath state.volume stream.temp = none
  | some ino => AgentFS.resolvePath state.volume stream.temp = some ino ∨ AgentFS.resolvePath state.volume stream.temp = none

/-- What the call relies on where it uses the hidden path. -/
def Ready : Prop :=
  match state.phase with
  | .create | .opening | .rename => state.Placed stream
  | .cleanUp _ => state.Placed stream ∧ ∀ ino ∈ state.made, state.volume.Named ino →
      AgentFS.resolvePath state.volume stream.temp = some ino
  | _ => True

instance : Decidable (state.Placed stream) := by
  unfold Placed
  cases state.made <;> infer_instance

instance : Decidable (state.Ready stream) := by
  unfold Ready
  cases state.phase <;> infer_instance

/-- Another request leaves the file of the call as it is, or removes it. -/
structure Spares (volume : Volume) : Prop where
  sole : ∀ ino, state.made = some ino → volume.Sole stream.uploadName ino
  node : ∀ ino, state.made = some ino → volume.Named ino → state.volume.Named ino ∧ Volume.SameNode ino state.volume volume

/-- Another request leaves a volume, where no number is given out twice. -/
structure Treelike (volume : Volume) : Prop where
  tree : volume.DirectoryTree
  sequence : state.volume.inodeSequence ≤ volume.inodeSequence

def Undisturbed (action : Action) : Prop :=
  state.finished = false →
  match action with
  | .next => state.Ready stream
  | .others locks volume => state.blocked stream locks = false → state.Spares stream volume

def Plausible (action : Action) : Prop :=
  match action with
  | .next => True
  | .others _ volume => state.Treelike volume

/-- What the file of the call holds, from step to step. -/
def Filled (content : Bytes) : Prop :=
  match state.phase with
  | .opening => content = []
  | .writing _ offset remaining => offset = content.length ∧ content ++ remaining.flatten = stream.content
  | .validate | .queuePath | .rename => content = stream.content
  | .cleanUp _ => True
  | _ => False

/-- The state of a call that is not finished. -/
structure Sound : Prop where
  tree : state.volume.DirectoryTree
  valid : stream.temporaryPath = .ok stream.temp
  sole : ∀ ino, state.made = some ino → state.volume.Sole stream.uploadName ino
  known : ∀ ino, state.made = some ino → ROOT_INO < ino ∧ ino ≤ state.volume.inodeSequence
  filled : ∀ ino, state.made = some ino → state.volume.Named ino →
    ∃ content, state.volume.Stored chunkSize ino (.file content) ∧ state.Filled stream content
  handle : ∀ handle offset remaining, state.phase = .writing handle offset remaining →
    state.made = some handle.ino ∧ handle.chunkSize = chunkSize
  body : state.phase = .opening → stream.body.isSome

end StreamSystem

/-! ## Paths -/

namespace Volume

variable {before after volume : Volume} {name path : Text} {ino start : Int} {place : List Text}

/-- A path without a name is not led by the entries of that name. -/
theorem walk_of_label (same : ∀ parent label, label ≠ name → after.child parent label = before.child parent label)
    (apart : name ∉ place) : AgentFS.walk after start place = AgentFS.walk before start place := by
  induction place using List.reverseRecOn with
  | nil => rfl
  | append_singleton front label ih =>
    rw [List.mem_append, List.mem_singleton, not_or] at apart
    rw [walk_concat, walk_concat, ih apart.1]
    congr
    funext parent
    exact same parent label (Ne.symm apart.2)

/-- Where a path ends, an entry leads there. -/
theorem named_of_resolve (resolved : AgentFS.resolvePath volume path = some ino) (below : ino ≠ ROOT_INO) :
    ∃ parts label parent, fields '/' path = parts ++ [label] ∧ AgentFS.walk volume ROOT_INO parts = some parent ∧
      volume.child parent label = some ino := by
  rw [AgentFS.resolvePath_eq] at resolved
  rcases List.eq_nil_or_concat (fields '/' path) with root | ⟨parts, label, spelled⟩
  · rw [root] at resolved
    exact absurd (Option.some.inj resolved).symm below
  · rw [List.concat_eq_append] at spelled
    rw [spelled, walk_concat, Option.bind_eq_some_iff] at resolved
    obtain ⟨parent, walked, found⟩ := resolved
    exact ⟨parts, label, parent, spelled, walked, found⟩

/-- Nobody gets to the inode by a path that has not its name. -/
theorem Sole.unseen (sole : volume.Sole name ino) (below : ROOT_INO < ino) (apart : name ∉ fields '/' path) :
    AgentFS.resolvePath volume path ≠ some ino := by
  intro resolved
  obtain ⟨parts, label, parent, spelled, _, found⟩ := named_of_resolve resolved below.ne'
  apply apart
  rw [spelled, ← (sole parent label found).1]
  simp

theorem SameView.refl (volume : Volume) (path : Text) : volume.SameView volume path := ⟨rfl, fun ino _ => .refl ino volume⟩

theorem Untouched.same (untouched : Untouched ino before after) : SameNode ino before after :=
  ⟨by rw [untouched.inode], untouched.chunks, untouched.symlink⟩

theorem SameView.of_touches (touches : Touches ino before after) (unseen : AgentFS.resolvePath before path ≠ some ino) :
    before.SameView after path := by
  refine ⟨by rw [AgentFS.resolvePath_eq, touches.walks, ← AgentFS.resolvePath_eq], fun other resolved => ?_⟩
  refine (touches.untouched ?_).same
  rintro rfl
  exact unseen resolved

end Volume

/-! ## Statements on one file -/

namespace AgentFSFile

variable {file : AgentFSFile} {volume volume' : Volume} {offset : Nat} {data : Bytes}

/-- A write leaves what it does not set. -/
theorem pwrite_kept {β : Type} {field : InodeRow → β} (kept : ∀ row size mtime, field { row with size, mtime } = field row)
    (written : file.pwrite volume offset data = .ok volume') :
    (volume'.inode? file.ino).map field = (volume.inode? file.ino).map field := by
  unfold pwrite at written
  split at written
  · rw [← pure_eq_ok.mp written]
  · dsimp only at written
    rw [Volume.resizeInode_ok _ _ _ written, Volume.inode?_modifyInode, Volume.inode?_updateInode, Option.map_map]
    have gap : Volume.Rewrites file.ino volume (if offset > file.currentSize volume then
        file.writeDataAtOffset volume (file.currentSize volume) (List.replicate (offset - file.currentSize volume) 0)
        else volume) := by
      split
      · exact writeDataAtOffset_rewrites _ _ _ _
      · exact .refl _ _
    obtain ⟨⟨table, same⟩, _⟩ := gap.trans (writeDataAtOffset_rewrites file _ offset data)
    rw [same]
    change (volume.inode? file.ino).map _ = _
    congr 1
    funext row
    simp only [Function.comp, Volume.changeRow]
    split
    · exact kept row _ _
    · rfl

/-- A write leaves the mode. -/
theorem pwrite_mode (written : file.pwrite volume offset data = .ok volume') :
    (volume'.inode? file.ino).map (·.mode) = (volume.inode? file.ino).map (·.mode) :=
  pwrite_kept (fun _ _ _ => rfl) written

/-- Writing into an inode that may be gone keeps the tree. -/
theorem pwrite_tree (tree : volume.DirectoryTree) (known : file.ino ≤ volume.inodeSequence)
    (written : file.pwrite volume offset data = .ok volume') : volume'.DirectoryTree := by
  have mode := pwrite_mode written
  refine tree.touches_same (pwrite_touches written).1 known ?_ ?_
  · rintro ⟨row, stored⟩
    rw [stored, Option.map_some, Option.map_eq_some_iff] at mode
    obtain ⟨row', stored', _⟩ := mode
    exact ⟨row', stored'⟩
  · unfold Volume.Directory
    cases stored : volume.inode? file.ino with
    | none =>
      rw [stored, Option.map_none, Option.map_eq_none_iff] at mode
      simp [mode]
    | some row =>
      rw [stored, Option.map_some, Option.map_eq_some_iff] at mode
      obtain ⟨row', stored', same⟩ := mode
      simp [stored', same]

end AgentFSFile

namespace AgentFS

variable {volume volume' : Volume} {ino : Int} {path name : Text} {chunkSize : Nat}

theorem openFile_resolved {handle : AgentFSFile} (opened : openFile volume chunkSize path = .ok handle) :
    resolvePath volume path = some handle.ino ∧ handle.chunkSize = chunkSize := by
  obtain ⟨⟨normalizedPath, ino⟩, resolved, opened⟩ := bind_eq_ok.mp opened
  obtain ⟨_, _, returned⟩ := bind_eq_ok.mp opened
  rw [← pure_eq_ok.mp returned]
  exact ⟨(resolvePathOrThrow_ok resolved).2, rfl⟩

/-- A path that leads nowhere is removed without a trace. -/
theorem rm_missing (missing : resolvePath volume path = none) : settle volume (rm volume path true false) = volume := by
  unfold rm
  dsimp only
  rw [resolvePath_normalizePath, missing]
  unfold refuse
  split <;> rfl

/-- A file is removed with its entry. -/
theorem rm_file {content : Bytes} (resolved : resolvePath volume path = some ino) (below : ino ≠ ROOT_INO)
    (stored : volume.Stored chunkSize ino (.file content)) : ∃ parts label parent, fields '/' path = parts ++ [label] ∧
      volume.child parent label = some ino ∧
      rm volume path true false = .ok (removeDentryAndMaybeInode volume parent label ino) := by
  obtain ⟨parts, label, parent, spelled, walked, found⟩ := Volume.named_of_resolve resolved below
  obtain ⟨_, row, known, regular⟩ := stored
  have above : resolveParent volume (normalizePath path) = some (parent, label) := by
    rw [resolveParent_normalizePath]
    exact resolveParent_eq_some.mpr ⟨parts, spelled, walked⟩
  have inner : ¬normalizePath path = ['/'] := by
    intro root
    rw [← fields_normalizePath, root, fields_cons_sep, fields_nil] at spelled
    simp at spelled
  refine ⟨parts, label, parent, spelled, found, ?_⟩
  unfold rm
  dsimp only
  rw [refuse_of_not inner, ok_bind, resolvePath_normalizePath, resolved]
  dsimp only
  rw [getInodeMode, known, Option.map_some]
  dsimp only
  rw [above]
  simp only [required, ok_bind]
  rw [isDirectory_of_isRegular regular]
  rfl

theorem rename_missing {newPath : Text} (missing : resolvePath volume path = none) (different : fields '/' path ≠ fields '/' newPath) :
    ∀ volume', rename volume path newPath ≠ .ok volume' := by
  intro volume' renamed
  unfold rename at renamed
  dsimp only at renamed
  split at renamed
  · rename_i same
    exact different (by rw [← fields_normalizePath, same, fields_normalizePath])
  · obtain ⟨_, _, renamed⟩ := bind_eq_ok.mp renamed
    obtain ⟨_, _, renamed⟩ := bind_eq_ok.mp renamed
    obtain ⟨_, _, renamed⟩ := bind_eq_ok.mp renamed
    obtain ⟨⟨_, ino⟩, resolved, _⟩ := bind_eq_ok.mp renamed
    have here := (resolvePathOrThrow_ok resolved).2
    rw [resolvePath_normalizePath, missing] at here
    cases here

end AgentFS

/-! ## One step of the call -/

namespace StreamSystem

open Volume

variable {stream : FileStream} {chunkSize : Nat} {state : StreamSystem} {volume' : Volume}

/-- What a step of an unfinished call leads to. -/
structure Progress (stream : FileStream) (chunkSize : Nat) (before after : StreamSystem) : Prop where
  shown : before.volume.SameView after.volume stream.path ∨ after.phase = .resolved ∧ after.Complete stream chunkSize
  sound : after.finished = false → after.Sound stream chunkSize
  clean : ∀ failure, after.phase = .rejected failure → ∀ ino, after.made = some ino → ¬after.volume.Named ino

theorem flatten_chunksOf {size : Nat} (positive : 0 < size) (value : Bytes) :
    ((AgentFS.chunksOf size value).map Prod.snd).flatten = value := by
  have taken : ∀ count, ((List.range count).map fun index => (value.drop (index * size)).take size).flatten = value.take (count * size) := by
    intro count
    induction count with
    | zero => simp
    | succ count ih => rw [List.range_succ, List.map_append, List.flatten_append, ih, List.map_singleton, List.flatten_singleton,
        Nat.succ_mul, List.take_add]
  have enough : value.length ≤ (value.length + size - 1) / size * size := by
    have cover := Nat.lt_mul_div_succ (value.length + size - 1) positive
    rw [Nat.mul_add, Nat.mul_one, Nat.mul_comm] at cover
    omega
  unfold AgentFS.chunksOf
  rw [List.map_map]
  exact (taken _).trans (List.take_of_length_le enough)

theorem flatten_pieces (stream : FileStream) : stream.pieces.flatten = stream.content := by
  unfold FileStream.pieces FileStream.content
  cases stream.body with
  | none => rfl
  | some body =>
    dsimp only
    induction body.values with
    | nil => rfl
    | cons value values ih =>
      rw [List.flatMap_cons, List.flatten_append, ih, flatten_chunksOf (by decide), List.flatten_cons]

/-- The directory of the path is where it was when an entry of it is replaced. -/
theorem walk_moved {newParent : Int} {name : Text} {parts : List Text} {ino oldParent : Int} (tree : state.volume.DirectoryTree)
    (moves : Moves oldParent stream.uploadName newParent name ino state.volume volume')
    (apart : stream.uploadName ∉ parts) (reached : AgentFS.walk state.volume ROOT_INO parts = some newParent) :
    ∀ front, front <+: parts → AgentFS.walk volume' ROOT_INO front = AgentFS.walk state.volume ROOT_INO front := by
  intro front
  induction front using List.reverseRecOn with
  | nil => exact fun _ => rfl
  | append_singleton front label ih =>
    intro shorter
    have within : front <+: parts := (List.prefix_append front [label]).trans shorter
    obtain ⟨rest, whole⟩ := shorter
    rw [walk_concat, walk_concat, ih within]
    cases walked : AgentFS.walk state.volume ROOT_INO front with
    | none => rfl
    | some current =>
      rw [Option.bind_some, Option.bind_some, moves.children, if_neg, if_neg]
      · rintro ⟨_, rfl⟩
        exact apart (by rw [← whole]; simp)
      · rintro ⟨rfl, rfl⟩
        -- The parent would be above itself.
        have next : ∃ number, state.volume.child current label = some number := by
          rw [← whole, List.append_assoc, AgentFS.walk_append, walked, Option.bind_some, AgentFS.walk_append,
            Option.bind_eq_some_iff] at reached
          obtain ⟨number, found, _⟩ := reached
          rw [AgentFS.walk_single] at found
          exact ⟨number, found⟩
        obtain ⟨number, found⟩ := next
        have same := tree.walk_unique (tree.holder found) walked reached
        have lengths := congrArg List.length whole
        rw [← same] at lengths
        simp at lengths

namespace Sound

variable (sound : state.Sound stream chunkSize)

include sound

theorem unseen (unguessed : stream.Unguessed) {ino : Int} (made : state.made = some ino) :
    AgentFS.resolvePath state.volume stream.path ≠ some ino :=
  (sound.sole ino made).unseen (sound.known ino made).1 unguessed.apart

/-- Steps that only read. -/
theorem quiet {phase : StreamPhase} (filled : ∀ content, state.Filled stream content → Filled stream { state with phase } content)
    (handle : ∀ handle offset remaining, phase = .writing handle offset remaining →
      state.made = some handle.ino ∧ handle.chunkSize = chunkSize)
    (body : phase = .opening → stream.body.isSome) (going : ({ state with phase } : StreamSystem).finished = false) :
    Progress stream chunkSize state { state with phase } where
  shown := .inl (.refl state.volume stream.path)
  sound _ := {
    tree := sound.tree
    valid := sound.valid
    sole := sound.sole
    known := sound.known
    filled := fun ino made named => by
      obtain ⟨content, stored, held⟩ := sound.filled ino made named
      exact ⟨content, stored, filled content held⟩
    handle := handle
    body := body }
  clean failure rejected := by
    rw [finished, rejected] at going
    cases going

theorem fails (failure : Failure) : Progress stream chunkSize state { state with phase := .cleanUp failure } :=
  sound.quiet (fun _ _ => trivial) nofun nofun rfl

/-- The file comes up under the hidden name. -/
theorem creates (unguessed : stream.Unguessed) (missing : AgentFS.resolvePath state.volume stream.temp = none)
    (written : AgentFS.writeFile state.volume chunkSize stream.temp [] = .ok volume') : Progress stream chunkSize state {
      volume := volume'
      phase := if stream.body.isSome then .opening else .validate
      made := AgentFS.resolvePath volume' stream.temp } := by
  obtain ⟨parts, name, ino, spelled, plants, stored⟩ := writeFile_plants sound.tree missing written
  have place := unguessed.fields_temp
  rw [spelled] at place
  obtain ⟨above, named⟩ := List.append_inj' place rfl
  obtain rfl := List.singleton_inj.mp named
  have made : AgentFS.resolvePath volume' stream.temp = some ino := by
    rw [AgentFS.resolvePath_eq, spelled]
    exact plants.reached
  have low := sound.tree.rooted
  have fresh := plants.fresh
  have sole : volume'.Sole stream.uploadName ino := by
    intro parent label found
    obtain ⟨rfl, walked⟩ := plants.sole parent label found
    refine ⟨rfl, fun other label' found' => ?_⟩
    obtain ⟨_, walked'⟩ := plants.sole other label' found'
    exact Option.some.inj (walked'.symm.trans walked)
  have apart : fields '/' stream.path = [] ∨ ¬fields '/' stream.path <+: parts ++ [stream.uploadName] := by
    refine (FileStream.fields_path sound.valid).imp id ?_
    rintro ⟨label, beside⟩ shorter
    rw [beside, above] at shorter
    have same := shorter.eq_of_length (by simp)
    obtain ⟨_, named⟩ := List.append_inj' same rfl
    apply unguessed.apart
    rw [beside, List.singleton_inj.mp named]
    simp
  have view : AgentFS.resolvePath volume' stream.path = AgentFS.resolvePath state.volume stream.path := by
    rw [AgentFS.resolvePath_eq, AgentFS.resolvePath_eq]
    rcases apart with root | other
    · rw [root]
      rfl
    · exact plants.walks _ other
  rw [made]
  refine ⟨.inl ⟨view, fun other resolved => ?_⟩, fun _ => ⟨plants.tree, sound.valid, ?_, ?_, ?_, ?_, ?_⟩, ?_⟩
  · rw [AgentFS.resolvePath_eq] at resolved
    exact (plants.nodes other (sound.tree.walk_le resolved)).same
  · intro number same
    rw [← Option.some.inj same]
    exact sole
  · intro number same
    rw [← Option.some.inj same]
    exact ⟨by omega, plants.tree.walk_le plants.reached⟩
  · intro number same _
    rw [← Option.some.inj same]
    refine ⟨[], stored, ?_⟩
    cases body : stream.body with
    | none => simp [Filled, FileStream.content, body]
    | some values => simp [Filled]
  · intro handle offset remaining writing
    dsimp only at writing
    split at writing <;> cases writing
  · intro opening
    dsimp only at opening
    split at opening
    · assumption
    · cases opening
  · intro failure rejected
    dsimp only at rejected
    split at rejected <;> cases rejected

/-- A buffer goes to the end of the file, if the file is still there. -/
theorem writes {handle : AgentFSFile} {offset : Nat} {piece : Bytes} {remaining : List Bytes} (positive : 0 < chunkSize)
    (unguessed : stream.Unguessed) (writing : state.phase = .writing handle offset (piece :: remaining))
    (written : handle.pwrite state.volume offset piece = .ok volume') :
    Progress stream chunkSize state { state with volume := volume', phase := .writing handle (offset + piece.length) remaining } := by
  obtain ⟨made, sized⟩ := sound.handle handle offset _ writing
  obtain ⟨touches, _⟩ := AgentFSFile.pwrite_touches written
  have children := child_congr touches.dentry
  have unseen := sound.unseen unguessed made
  refine ⟨.inl (.of_touches touches unseen), fun _ => ⟨?_, sound.valid, ?_, ?_, ?_, ?_, nofun⟩, nofun⟩
  · exact AgentFSFile.pwrite_tree sound.tree (sound.known _ made).2 written
  · intro ino same
    unfold Sole
    rw [children]
    exact sound.sole ino same
  · intro ino same
    rw [touches.sequence]
    exact sound.known ino same
  · intro ino same named
    rw [made, Option.some.injEq] at same
    unfold Named at named
    rw [children] at named
    obtain ⟨content, stored, held⟩ := sound.filled ino (by rw [made, same]) named
    unfold Filled at held
    rw [writing] at held
    obtain ⟨rfl, whole⟩ := held
    rw [← same, ← sized] at stored
    refine ⟨content ++ piece, ?_, by simp, ?_⟩
    · rw [← same, ← sized]
      exact AgentFSFile.pwrite_appends (by rw [sized]; exact positive) written stored
    · rw [List.append_assoc, ← List.flatten_cons]
      exact whole
  · intro handle' offset' remaining' same
    cases same
    exact ⟨made, sized⟩

/-- The rename moves the entry of the whole file over that of the path. -/
theorem exchanges (unguessed : stream.Unguessed) (moving : state.phase = .rename) (placed : state.Placed stream)
    (renamed : AgentFS.rename state.volume stream.temp stream.path = .ok volume') : ∃ ino parent newParent name pieces,
      state.made = some ino ∧ fields '/' stream.path = pieces ++ [name] ∧
      AgentFS.walk state.volume ROOT_INO pieces = some newParent ∧ stream.uploadName ∉ pieces ∧ name ≠ stream.uploadName ∧
      state.volume.child newParent name ≠ some ino ∧ state.volume.Stored chunkSize ino (.file stream.content) ∧
      Moves parent stream.uploadName newParent name ino state.volume volume' := by
  have different : fields '/' stream.temp ≠ fields '/' stream.path := by
    intro same
    apply unguessed.apart
    rw [← same, unguessed.fields_temp]
    simp
  cases made : state.made with
  | none =>
    rw [Placed, made] at placed
    exact absurd renamed (AgentFS.rename_missing placed different _)
  | some ino =>
    rw [Placed, made] at placed
    rcases placed with here | missing
    · obtain ⟨below, _⟩ := sound.known ino made
      obtain ⟨parts, label, parent, spelled, walked, found⟩ := named_of_resolve here below.ne'
      obtain ⟨_, ⟨newParent, name⟩, target⟩ := (AgentFS.rename_parents renamed).resolve_left fun same => different same.1
      obtain ⟨rfl, _⟩ := sound.sole ino made parent label found
      obtain ⟨pieces, shape, reached⟩ := AgentFS.resolveParent_eq_some.mp target
      have source : AgentFS.resolveParent state.volume stream.temp = some (parent, stream.uploadName) :=
        AgentFS.resolveParent_eq_some.mpr ⟨parts, spelled, walked⟩
      have listed : name ∈ fields '/' stream.path := by
        rw [shape]
        simp
      have other : name ≠ stream.uploadName := by
        rintro rfl
        exact unguessed.apart listed
      obtain ⟨number, led, _, moves⟩ := AgentFS.rename_moves renamed source target fun same => other same.2.symm
      rw [found, Option.some.injEq] at led
      subst led
      have apart : stream.uploadName ∉ pieces := by
        intro member
        apply unguessed.apart
        rw [shape]
        exact List.mem_append_left _ member
      obtain ⟨content, stored, whole⟩ := sound.filled ino made ⟨parent, _, found⟩
      unfold Filled at whole
      rw [moving] at whole
      have unlike : state.volume.child newParent name ≠ some ino := fun led => other (sound.sole ino made _ _ led).1
      exact ⟨ino, parent, newParent, name, pieces, rfl, shape, reached, apart, other, unlike, whole ▸ stored, moves⟩
    · exact absurd renamed (AgentFS.rename_missing missing different _)

/-- The rename gives the path the whole file. -/
theorem renames (unguessed : stream.Unguessed) (moving : state.phase = .rename) (placed : state.Placed stream)
    (renamed : AgentFS.rename state.volume stream.temp stream.path = .ok volume') :
    Progress stream chunkSize state { state with volume := volume', phase := .resolved } := by
  obtain ⟨ino, parent, newParent, name, pieces, _, shape, reached, apart, _, unlike, stored, moves⟩ :=
    sound.exchanges unguessed moving placed renamed
  refine ⟨.inr ⟨rfl, ino, ?_, ?_⟩, nofun, nofun⟩
  · rw [AgentFS.resolvePath_eq, shape, walk_concat, walk_moved sound.tree moves apart reached pieces List.prefix_rfl, reached,
      Option.bind_some, moves.children, if_pos ⟨rfl, rfl⟩]
  · exact (moves.nodes ino unlike).stored stored

/-- The hidden name is removed, and nothing but that. -/
theorem cleans (unguessed : stream.Unguessed) {failure : Failure} (cleaning : state.phase = .cleanUp failure) (ready : state.Ready stream) :
    Progress stream chunkSize state { state with
      volume := settle state.volume (AgentFS.rm state.volume stream.temp true false)
      phase := .rejected failure } := by
  unfold Ready at ready
  rw [cleaning] at ready
  obtain ⟨placed, leads⟩ := ready
  cases made : state.made with
  | none =>
    rw [Placed, made] at placed
    rw [AgentFS.rm_missing placed]
    refine ⟨.inl (.refl _ _), nofun, ?_⟩
    intro _ _ ino same
    cases same
  | some ino =>
    rw [Placed, made] at placed
    rcases placed with here | missing
    · obtain ⟨below, _⟩ := sound.known ino made
      obtain ⟨parts, label, parent, spelled, walked, found⟩ := named_of_resolve here below.ne'
      obtain ⟨content, stored, _⟩ := sound.filled ino made ⟨parent, label, found⟩
      obtain ⟨parts', label', parent', _, found', removed⟩ := AgentFS.rm_file here below.ne' stored
      obtain ⟨rfl, only⟩ := sound.sole ino made parent' label' found'
      obtain ⟨_, _, _, nodes⟩ := removed_entry state.volume parent' stream.uploadName ino
      rw [removed]
      refine ⟨.inl ⟨?_, ?_⟩, nofun, ?_⟩
      · rw [AgentFS.resolvePath_eq, AgentFS.resolvePath_eq]
        refine walk_of_label (fun other label different => ?_) unguessed.apart
        rw [settle, child_removed, if_neg]
        exact fun same => different same.2
      · intro other resolved
        refine nodes other ?_
        rintro rfl
        exact sound.unseen unguessed made resolved
      · rintro _ _ number same ⟨other, label, led⟩
        dsimp only at same led
        rw [Option.some.injEq] at same
        rw [settle, child_removed] at led
        split at led
        · cases led
        · rename_i elsewhere
          rw [← same] at led
          exact elsewhere ⟨only other label led, (sound.sole ino made other label led).1⟩
    · rw [AgentFS.rm_missing missing]
      refine ⟨.inl (.refl _ _), nofun, ?_⟩
      intro _ _ number same named
      dsimp only at same named
      rw [Option.some.injEq] at same
      have here := leads ino made (by rw [same]; exact named)
      rw [missing] at here
      cases here

theorem progress (positive : 0 < chunkSize) (unguessed : stream.Unguessed) (busy : state.finished = false) (ready : state.Ready stream) :
    Progress stream chunkSize state (state.next stream chunkSize) := by
  unfold next
  cases phase : state.phase with
  | queueTemp => exact sound.quiet (fun _ held => by rw [Filled, phase] at held; exact held.elim) nofun nofun rfl
  | stat =>
    dsimp only
    split
    · exact sound.fails _
    · split
      · exact sound.quiet (fun _ held => by rw [Filled, phase] at held; exact held.elim) nofun nofun rfl
      · exact sound.fails _
  | create =>
    dsimp only
    split
    · exact sound.fails _
    · rename_i volume written
      rw [Ready, phase] at ready
      refine sound.creates unguessed ?_ written
      cases made : state.made with
      | none =>
        rw [Placed, made] at ready
        exact ready
      | some ino =>
        rw [Placed, made] at ready
        refine ready.resolve_left fun here => ?_
        obtain ⟨_, label, parent, _, _, found⟩ := named_of_resolve here (sound.known ino made).1.ne'
        obtain ⟨_, _, held⟩ := sound.filled ino made ⟨parent, label, found⟩
        rw [Filled, phase] at held
        exact held
  | opening =>
    dsimp only
    split
    · exact sound.fails _
    · rename_i handle opened
      obtain ⟨resolved, sized⟩ := AgentFS.openFile_resolved opened
      rw [Ready, phase] at ready
      refine sound.quiet (fun content held => ?_) (fun handle' offset remaining same => ?_) nofun rfl
      · rw [Filled, phase] at held
        rw [held]
        exact ⟨rfl, flatten_pieces stream⟩
      · obtain ⟨rfl, rfl, rfl⟩ := StreamPhase.writing.injEq .. ▸ same
        refine ⟨?_, sized⟩
        cases made : state.made with
        | none =>
          change state.Placed stream at ready
          rw [Placed, made, resolved] at ready
          cases ready
        | some ino =>
          change state.Placed stream at ready
          rw [Placed, made, resolved] at ready
          exact ready.resolve_right nofun |>.symm
  | writing handle offset remaining =>
    cases remaining with
    | nil =>
      dsimp only
      split
      · exact sound.fails _
      · refine sound.quiet (fun content held => ?_) nofun nofun rfl
        rw [Filled, phase] at held
        change content = stream.content
        simpa using held.2
    | cons piece remaining =>
      dsimp only
      split
      · exact sound.fails _
      · rename_i volume written
        exact sound.writes positive unguessed phase written
  | validate =>
    dsimp only
    split
    · exact sound.fails _
    · exact sound.quiet (fun _ held => by rw [Filled, phase] at held; exact held) nofun nofun rfl
  | queuePath => exact sound.quiet (fun _ held => by rw [Filled, phase] at held; exact held) nofun nofun rfl
  | rename =>
    dsimp only
    split
    · exact sound.fails _
    · rename_i volume renamed
      rw [Ready, phase] at ready
      exact sound.renames unguessed phase ready renamed
  | cleanUp failure => exact sound.cleans unguessed phase ready
  | resolved =>
    rw [finished, phase] at busy
    cases busy
  | rejected failure =>
    rw [finished, phase] at busy
    cases busy

/-- What others leave, the call can go on with. -/
theorem spared {volume : Volume} (treelike : state.Treelike volume) (spares : state.Spares stream volume) :
    Sound stream chunkSize { state with volume } where
  tree := treelike.tree
  valid := sound.valid
  sole := spares.sole
  known ino made := ⟨(sound.known ino made).1, (sound.known ino made).2.trans treelike.sequence⟩
  filled ino made named := by
    obtain ⟨before, same⟩ := spares.node ino made named
    obtain ⟨content, stored, held⟩ := sound.filled ino made before
    exact ⟨content, same.stored stored, held⟩
  handle := sound.handle
  body := sound.body

end Sound

/-! ## Runs -/

theorem start_sound {volume : Volume} (tree : volume.DirectoryTree) (busy : (start stream volume).finished = false) :
    (start stream volume).Sound stream chunkSize := by
  cases valid : stream.temporaryPath with
  | error failure =>
    rw [finished, start, valid] at busy
    cases busy
  | ok temp =>
    have hidden : stream.temporaryPath = .ok stream.temp := by
      obtain ⟨_, _, returned⟩ := bind_eq_ok.mp valid
      rw [valid, pure_eq_ok.mp returned]
    rw [start, valid]
    exact ⟨tree, hidden, nofun, nofun, nofun, nofun, nofun⟩

theorem next_finished (done : state.finished = true) : state.next stream chunkSize = state := by
  unfold finished at done
  unfold next
  split at done
  · rename_i phase
    rw [phase]
  · rename_i phase
    rw [phase]
  · cases done

theorem step_finished (done : state.finished = true) (action : Action) : (state.step stream chunkSize action).finished = true := by
  cases action with
  | next => rw [step, next_finished done, done]
  | others locks volume =>
    unfold step
    dsimp only
    split <;> exact done

theorem step_atomic {action : Action} (positive : 0 < chunkSize) (unguessed : stream.Unguessed)
    (sound : state.finished = false → state.Sound stream chunkSize) (undisturbed : state.Undisturbed stream action)
    (likely : state.Plausible action) : state.Atomic stream chunkSize action ∧
      ((state.step stream chunkSize action).finished = false → (state.step stream chunkSize action).Sound stream chunkSize) := by
  cases busy : state.finished with
  | true =>
    have done := @step_finished stream chunkSize state busy action
    refine ⟨⟨?_, fun going => ?_, fun going => ?_⟩, fun going => ?_⟩
    · rintro rfl
      rw [step, next_finished busy]
      exact .inl (.refl _ _)
    · rw [done] at going
      cases going
    · rw [busy] at going
      cases going
    · rw [done] at going
      cases going
  | false =>
    have here := sound busy
    have kept : (state.step stream chunkSize action).finished = false → (state.step stream chunkSize action).Sound stream chunkSize := by
      cases action with
      | next => exact (here.progress positive unguessed busy (undisturbed busy)).sound
      | others locks volume =>
        intro _
        unfold step
        dsimp only
        split
        · exact here
        · rename_i free
          exact here.spared likely (undisturbed busy (by simpa using free))
    refine ⟨⟨?_, fun going ino made => (kept going).unseen unguessed made, fun _ failure rejected => ?_⟩, kept⟩
    · rintro rfl
      exact (here.progress positive unguessed busy (undisturbed busy)).shown
    · cases action with
      | next => exact (here.progress positive unguessed busy (undisturbed busy)).clean failure rejected
      | others locks volume =>
        -- Another request does not end the call.
        have same : (state.step stream chunkSize (.others locks volume)).phase = state.phase := by
          unfold step
          dsimp only
          split <;> rfl
        rw [finished, ← same, rejected] at busy
        cases busy

/-- What is asked of every step of a run, in the state in which it is taken. -/
def Along (stream : FileStream) (chunkSize : Nat) (property : StreamSystem → Action → Prop) : StreamSystem → List Action → Prop
  | _, [] => True
  | state, action :: actions => property state action ∧ Along stream chunkSize property (state.step stream chunkSize action) actions

theorem run_atomic {actions : List Action} (positive : 0 < chunkSize) (unguessed : stream.Unguessed)
    (sound : state.finished = false → state.Sound stream chunkSize)
    (likely : Along stream chunkSize (fun state action => state.Plausible action) state actions)
    (undisturbed : Along stream chunkSize (fun state action => state.Undisturbed stream action) state actions) :
    Along stream chunkSize (fun state action => state.Atomic stream chunkSize action) state actions := by
  induction actions generalizing state with
  | nil => trivial
  | cons action actions ih =>
    obtain ⟨atomic, kept⟩ := step_atomic positive unguessed sound undisturbed.1 likely.1
    exact ⟨atomic, ih kept likely.2 undisturbed.2⟩

end StreamSystem

/-- In every run in which nobody else touches the temporary file, the write is atomic. -/
theorem writeFileStream_atomic {stream : FileStream} {chunkSize : Nat} {volume : Volume} {actions : List StreamSystem.Action}
    (positive : 0 < chunkSize) (unguessed : stream.Unguessed) (tree : volume.DirectoryTree)
    (likely : StreamSystem.Along stream chunkSize (fun state action => state.Plausible action) (.start stream volume) actions)
    (undisturbed : StreamSystem.Along stream chunkSize (fun state action => state.Undisturbed stream action) (.start stream volume) actions) :
    StreamSystem.Along stream chunkSize (fun state action => state.Atomic stream chunkSize action) (.start stream volume) actions :=
  StreamSystem.run_atomic positive unguessed (StreamSystem.start_sound tree) likely undisturbed

def streamSample : Volume :=
  { Volume.fresh 0 with
    inode := ⟨[InodeRow.root 0, { InodeRow.create DEFAULT_DIR_MODE 0 0 0 with ino := 2, nlink := 1 }], by decide⟩
    dentry := ⟨[⟨"d".toList, 1, 2⟩], by decide⟩
    inodeSequence := 2 }

theorem streamSample_tree : streamSample.DirectoryTree :=
  .of_entries (by decide) (by decide) (by decide) (by decide) (by decide) (by decide) (by decide)

/-- A stream for `/d/f`, which may break off. -/
def sampleStream (values : List Bytes) (failure : Option Failure) : FileStream where
  path := "/d/f".toList
  uuid := "0".toList
  body := some ⟨values, failure⟩
  access := true
  validateTemp := fun _ => .ok ()

theorem sampleStream_unguessed (values : List Bytes) (failure : Option Failure) : (sampleStream values failure).Unguessed where
  plain := show '/' ∉ "0".toList by decide
  apart := show ".airyfs-upload-".toList ++ "0".toList ∉ fields '/' "/d/f".toList by decide +kernel

theorem writeFileStream_atomic_alone : StreamSystem.Along (sampleStream [[1, 2]] none) 4
    (fun state action => state.Atomic (sampleStream [[1, 2]] none) 4 action) (.start (sampleStream [[1, 2]] none) streamSample)
    [.next, .next, .next, .next, .next, .next, .next, .next, .next] := by
  refine writeFileStream_atomic (by decide) (sampleStream_unguessed _ _) streamSample_tree ?_ ?_
  · exact ⟨trivial, trivial, trivial, trivial, trivial, trivial, trivial, trivial, trivial, trivial⟩
  · refine ⟨fun _ => ?_, fun _ => ?_, fun _ => ?_, fun _ => ?_, fun _ => ?_, fun _ => ?_, fun _ => ?_, fun _ => ?_, fun _ => ?_, trivial⟩ <;>
      decide +kernel

def brokenStream : FileStream := sampleStream [] (some (.error "upload interrupted"))

/-- The volume when the stream is read and the directory has been renamed. -/
def movedSample : Volume :=
  let opened := (StreamSystem.run brokenStream 4 (.start brokenStream streamSample) [.next, .next, .next, .next]).volume
  settle opened (AgentFS.rename opened "/d".toList "/e".toList)

def brokenRun : List StreamSystem.Action := [.next, .next, .next, .next, .others ["/d".toList, "/e".toList] movedSample, .next, .next]

/-- The directory moves away while the stream is read, and the stream breaks off. -/
theorem writeFileStream_leaves_file : ¬∀ (stream : FileStream) (chunkSize : Nat) (volume : Volume) (actions : List StreamSystem.Action),
    0 < chunkSize → stream.Unguessed → volume.DirectoryTree →
    StreamSystem.Along stream chunkSize (fun state action => state.Plausible action) (.start stream volume) actions →
    StreamSystem.Along stream chunkSize (fun state action => state.Atomic stream chunkSize action) (.start stream volume) actions := by
  intro claim
  have atomic := claim brokenStream 4 streamSample brokenRun (by decide) (sampleStream_unguessed _ _) streamSample_tree
    ⟨trivial, trivial, trivial, trivial, ⟨.of_entries (by decide +kernel) (by decide +kernel) (by decide +kernel) (by decide +kernel)
      (by decide +kernel) (by decide +kernel) (by decide +kernel), by decide +kernel⟩, trivial, trivial, trivial⟩
  obtain ⟨_, _, _, _, _, _, last, _⟩ := atomic
  let before := StreamSystem.run brokenStream 4 (.start brokenStream streamSample) (brokenRun.take 6)
  have going : before.finished = false := by decide +kernel
  have made : (before.step brokenStream 4 .next).made = some 3 := by decide +kernel
  have named : (before.step brokenStream 4 .next).volume.Named 3 := by decide +kernel
  have threw : (before.step brokenStream 4 .next).rejects = true := by decide +kernel
  cases phase : (before.step brokenStream 4 .next).phase with
  | rejected failure => exact last.clean going failure phase 3 made named
  | _ =>
    rw [StreamSystem.rejects, phase] at threw
    cases threw

end AiryFS
