import AiryFS.Transfer.Accepting
import AiryFS.Namespace.Tree

/-! What the encoder writes for a tree.

The entries of a directory are those of its children, one child after the other, each with
what is below it. So they come in order, and planting them gives the tree.
-/

set_option autoImplicit false

namespace AiryFS

open Foundation Relation

/-! ## Entries in order -/

namespace PathTree

/-- Every node below the root is in a directory. -/
def Closed (tree : PathTree) : Prop := ∀ path name, tree (path ++ [name]) ≠ none → tree path = some .directory

open Classical in
/-- The other tree, on these paths. -/
noncomputable def graft (before tree : PathTree) (inside : List Text → Prop) : PathTree :=
  fun path => if inside path then tree path else before path

/-- The entries put the tree on these paths, wherever there is nothing there yet and a root for them. -/
def Fills (tree : PathTree) (root : List Text) (inside : List Text → Prop) (entries : List (Text × TreeNode)) : Prop :=
  ∀ before : PathTree, (∀ front back, root = front ++ back → before front = some .directory) →
    (∀ path, inside path → before path = none) →
      before.Accepts entries ∧ before.plantAll entries = before.graft tree inside

variable {tree before : PathTree} {root path : List Text} {inside inside' : List Text → Prop}
  {entries entries' : List (Text × TreeNode)} {node : TreeNode} {name : Text}

theorem plant_of_directories (directories : ∀ front back, path.dropLast = front ++ back → tree front = some .directory) :
    tree.plant path node = Function.update tree path (some node) := by
  unfold plant
  split
  · rw [withDirectories_of_present]
    intro front back same _
    rw [List.nil_append, directories front back same]
    rfl
  · rfl

theorem accepts_append : before.Accepts (entries ++ entries') ↔
    before.Accepts entries ∧ (before.plantAll entries).Accepts entries' := by
  induction entries generalizing before with
  | nil => exact ⟨fun accepts => ⟨trivial, accepts⟩, fun accepts => accepts.2⟩
  | cons entry entries ih =>
    rw [List.cons_append, Accepts, Accepts, ih]
    simp only [plantAll, List.foldl_cons, and_assoc]

theorem Fills.nil (tree : PathTree) (root : List Text) : Fills tree root (fun _ => False) [] := by
  intro before _ _
  refine ⟨trivial, ?_⟩
  funext path
  simp [plantAll, graft]

theorem Fills.congr (fills : Fills tree root inside entries) (same : ∀ path, inside' path ↔ inside path) :
    Fills tree root inside' entries := by
  have equal : inside' = inside := funext fun path => propext (same path)
  rw [equal]
  exact fills

/-- Where the tree has nothing, nothing has to be put. -/
theorem Fills.mono (fills : Fills tree root inside entries) (wider : ∀ path, inside path → inside' path)
    (nothing : ∀ path, inside' path → ¬inside path → tree path = none) : Fills tree root inside' entries := by
  intro before directories free
  obtain ⟨accepts, planted⟩ := fills before directories fun path within => free path (wider path within)
  refine ⟨accepts, ?_⟩
  rw [planted]
  funext path
  unfold graft
  by_cases within : inside path
  · rw [if_pos within, if_pos (wider path within)]
  · rw [if_neg within]
    split
    · rename_i beyond
      rw [nothing path beyond within, free path beyond]
    · rfl

theorem Fills.append (first : Fills tree root inside entries) (second : Fills tree root inside' entries')
    (apart : ∀ path, inside path → ¬inside' path) (above : ∀ front back, root = front ++ back → ¬inside front) :
    Fills tree root (fun path => inside path ∨ inside' path) (entries ++ entries') := by
  intro before directories free
  obtain ⟨accepts, planted⟩ := first before directories fun path within => free path (.inl within)
  have kept : ∀ path, ¬inside path → before.plantAll entries path = before path := by
    intro path outside
    rw [planted, graft, if_neg outside]
  obtain ⟨accepts', planted'⟩ := second (before.plantAll entries)
    (fun front back same => by rw [kept front (above front back same), directories front back same])
    (fun path within => by rw [kept path fun also => apart path also within, free path (.inr within)])
  refine ⟨accepts_append.mpr ⟨accepts, accepts'⟩, ?_⟩
  have split : before.plantAll (entries ++ entries') = (before.plantAll entries).plantAll entries' := by
    simp only [plantAll, List.foldl_append]
  rw [split, planted', planted]
  funext path
  unfold graft
  by_cases first : inside path
  · simp [first, apart path first]
  · by_cases second : inside' path
    · simp [second]
    · simp [first, second]

/-- One entry, and what is below it. -/
theorem Fills.cons (valid : Separable '/' (root ++ [name])) (known : tree (root ++ [name]) = some node)
    (below : node = .directory →
      Fills tree (root ++ [name]) (fun path => ∃ label rest, path = root ++ name :: label :: rest) entries)
    (leaf : node ≠ .directory → entries = [] ∧ ∀ label rest, tree (root ++ name :: label :: rest) = none) :
    Fills tree root (fun path => ∃ rest, path = root ++ name :: rest) ((['/'].intercalate (root ++ [name]), node) :: entries) := by
  intro before directories free
  have spelled : fields '/' (['/'].intercalate (root ++ [name])) = root ++ [name] := fields_intercalate valid
  have filled : ['/'].intercalate (root ++ [name]) ≠ [] := by
    intro empty
    rw [empty, fields_nil] at spelled
    simp at spelled
  have parents : ∀ front back, (root ++ [name]).dropLast = front ++ back → before front = some .directory := by
    rw [List.dropLast_concat]
    exact directories
  have absent := free (root ++ [name]) ⟨[], rfl⟩
  have planted : before.plant (root ++ [name]) node = Function.update before (root ++ [name]) (some node) :=
    plant_of_directories parents
  unfold Accepts
  simp only [plantAll, List.foldl_cons, spelled, planted]
  suffices rest : PathTree.Accepts (Function.update before (root ++ [name]) (some node)) entries ∧
      PathTree.plantAll (Function.update before (root ++ [name]) (some node)) entries =
        before.graft tree fun path => ∃ rest, path = root ++ name :: rest from
    ⟨⟨filled, absent, parents, rest.1⟩, rest.2⟩
  by_cases kind : node = .directory
  · obtain ⟨accepts, final⟩ := below kind (Function.update before (root ++ [name]) (some node))
      (by
        intro front back same
        rcases List.eq_nil_or_concat back with none | ⟨others, last, concat⟩
        · rw [none, List.append_nil] at same
          rw [← same, Function.update_self, kind]
        · rw [concat, List.concat_eq_append, ← List.append_assoc] at same
          have above := (List.append_inj' same rfl).1
          rw [Function.update_of_ne, directories front others above]
          intro whole
          rw [whole] at above
          have lengths := congrArg List.length above
          simp at lengths)
      (by
        rintro path ⟨label, rest, rfl⟩
        rw [Function.update_of_ne, free _ ⟨label :: rest, rfl⟩]
        simp)
    refine ⟨accepts, ?_⟩
    rw [final]
    funext path
    unfold graft
    by_cases deep : ∃ label rest, path = root ++ name :: label :: rest
    · obtain ⟨label, rest, rfl⟩ := deep
      rw [if_pos ⟨label, rest, rfl⟩, if_pos ⟨label :: rest, rfl⟩]
    · rw [if_neg deep]
      by_cases own : path = root ++ [name]
      · rw [own, Function.update_self, if_pos ⟨[], rfl⟩, known]
      · rw [Function.update_of_ne own, if_neg]
        rintro ⟨rest, rfl⟩
        cases rest with
        | nil => exact own rfl
        | cons label rest => exact deep ⟨label, rest, rfl⟩
  · obtain ⟨rfl, nothing⟩ := leaf kind
    refine ⟨trivial, ?_⟩
    funext path
    unfold plantAll graft
    rw [List.foldl_nil]
    by_cases own : path = root ++ [name]
    · rw [own, Function.update_self, if_pos ⟨[], rfl⟩, known]
    · rw [Function.update_of_ne own]
      split
      · rename_i within
        obtain ⟨rest, rfl⟩ := within
        cases rest with
        | nil => exact absurd rfl own
        | cons label rest => rw [nothing, free _ ⟨label :: rest, rfl⟩]
      · rfl

end PathTree

/-! ## Reading the tree -/

namespace Archive

/-- A directory whose tree an archive can carry. -/
structure Source (volume : Volume) (chunkSize : Nat) (base : Int) (tree : PathTree) : Prop where
  lists : volume.Lists chunkSize base tree
  rooted : tree [] = some .directory
  closed : tree.Closed
  acyclic : Acyclic volume.Climbs
  names : ∀ path, tree path ≠ none → ∀ name ∈ path, ValidName name
  fits : ∀ path node, tree path = some node → Fits (['/'].intercalate path) node

variable {volume : Volume} {chunkSize : Nat} {base ino : Int} {tree : PathTree} {path : List Text} {name rel abs : Text}
  {node : TreeNode}

theorem encodeHeader_fits (fits : Fits rel node) : encodeHeader (headerOf rel node) =
    .ok (uint32 (headerBytes (headerOf rel node)).length ++ headerBytes (headerOf rel node)) := by
  have limit := fits.header
  unfold encodeHeader
  dsimp only
  rw [refuse_of_not (by omega)]
  rfl

theorem intercalate_concat (filled : path ≠ []) (name : Text) :
    ['/'].intercalate (path ++ [name]) = ['/'].intercalate path ++ '/' :: name := by
  induction path with
  | nil => exact absurd rfl filled
  | cons first rest ih =>
    cases rest with
    | nil => simp
    | cons second others =>
      rw [List.cons_append, List.intercalate_cons_of_ne_nil (by simp), ih (by simp), List.intercalate_cons_cons]
      simp only [List.append_assoc]

/-- The path of a child, as the encoder spells it. -/
theorem relative_eq (valid : ∀ name ∈ path, ValidName name) (name : Text) :
    (if ['/'].intercalate path = [] then name else ['/'].intercalate path ++ '/' :: name) =
      ['/'].intercalate (path ++ [name]) := by
  split
  · rename_i top
    have separable := ValidName.separable valid
    have none : path = [] := by
      have spelled : fields '/' (['/'].intercalate path) = path := fields_intercalate separable
      rw [top, fields_nil] at spelled
      exact spelled.symm
    rw [none, List.nil_append, List.intercalate_singleton]
  · rename_i below
    rw [intercalate_concat]
    rintro rfl
    exact below rfl

theorem fields_joinAbsolute (valid : ValidName name) (dirAbs : Text) :
    fields '/' (joinAbsolute dirAbs name) = fields '/' dirAbs ++ [name] := by
  have own : fields '/' name = [name] := by
    have single : Separable '/' [name] := ValidName.separable fun other member => by
      rw [List.mem_singleton.mp member]
      exact valid
    have spelled := fields_intercalate single
    rw [List.intercalate_singleton] at spelled
    exact spelled
  unfold joinAbsolute
  split
  · rename_i root
    rw [fields_cons_sep, own, root, fields_cons_sep, fields_nil, List.nil_append]
  · rw [fields_append_sep, own]

/-- The loop reads the file to its end. -/
theorem readFrom_laidOut {file : AgentFSFile} {content : Bytes} (positive : 0 < file.chunkSize)
    (laidOut : volume.LaidOut file.chunkSize file.ino content) (shown : Text) {rounds offset : Nat}
    (enough : content.length - offset ≤ rounds) (within : offset ≤ content.length) :
    ∃ chunks, readFrom volume file shown content.length rounds offset = .ok chunks ∧ chunks.flatten = content.drop offset := by
  induction rounds generalizing offset with
  | zero =>
    refine ⟨[], rfl, ?_⟩
    rw [List.drop_eq_nil_of_le (by omega), List.flatten_nil]
  | succ rounds ih =>
    unfold readFrom
    split
    · rename_i more
      have size : 0 < READ_CHUNK_SIZE := by decide
      have chunk := AgentFSFile.pread_laidOut laidOut positive offset (min READ_CHUNK_SIZE (content.length - offset))
      have length : (file.pread volume offset (min READ_CHUNK_SIZE (content.length - offset))).length =
          min READ_CHUNK_SIZE (content.length - offset) := by
        rw [chunk, List.length_take, List.length_drop]
        omega
      obtain ⟨rest, ran, flat⟩ := @ih (offset + (file.pread volume offset
        (min READ_CHUNK_SIZE (content.length - offset))).length) (by omega) (by omega)
      refine ⟨file.pread volume offset (min READ_CHUNK_SIZE (content.length - offset)) :: rest, ?_, ?_⟩
      · dsimp only
        rw [refuse_of_not (by omega)]
        simp only [bind, Except.bind, ran]
        rfl
      · rw [List.flatten_cons, flat, length, chunk, ← List.drop_drop, List.take_append_drop]
    · rename_i done
      refine ⟨[], rfl, ?_⟩
      rw [List.drop_eq_nil_of_le (by omega), List.flatten_nil]

theorem fileBytes_stored {content : Bytes} (positive : 0 < chunkSize) (resolved : AgentFS.resolvePath volume abs = some ino)
    (stored : volume.Stored chunkSize ino (.file content)) :
    ∃ chunks, fileBytes volume chunkSize abs content.length = .ok chunks ∧ chunks.flatten = content := by
  unfold fileBytes
  split
  · rename_i empty
    exact ⟨[], rfl, (List.length_eq_zero_iff.mp empty).symm⟩
  · obtain ⟨stores, row, found, regular⟩ := stored
    have opened : AgentFS.openFile volume chunkSize abs = .ok ⟨ino, chunkSize⟩ := by
      unfold AgentFS.openFile
      rw [AgentFS.resolvePathOrThrow_of_resolved resolved]
      simp only [bind, Except.bind]
      rw [refuse_of_not (by simp [AgentFS.knownDirectory, AgentFS.getInodeMode, found,
        AgentFS.isDirectory_of_isRegular regular])]
      rfl
    obtain ⟨chunks, ran, flat⟩ := @readFrom_laidOut volume ⟨ino, chunkSize⟩ content positive stores.laidOut abs content.length 0
      (by omega) (Nat.zero_le _)
    rw [opened]
    exact ⟨chunks, ran, flat⟩

theorem readlink_stored {target : Text} (resolved : AgentFS.resolvePath volume abs = some ino)
    (stored : volume.Stored chunkSize ino (.symlink target)) : AgentFS.readlink volume abs = .ok target := by
  obtain ⟨⟨row, found, kind⟩, linked⟩ := stored
  unfold AgentFS.readlink
  rw [AgentFS.resolvePathOrThrow_of_resolved resolved]
  simp only [bind, Except.bind]
  rw [refuse_of_not (by simp [AgentFS.getInodeMode, found, kind]), linked]
  rfl

theorem isDirectory_of_isSymlink {mode : Int} (link : isSymlink mode = true) : isDirectory mode = false := by
  unfold isSymlink at link
  unfold isDirectory
  rw [beq_iff_eq] at link
  rw [link]
  decide

theorem isSymlink_of_isRegular {mode : Int} (regular : isRegular mode = true) : isSymlink mode = false := by
  unfold isRegular at regular
  unfold isSymlink
  rw [beq_iff_eq] at regular
  rw [regular]
  decide

theorem stored_row (stored : volume.Stored chunkSize ino node) : ∃ row, volume.inode? ino = some row := by
  cases node with
  | directory =>
    obtain ⟨row, found, _⟩ := stored
    exact ⟨row, found⟩
  | file content =>
    obtain ⟨row, found, _⟩ := stored.2
    exact ⟨row, found⟩
  | symlink target =>
    obtain ⟨row, found, _⟩ := stored.1
    exact ⟨row, found⟩

/-! ## Children -/

/-- What `readdirPlus` lists of a directory. -/
def children (volume : Volume) (ino : Int) : List (Text × InodeRow) :=
  (AgentFS.entriesOf volume ino).filterMap fun entry => (volume.inode? entry.ino).map fun row => (entry.name, row)

theorem readdirPlus_stored (resolved : AgentFS.resolvePath volume abs = some ino)
    (stored : volume.Stored chunkSize ino .directory) : AgentFS.readdirPlus volume abs = .ok (children volume ino) := by
  obtain ⟨row, found, kind⟩ := stored
  unfold AgentFS.readdirPlus AgentFS.scandir
  rw [AgentFS.resolvePathOrThrow_of_resolved resolved]
  simp only [bind, Except.bind]
  rw [refuse_of_not (by simp [AgentFS.knownFile, AgentFS.getInodeMode, found, kind])]
  rfl

theorem mem_children {row : InodeRow} : (name, row) ∈ children volume ino ↔
    ∃ entry, volume.dentry? ino name = some entry ∧ volume.inode? entry.ino = some row := by
  unfold children AgentFS.entriesOf
  simp only [List.mem_filterMap, List.mem_insertionSort, List.mem_filter, decide_eq_true_eq, Option.map_eq_some_iff,
    Prod.mk.injEq]
  constructor
  · rintro ⟨entry, ⟨member, parent⟩, found, joined, named, rfl⟩
    refine ⟨entry, ?_, joined⟩
    have keyed := volume.dentry.find?_of_mem member
    rw [Volume.dentry?, ← parent, ← named]
    exact keyed
  · rintro ⟨entry, found, joined⟩
    have key := volume.dentry.find?_key found
    exact ⟨entry, ⟨volume.dentry.find?_mem found, congrArg Prod.fst key⟩, row, joined, congrArg Prod.snd key, rfl⟩

theorem nodup_children (volume : Volume) (ino : Int) : ((children volume ino).map Prod.fst).Nodup := by
  have keys : (volume.dentry.rows.filter fun entry => entry.parentIno = ino).Pairwise fun first second =>
      first.name ≠ second.name := by
    have unique := List.pairwise_map.mp volume.dentry.unique
    refine List.Pairwise.imp_of_mem ?_ (unique.filter _)
    intro first second left right different same
    rw [List.mem_filter, decide_eq_true_eq] at left right
    exact different (Prod.ext (left.2.trans right.2.symm) same)
  have sorted : (AgentFS.entriesOf volume ino).Pairwise fun first second => first.name ≠ second.name :=
    ((List.perm_insertionSort _ _).pairwise_iff fun different => Ne.symm different).mpr keys
  unfold children
  rw [List.Nodup, List.pairwise_map]
  refine sorted.filterMap _ ?_
  intro first second different left joined right joined'
  rw [Option.map_eq_some_iff] at joined joined'
  obtain ⟨_, _, rfl⟩ := joined
  obtain ⟨_, _, rfl⟩ := joined'
  exact different

/-! ## Depth -/

/-- A path below the base climbs through as many entries as it has names. -/
theorem length_le_entries (acyclic : Acyclic volume.Climbs) (reached : AgentFS.walk volume base path = some ino) :
    path.length ≤ volume.dentry.rows.length := by
  have climbed : path.length + 1 ≤ (closure volume.climbs ino).card := by
    induction path using List.reverseRecOn generalizing ino with
    | nil => exact Finset.card_pos.mpr ⟨ino, start_mem_closure volume.climbs ino⟩
    | append_singleton path name ih =>
      rw [AgentFS.walk_append, Option.bind_eq_some_iff] at reached
      obtain ⟨parent, above, step⟩ := reached
      rw [AgentFS.walk_single, Option.map_eq_some_iff] at step
      obtain ⟨entry, found, rfl⟩ := step
      have climbs : (entry.ino, parent) ∈ volume.climbs :=
        Volume.climbs_iff.mpr ⟨entry, volume.dentry.find?_mem found, rfl, congrArg Prod.fst (volume.dentry.find?_key found)⟩
      have fewer := Finset.card_lt_card (closure_ssubset volume.climbs acyclic climbs)
      have above := ih above
      rw [List.length_append, List.length_singleton]
      omega
  have bounded := (Finset.card_le_card (rounds_subset_reachBound volume.climbs ino volume.climbs.length)).trans
    (card_reachBound volume.climbs ino)
  have edges : volume.climbs.length = volume.dentry.rows.length := List.length_map _
  unfold Foundation.closure at climbed
  omega

/-! ## The walk -/

/-- The frames of some entries, which fill the paths of the tree. -/
def Spells (tree : PathTree) (root : List Text) (inside : List Text → Prop) (frames : List Bytes) : Prop :=
  ∃ entries, frames.flatten = entries.flatMap frame ∧ (∀ entry ∈ entries, Carried entry) ∧ tree.Fills root inside entries

theorem Source.listed (source : Source volume chunkSize base tree) (known : tree path = some node) :
    ∃ ino, AgentFS.walk volume base path = some ino ∧ volume.Stored chunkSize ino node := by
  have listed := source.lists path
  rw [known] at listed
  exact listed

theorem Source.known (source : Source volume chunkSize base tree) (reached : AgentFS.walk volume base path = some ino) :
    ∃ node, tree path = some node ∧ volume.Stored chunkSize ino node := by
  have listed := source.lists path
  cases found : tree path with
  | none =>
    rw [found, reached] at listed
    cases listed
  | some node =>
    rw [found] at listed
    obtain ⟨number, walked, stored⟩ := listed
    rw [reached, Option.some.injEq] at walked
    exact ⟨node, rfl, by rw [walked]; exact stored⟩

/-- Nothing is below what is not there. -/
theorem Source.nothing (source : Source volume chunkSize base tree) (absent : tree path = none) (rest : List Text) :
    tree (path ++ rest) = none := by
  by_contra present
  obtain ⟨node, known⟩ := Option.ne_none_iff_exists'.mp present
  obtain ⟨ino, reached, _⟩ := source.listed known
  rw [AgentFS.walk_append, Option.bind_eq_some_iff] at reached
  obtain ⟨middle, above, _⟩ := reached
  obtain ⟨other, found, _⟩ := source.known above
  rw [absent] at found
  cases found

/-- Only a directory has something below it. -/
theorem Source.leaf (source : Source volume chunkSize base tree) (known : tree path = some node) (kind : node ≠ .directory)
    (label : Text) (rest : List Text) : tree (path ++ label :: rest) = none := by
  have single : path ++ label :: rest = (path ++ [label]) ++ rest := by simp
  rw [single]
  apply source.nothing
  by_contra present
  have directory := source.closed path label present
  rw [known, Option.some.injEq] at directory
  exact kind directory

theorem Source.carried (source : Source volume chunkSize base tree) (known : tree path = some node) :
    Carried (['/'].intercalate path, node) :=
  ⟨⟨path, source.names path (by rw [known]; simp), rfl⟩, source.fits path node known⟩

/-- One child, with what is below it. -/
theorem entryFrames_spells (positive : 0 < chunkSize) (source : Source volume chunkSize base tree) {place : List Text}
    {dirAbs : Text} {row : InodeRow} {below : Text → Text → Except Failure (List Bytes)}
    (located : AgentFS.walk volume ROOT_INO place = some base) (spelled : fields '/' dirAbs = place ++ path)
    (reached : AgentFS.walk volume base path = some ino) (listed : (name, row) ∈ children volume ino)
    (recursion : ∀ number abs, AgentFS.walk volume base (path ++ [name]) = some number →
      tree (path ++ [name]) = some .directory → fields '/' abs = place ++ (path ++ [name]) →
      ∃ frames, below abs (['/'].intercalate (path ++ [name])) = .ok frames ∧
        Spells tree (path ++ [name]) (fun other => ∃ label rest, other = path ++ name :: label :: rest) frames) :
    ∃ frames, entryFrames volume chunkSize below dirAbs (['/'].intercalate path) (name, row) = .ok frames ∧
      Spells tree path (fun other => ∃ rest, other = path ++ name :: rest) frames := by
  obtain ⟨entry, found, joined⟩ := mem_children.mp listed
  have walked : AgentFS.walk volume base (path ++ [name]) = some entry.ino := by
    rw [AgentFS.walk_append, reached, Option.bind_some, AgentFS.walk_single, found]
    rfl
  obtain ⟨node, known, stored⟩ := source.known walked
  have names := source.names (path ++ [name]) (by rw [known]; simp)
  have own := names name (by simp)
  have relative := relative_eq (fun other member => names other (List.mem_append_left [name] member)) name
  have absolute : fields '/' (joinAbsolute dirAbs name) = place ++ (path ++ [name]) := by
    rw [fields_joinAbsolute own, spelled, List.append_assoc]
  have resolved : AgentFS.resolvePath volume (joinAbsolute dirAbs name) = some entry.ino := by
    rw [AgentFS.resolvePath_eq, absolute, AgentFS.walk_append, located, Option.bind_some, walked]
  have fits := source.fits (path ++ [name]) node known
  have separable := ValidName.separable names
  have encoded := encodeHeader_fits fits
  unfold entryFrames
  dsimp only
  rw [relative]
  cases node with
  | directory =>
    obtain ⟨row', found', kind⟩ := stored
    rw [joined, Option.some.injEq] at found'
    rw [← found'] at kind
    obtain ⟨frames, ran, entries, flat, carried, fills⟩ := recursion entry.ino _ walked known absolute
    change encodeHeader { t := .directory, p := ['/'].intercalate (path ++ [name]), s := none, l := none } = _ at encoded
    rw [if_pos kind, encoded]
    simp only [bind, Except.bind, ran]
    refine ⟨_, rfl, (['/'].intercalate (path ++ [name]), .directory) :: entries, ?_, ?_, ?_⟩
    · simp [frame, bodyOf, flat]
    · intro other member
      rcases List.mem_cons.mp member with rfl | later
      · exact source.carried known
      · exact carried other later
    · exact .cons separable known (fun _ => fills) fun other => absurd rfl other
  | symlink target =>
    obtain ⟨row', found', kind⟩ := stored.1
    rw [joined, Option.some.injEq] at found'
    rw [← found'] at kind
    change encodeHeader { t := .symlink, p := ['/'].intercalate (path ++ [name]), s := none, l := some target } = _ at encoded
    rw [if_neg (by rw [isDirectory_of_isSymlink kind]; simp), if_pos kind, readlink_stored resolved stored]
    simp only [bind, Except.bind, encoded]
    refine ⟨_, rfl, [(['/'].intercalate (path ++ [name]), .symlink target)], ?_, ?_, ?_⟩
    · simp [frame, bodyOf]
    · intro other member
      rw [List.mem_singleton.mp member]
      exact source.carried known
    · refine .cons separable known (fun other => by cases other) fun kind => ⟨rfl, ?_⟩
      intro label rest
      have nothing := source.leaf known kind label rest
      rw [List.append_assoc, List.singleton_append] at nothing
      exact nothing
  | file content =>
    obtain ⟨row', found', kind⟩ := stored.2
    rw [joined, Option.some.injEq] at found'
    rw [← found'] at kind
    obtain ⟨sized, found, _, size⟩ := stored.1.file
    rw [joined, Option.some.injEq] at found
    rw [← found] at size
    obtain ⟨chunks, ran, flat⟩ := fileBytes_stored positive resolved stored
    change encodeHeader { t := .file, p := ['/'].intercalate (path ++ [name]), s := some content.length, l := none } = _ at encoded
    rw [if_neg (by rw [AgentFS.isDirectory_of_isRegular kind]; simp), if_neg (by rw [isSymlink_of_isRegular kind]; simp),
      if_pos kind, size, encoded]
    simp only [bind, Except.bind, ran]
    refine ⟨_, rfl, [(['/'].intercalate (path ++ [name]), .file content)], ?_, ?_, ?_⟩
    · simp [frame, bodyOf, flat]
    · intro other member
      rw [List.mem_singleton.mp member]
      exact source.carried known
    · refine .cons separable known (fun other => by cases other) fun kind => ⟨rfl, ?_⟩
      intro label rest
      have nothing := source.leaf known kind label rest
      rw [List.append_assoc, List.singleton_append] at nothing
      exact nothing

/-- All children, one after the other. -/
theorem mapM_spells {Child : Type} {named : Child → Text} {step : Child → Except Failure (List Bytes)} {listed : List Child}
    (distinct : (listed.map named).Nodup) (each : ∀ child ∈ listed, ∃ frames, step child = .ok frames ∧
      Spells tree path (fun other => ∃ rest, other = path ++ named child :: rest) frames) :
    ∃ frames, listed.mapM step = .ok frames ∧
      Spells tree path (fun other => ∃ child ∈ listed, ∃ rest, other = path ++ named child :: rest) frames.flatten := by
  induction listed with
  | nil =>
    refine ⟨[], rfl, [], rfl, fun _ member => (by cases member), ?_⟩
    exact (PathTree.Fills.nil tree path).congr fun other => by simp
  | cons child rest ih =>
    rw [List.map_cons, List.nodup_cons] at distinct
    obtain ⟨frames, ran, entries, flat, carried, fills⟩ := each child List.mem_cons_self
    obtain ⟨more, moreRan, later, laterFlat, laterCarried, laterFills⟩ :=
      ih distinct.2 fun other member => each other (List.mem_cons_of_mem _ member)
    refine ⟨frames :: more, ?_, entries ++ later, ?_, ?_, ?_⟩
    · rw [List.mapM_cons, ran]
      simp only [bind, Except.bind, moreRan]
      rfl
    · rw [List.flatten_cons, List.flatten_append, flat, laterFlat, List.flatMap_append]
    · intro entry member
      rcases List.mem_append.mp member with first | second
      · exact carried entry first
      · exact laterCarried entry second
    · refine (fills.append laterFills ?_ ?_).congr ?_
      · rintro other ⟨tail, rfl⟩ ⟨sibling, member, tail', same⟩
        have heads := List.append_cancel_left same
        rw [List.cons.injEq] at heads
        exact distinct.1 (by rw [heads.1]; exact List.mem_map_of_mem member)
      · rintro front back same ⟨tail, rfl⟩
        have lengths := congrArg List.length same
        simp at lengths
      · intro other
        simp

theorem walk_spells (positive : 0 < chunkSize) (source : Source volume chunkSize base tree) {place : List Text}
    (located : AgentFS.walk volume ROOT_INO place = some base) {depth : Nat} {dirAbs : Text}
    (reached : AgentFS.walk volume base path = some ino) (directory : tree path = some .directory)
    (spelled : fields '/' dirAbs = place ++ path) (deep : depth + path.length = volume.dentry.rows.length + 1) :
    ∃ frames, walk volume chunkSize depth dirAbs (['/'].intercalate path) = .ok frames ∧
      Spells tree path (fun other => ∃ label rest, other = path ++ label :: rest) frames := by
  induction depth generalizing path ino dirAbs with
  | zero =>
    have bound := length_le_entries source.acyclic reached
    omega
  | succ depth ih =>
    have resolved : AgentFS.resolvePath volume dirAbs = some ino := by
      rw [AgentFS.resolvePath_eq, spelled, AgentFS.walk_append, located, Option.bind_some, reached]
    obtain ⟨node, known, stored⟩ := source.known reached
    rw [directory, Option.some.injEq] at known
    rw [← known] at stored
    have permuted := List.perm_insertionSort Sorted (children volume ino)
    obtain ⟨frames, ran, spells⟩ := @mapM_spells tree path _ Prod.fst
      (entryFrames volume chunkSize (walk volume chunkSize depth) dirAbs (['/'].intercalate path))
      ((children volume ino).insertionSort Sorted)
      ((permuted.map Prod.fst).nodup_iff.mpr (nodup_children volume ino)) (by
        rintro ⟨name, row⟩ member
        refine entryFrames_spells positive source located spelled reached (permuted.mem_iff.mp member) ?_
        intro number abs walked kind named
        obtain ⟨frames, ran, spells⟩ := ih walked kind named (by rw [List.length_append, List.length_singleton]; omega)
        refine ⟨frames, ran, ?_⟩
        simpa only [List.append_assoc, List.singleton_append] using spells)
    refine ⟨frames.flatten, ?_, ?_⟩
    · unfold walk
      rw [readdirPlus_stored resolved stored]
      simp only [bind, Except.bind, ran]
      rfl
    · obtain ⟨entries, flat, carried, fills⟩ := spells
      refine ⟨entries, flat, carried, fills.mono ?_ ?_⟩
      · rintro other ⟨child, _, rest, rfl⟩
        exact ⟨child.1, rest, rfl⟩
      · rintro other ⟨label, rest, rfl⟩ unlisted
        have single : path ++ label :: rest = (path ++ [label]) ++ rest := by simp
        rw [single]
        apply source.nothing
        -- A child in the tree is listed.
        by_contra present
        obtain ⟨child, known⟩ := Option.ne_none_iff_exists'.mp present
        obtain ⟨number, walked, stored⟩ := source.listed known
        rw [AgentFS.walk_append, reached, Option.bind_some, AgentFS.walk_single, Option.map_eq_some_iff] at walked
        obtain ⟨entry, found, rfl⟩ := walked
        obtain ⟨row, joined⟩ := stored_row stored
        exact unlisted ⟨(label, row), permuted.mem_iff.mpr (mem_children.mpr ⟨entry, found, joined⟩), rest, rfl⟩

/-- The bytes of an archive with these frames below the root. -/
def archiveOf (frames : List Bytes) : List Bytes := MAGIC :: frame ([], .directory) :: frames ++ [endMarker]

/-- Frames that fill everything below the root make an archive of the tree. -/
theorem Spells.archive {frames : List Bytes} (rooted : tree [] = some .directory)
    (spells : Spells tree [] (fun other => ∃ label rest, other = label :: rest) frames) : ∃ entries,
      (archiveOf frames).flatten = MAGIC ++ (([], .directory) :: entries).flatMap frame ++ endMarker ∧
      contents (archiveOf frames).flatten = .ok (([], .directory) :: entries) ∧
      PathTree.empty.Accepts entries ∧ PathTree.empty.plantAll entries = tree := by
  obtain ⟨entries, flat, carried, fills⟩ := spells
  have record : Carried (([] : Text), TreeNode.directory) :=
    ⟨⟨[], fun _ member => (by cases member), rfl⟩, by decide, by decide⟩
  have spelled : (archiveOf frames).flatten = MAGIC ++ (([], .directory) :: entries).flatMap frame ++ endMarker := by
    unfold archiveOf
    simp only [List.cons_append, List.flatten_cons, List.flatten_append, flat, List.flatMap_cons, List.flatten_nil,
      List.append_nil, List.append_assoc]
  obtain ⟨accepts, planted⟩ := fills PathTree.empty
    (by
      intro front back same
      obtain ⟨rfl, rfl⟩ := List.nil_eq_append_iff.mp same
      rfl)
    (by
      rintro path ⟨label, rest, rfl⟩
      rfl)
  refine ⟨entries, spelled, ?_, accepts, ?_⟩
  · rw [spelled]
    apply contents_frames
    intro entry member
    rcases List.mem_cons.mp member with rfl | later
    · exact record
    · exact carried entry later
  · rw [planted]
    funext path
    cases path with
    | nil =>
      rw [PathTree.graft, if_neg (by simp), rooted]
      rfl
    | cons label rest => rw [PathTree.graft, if_pos ⟨label, rest, rfl⟩]

/-- The header of the root. -/
theorem encodeHeader_root : encodeHeader { t := .directory, p := [], s := none, l := none } = .ok (frame ([], .directory)) := by
  have fits : Fits [] .directory := ⟨by decide, by decide⟩
  have encoded := encodeHeader_fits fits
  rw [frame, bodyOf, List.append_nil]
  · exact encoded
  · simp

/-- The archive of a tree holds the root and then, in order, the entries that make up the tree. -/
theorem encodeTree_spells (positive : 0 < chunkSize) (source : Source volume chunkSize base tree) {root : Text}
    (located : AgentFS.resolvePath volume root = some base) : ∃ frames entries,
      encodeTree volume chunkSize root = .ok frames ∧ contents frames.flatten = .ok (([], .directory) :: entries) ∧
      PathTree.empty.Accepts entries ∧ PathTree.empty.plantAll entries = tree := by
  obtain ⟨number, walked, row, found, kind⟩ := source.listed source.rooted
  rw [AgentFS.walk, Option.some.injEq] at walked
  rw [← walked] at found
  have top : AgentFS.walk volume ROOT_INO (fields '/' root) = some base := by
    rw [← AgentFS.resolvePath_eq, located]
  obtain ⟨frames, ran, spells⟩ := @walk_spells volume chunkSize base base tree [] positive source _ top
    (volume.dentry.rows.length + 1) root rfl source.rooted (List.append_nil _).symm rfl
  obtain ⟨entries, _, held, accepts, planted⟩ := spells.archive source.rooted
  refine ⟨archiveOf frames, entries, ?_, held, accepts, planted⟩
  unfold encodeTree AgentFS.stat
  rw [AgentFS.resolvePathOrThrow_of_resolved located]
  simp only [bind, Except.bind, found, required]
  rw [refuse_of_not (by rw [kind]; simp), encodeHeader_root]
  change walk volume chunkSize (volume.dentry.rows.length + 1) root [] = _ at ran
  dsimp only
  rw [ran]
  rfl

end Archive

end AiryFS
