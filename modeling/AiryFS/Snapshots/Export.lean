import AiryFS.Snapshots.ViewTree
import AiryFS.Transfer.RoundTrip

/-! What the archive of a snapshot holds, and what comes out of it.

The exporter declares for each file the length of its chunk rows and emits these rows, so the
archive always spells out a tree. Its files are the captured ones exactly when the chunks of
each leave no byte out.
-/

set_option autoImplicit false

namespace AiryFS

open Foundation Relation Archive

/-! ## A volume that can be exported -/

/-- The directories form a tree, names are ones that an archive can carry, and links have targets. -/
structure Volume.Exportable (volume : Volume) : Prop where
  root : volume.directoryAt ROOT_INO = true
  acyclic : Acyclic volume.Climbs
  names : ∀ entry ∈ volume.dentry.rows, ValidName entry.name
  targets : ∀ row ∈ volume.inode.rows, isSymlink row.mode = true → volume.symlink.find? row.ino ≠ none

/-- Every header and every size is within the limits of an archive. -/
def PathTree.Fitting (tree : PathTree) : Prop := ∀ path node, tree path = some node → Archive.Fits (['/'].intercalate path) node

variable {volume : Volume} {ino : Int} {path : List Text} {name rel : Text} {node : TreeNode}

theorem Volume.Exportable.valid (exportable : volume.Exportable) {start : Int} (located : volume.locate start path = some ino) :
    ∀ name ∈ path, ValidName name := by
  induction path generalizing start with
  | nil =>
    intro name member
    cases member
  | cons first rest ih =>
    unfold Volume.locate at located
    split at located
    · obtain ⟨entry, found, below⟩ := Option.bind_eq_some_iff.mp located
      have key := volume.dentry.find?_key found
      rw [DentryRow.key, Prod.mk.injEq] at key
      intro name member
      rcases List.mem_cons.mp member with rfl | deeper
      · rw [← key.2]
        exact exportable.names entry (volume.dentry.find?_mem found)
      · exact ih below name deeper
    · cases located

/-! ## Headers -/

section Headers

theorem intercalate_ne_nil (valid : ∀ name ∈ path, ValidName name) (filled : path ≠ []) : ['/'].intercalate path ≠ [] := by
  intro none
  have spelled : fields '/' (['/'].intercalate path) = path := fields_intercalate (ValidName.separable valid)
  rw [none, fields_nil] at spelled
  exact filled spelled.symm

theorem encodeHeader_ok {header : EntryHeader} {bytes : Bytes} (encoded : encodeHeader header = .ok bytes) :
    (headerBytes header).length ≤ MAX_HEADER_BYTES := by
  obtain ⟨_, limit, _⟩ := bind_eq_ok.mp encoded
  rw [refuse_eq_ok] at limit
  exact Nat.le_of_not_lt limit

variable (valid : ∀ name ∈ path, ValidName name) (filled : path ≠ [])
include valid

theorem encodeDirectoryEntry_eq : encodeDirectoryEntry (['/'].intercalate path) =
    encodeHeader (headerOf (['/'].intercalate path) .directory) := by
  unfold encodeDirectoryEntry
  rw [validateRelativePath_join valid]
  rfl

include filled

theorem encodeSymlinkEntry_eq (target : Text) : encodeSymlinkEntry (['/'].intercalate path) target =
    encodeHeader (headerOf (['/'].intercalate path) (.symlink target)) := by
  unfold encodeSymlinkEntry
  rw [validateRelativePath_join valid]
  simp only [bind, Except.bind]
  rw [refuse_of_not (intercalate_ne_nil valid filled)]
  rfl

theorem encodeFileEntry_eq (content : Bytes) (small : content.length ≤ MAX_FILE_SIZE) :
    encodeFileEntry (['/'].intercalate path) content.length =
      encodeHeader (headerOf (['/'].intercalate path) (.file content)) := by
  unfold encodeFileEntry
  rw [validateRelativePath_join valid]
  simp only [bind, Except.bind]
  rw [refuse_of_not (intercalate_ne_nil valid filled), refuse_of_not (by omega)]
  rfl

end Headers

/-! ## The walk -/

namespace Volume

/-- The rows without the empty ones are the same bytes. -/
theorem emitted_eq (volume : Volume) (ino : Int) :
    (((FsStateView.live volume).chunks ino).filter fun chunk => chunk.length ≠ 0).flatten = volume.wholeBytes ino := by
  rw [FsStateView.chunks_live, wholeBytes]
  induction (volume.chunkRows ino fun _ => true).map (·.data) with
  | nil => rfl
  | cons chunk chunks ih =>
    rw [List.filter_cons]
    split
    · rw [List.flatten_cons, List.flatten_cons, ih]
    · rename_i empty
      have none : chunk = [] := by simpa using empty
      rw [ih, List.flatten_cons, none, List.nil_append]

theorem emitted_length (volume : Volume) (ino : Int) :
    ((((FsStateView.live volume).chunks ino).filter fun chunk => chunk.length ≠ 0).map List.length).sum =
      (FsStateView.live volume).fileBytes ino := by
  rw [← List.length_flatten, emitted_eq, FsStateView.fileBytes_live]

theorem isSymlink_of_kindOf {mode : Int} (kind : kindOf mode = .symlink) : isSymlink mode = true := by
  unfold kindOf at kind
  split_ifs at kind
  assumption

theorem kindOf_directory {mode : Int} : kindOf mode = .directory ↔ isDirectory mode = true := by
  unfold kindOf
  split_ifs <;> simp_all

/-- One child of a directory, with what is below it. -/
theorem childFrames_spells (exportable : volume.Exportable) (fitting : (volume.treeOf volume.wholeBytes).Fitting)
    {entry : DentryRow} {below : Int → Text → Except Failure (List Bytes)}
    (located : volume.locate ROOT_INO path = some ino) (directory : volume.directoryAt ino = true)
    (listed : entry ∈ (FsStateView.live volume).sortedChildren ino)
    (recursion : volume.locate ROOT_INO (path ++ [entry.name]) = some entry.ino → volume.directoryAt entry.ino = true →
      ∃ frames, below entry.ino (['/'].intercalate (path ++ [entry.name])) = .ok frames ∧
        Spells (volume.treeOf volume.wholeBytes) (path ++ [entry.name])
          (fun other => ∃ label rest, other = path ++ entry.name :: label :: rest) frames) :
    ∃ frames, (FsStateView.live volume).childFrames below (['/'].intercalate path) entry = .ok frames ∧
      Spells (volume.treeOf volume.wholeBytes) path (fun other => ∃ rest, other = path ++ entry.name :: rest) frames := by
  have child : ∀ rest, volume.locate ROOT_INO (path ++ entry.name :: rest) = volume.locate entry.ino rest := by
    intro rest
    rw [locate_child located directory, (FsStateView.mem_sortedChildren.mp listed).2, Option.bind_some]
  unfold FsStateView.childFrames
  rw [FsStateView.inodeMeta_live]
  cases stored : volume.inode? entry.ino with
  | none =>
    refine ⟨[], rfl, [], rfl, fun _ member => (by cases member), (PathTree.Fills.nil _ _).mono (fun _ => False.elim) ?_⟩
    rintro other ⟨rest, rfl⟩ _
    rw [treeOf, child]
    cases found : volume.locate entry.ino rest with
    | none => rfl
    | some number =>
      cases rest with
      | nil =>
        rw [locate, stored] at found
        cases found
      | cons label rest =>
        rw [locate, directoryAt, stored] at found
        cases found
  | some row =>
    have here : volume.locate ROOT_INO (path ++ [entry.name]) = some entry.ino := by
      rw [child, locate, stored]
      rfl
    have names := exportable.valid here
    have valid : ∀ name ∈ path, ValidName name := fun name member => names name (List.mem_append_left _ member)
    have own : path ++ [entry.name] ≠ [] := by simp
    have separable := ValidName.separable names
    have node : volume.treeOf volume.wholeBytes (path ++ [entry.name]) = volume.nodeOf volume.wholeBytes entry.ino := by
      rw [treeOf, here]
      rfl
    have leaf : volume.directoryAt entry.ino = false → ∀ label rest,
        volume.treeOf volume.wholeBytes (path ++ entry.name :: label :: rest) = none := by
      intro other label rest
      have below := @treeOf_leaf volume entry.ino _ volume.wholeBytes here other label rest
      rw [List.append_assoc] at below
      exact below
    have carried : ∀ known, volume.treeOf volume.wholeBytes (path ++ [entry.name]) = some known →
        Carried (['/'].intercalate (path ++ [entry.name]), known) :=
      fun known same => ⟨⟨_, names, rfl⟩, fitting _ _ same⟩
    have notDirectory : kindOf row.mode ≠ .directory → volume.directoryAt entry.ino = false := by
      intro kind
      rw [directoryAt, stored, Option.any_some]
      by_contra other
      exact kind (kindOf_directory.mpr (by simpa using other))
    simp only [relative_eq valid, validateRelativePath_join names, bind, Except.bind]
    unfold nodeOf at node
    rw [stored, Option.bind_some] at node
    cases kind : kindOf row.mode with
    | directory =>
      rw [kind] at node
      have fits := fitting _ _ node
      obtain ⟨frames, ran, entries, flat, held, fills⟩ := recursion here
        (directoryAt_iff.mpr ⟨row, stored, kindOf_directory.mp kind⟩)
      rw [encodeDirectoryEntry_eq names, encodeHeader_fits fits]
      simp only [ran]
      refine ⟨_, rfl, (['/'].intercalate (path ++ [entry.name]), .directory) :: entries, ?_, ?_, ?_⟩
      · simp [frame, bodyOf, flat]
      · intro other member
        rcases List.mem_cons.mp member with rfl | later
        · exact carried _ node
        · exact held other later
      · exact .cons separable node (fun _ => fills) fun other => absurd rfl other
    | symlink =>
      rw [kind] at node
      have linked := exportable.targets row (volume.inode.find?_mem stored) (isSymlink_of_kindOf kind)
      rw [show row.ino = entry.ino from volume.inode.find?_key stored] at linked
      obtain ⟨link, found⟩ := Option.ne_none_iff_exists'.mp linked
      rw [found, Option.map_some] at node
      have fits := fitting _ _ node
      rw [FsStateView.symlinkTarget_live, found, Option.map_some]
      simp only [required]
      rw [encodeSymlinkEntry_eq names own, encodeHeader_fits fits]
      refine ⟨_, rfl, [(['/'].intercalate (path ++ [entry.name]), .symlink link.target)], ?_, ?_, ?_⟩
      · simp [frame, bodyOf]
      · intro other member
        rw [List.mem_singleton.mp member]
        exact carried _ node
      · exact .cons separable node (fun other => by cases other) fun _ => ⟨rfl, leaf (notDirectory (by rw [kind]; simp))⟩
    | file =>
      rw [kind] at node
      have fits := fitting _ _ node
      have size := fits.body
      dsimp only [bodyOf] at size
      rw [FsStateView.fileBytes_live, encodeFileEntry_eq names own _ size, encodeHeader_fits fits]
      dsimp only
      rw [refuse_of_not (by rw [emitted_length, FsStateView.fileBytes_live]; simp)]
      refine ⟨_, rfl, [(['/'].intercalate (path ++ [entry.name]), .file (volume.wholeBytes entry.ino))], ?_, ?_, ?_⟩
      · rw [List.flatten_cons, emitted_eq]
        simp [frame, bodyOf]
      · intro other member
        rw [List.mem_singleton.mp member]
        exact carried _ node
      · exact .cons separable node (fun other => by cases other) fun _ => ⟨rfl, leaf (notDirectory (by rw [kind]; simp))⟩
    | other =>
      rw [kind] at node
      refine ⟨[], rfl, [], rfl, fun _ member => (by cases member), (PathTree.Fills.nil _ _).mono (fun _ => False.elim) ?_⟩
      rintro other ⟨rest, rfl⟩ _
      cases rest with
      | nil => exact node
      | cons label rest => exact leaf (notDirectory (by rw [kind]; simp)) label rest

theorem walkSnapshot_spells (exportable : volume.Exportable) (fitting : (volume.treeOf volume.wholeBytes).Fitting) {depth : Nat}
    (located : volume.locate ROOT_INO path = some ino) (directory : volume.directoryAt ino = true)
    (deep : depth + path.length = volume.dentry.rows.length + 1) :
    ∃ frames, (FsStateView.live volume).walkSnapshot depth ino (['/'].intercalate path) = .ok frames ∧
      Spells (volume.treeOf volume.wholeBytes) path (fun other => ∃ label rest, other = path ++ label :: rest) frames := by
  induction depth generalizing path ino with
  | zero =>
    have bound := length_le_entries exportable.acyclic (locate_walk located)
    omega
  | succ depth ih =>
    obtain ⟨frames, ran, entries, flat, carried, fills⟩ := @mapM_spells (volume.treeOf volume.wholeBytes) path _ DentryRow.name
      ((FsStateView.live volume).childFrames ((FsStateView.live volume).walkSnapshot depth) (['/'].intercalate path))
      ((FsStateView.live volume).sortedChildren ino) (FsStateView.nodup_sortedChildren volume ino) (by
        intro entry listed
        refine childFrames_spells exportable fitting located directory listed ?_
        intro here kind
        obtain ⟨frames, ran, spells⟩ := ih here kind (by rw [List.length_append, List.length_singleton]; omega)
        refine ⟨frames, ran, ?_⟩
        simpa only [List.append_assoc, List.singleton_append] using spells)
    refine ⟨frames.flatten, ?_, entries, flat, carried, fills.mono ?_ ?_⟩
    · unfold FsStateView.walkSnapshot
      simp only [bind, Except.bind, ran]
      rfl
    · rintro other ⟨child, _, rest, rfl⟩
      exact ⟨child.name, rest, rfl⟩
    · -- A child in the tree is listed.
      rintro other ⟨label, rest, rfl⟩ unlisted
      rw [treeOf, locate_child located directory]
      cases found : volume.dentry? ino label with
      | none => rfl
      | some entry =>
        have key := volume.dentry.find?_key found
        rw [DentryRow.key, Prod.mk.injEq] at key
        refine absurd ⟨entry, FsStateView.mem_sortedChildren.mpr ⟨key.1, ?_⟩, rest, ?_⟩ unlisted
        · rw [key.2]
          exact found
        · rw [key.2]

/-! ## Limits -/

/-- A child whose frames are written is within the limits, and so is what is below it. -/
theorem childFrames_fits (exportable : volume.Exportable) {entry : DentryRow}
    {below : Int → Text → Except Failure (List Bytes)} {frames : List Bytes}
    (valid : ∀ name ∈ path, ValidName name) (here : volume.locate ROOT_INO (path ++ [entry.name]) = some entry.ino)
    (ran : (FsStateView.live volume).childFrames below (['/'].intercalate path) entry = .ok frames) :
    (∀ known, volume.nodeOf volume.wholeBytes entry.ino = some known →
      Archive.Fits (['/'].intercalate (path ++ [entry.name])) known) ∧
    (volume.directoryAt entry.ino = true →
      ∃ deeper, below entry.ino (['/'].intercalate (path ++ [entry.name])) = .ok deeper) := by
  obtain ⟨row, stored⟩ := locate_stored here
  have names := exportable.valid here
  have own : path ++ [entry.name] ≠ [] := by simp
  unfold FsStateView.childFrames at ran
  rw [FsStateView.inodeMeta_live, stored] at ran
  dsimp only at ran
  rw [relative_eq valid, validateRelativePath_join names] at ran
  unfold nodeOf directoryAt
  rw [stored, Option.bind_some, Option.any_some]
  obtain ⟨_, _, ran⟩ := bind_eq_ok.mp ran
  cases kind : kindOf row.mode with
  | directory =>
    rw [kind] at ran
    obtain ⟨header, encoded, ran⟩ := bind_eq_ok.mp ran
    obtain ⟨deeper, walked, _⟩ := bind_eq_ok.mp ran
    rw [encodeDirectoryEntry_eq names] at encoded
    refine ⟨?_, fun _ => ⟨deeper, walked⟩⟩
    intro known same
    rw [← Option.some.inj same]
    exact ⟨encodeHeader_ok encoded, Nat.zero_le _⟩
  | symlink =>
    rw [kind] at ran
    obtain ⟨target, linked, ran⟩ := bind_eq_ok.mp ran
    obtain ⟨header, encoded, _⟩ := bind_eq_ok.mp ran
    rw [required_eq_ok, FsStateView.symlinkTarget_live] at linked
    obtain ⟨link, found, rfl⟩ := Option.map_eq_some_iff.mp linked
    rw [encodeSymlinkEntry_eq names own] at encoded
    refine ⟨?_, fun other => ?_⟩
    · intro known same
      rw [found, Option.map_some, Option.some.injEq] at same
      rw [← same]
      exact ⟨encodeHeader_ok encoded, Nat.zero_le _⟩
    · rw [kindOf_directory.mpr other] at kind
      cases kind
  | file =>
    rw [kind] at ran
    obtain ⟨header, encoded, _⟩ := bind_eq_ok.mp ran
    rw [FsStateView.fileBytes_live] at encoded
    refine ⟨?_, fun other => ?_⟩
    · intro known same
      rw [← Option.some.inj same]
      have small : (volume.wholeBytes entry.ino).length ≤ MAX_FILE_SIZE := by
        obtain ⟨_, _, checked⟩ := bind_eq_ok.mp encoded
        obtain ⟨_, _, checked⟩ := bind_eq_ok.mp checked
        obtain ⟨_, limit, _⟩ := bind_eq_ok.mp checked
        rw [refuse_eq_ok] at limit
        exact Nat.le_of_not_lt limit
      rw [encodeFileEntry_eq names own _ small] at encoded
      exact ⟨encodeHeader_ok encoded, small⟩
    · rw [kindOf_directory.mpr other] at kind
      cases kind
  | other =>
    refine ⟨fun _ same => (by cases same), fun other => ?_⟩
    rw [kindOf_directory.mpr other] at kind
    cases kind

/-- A walk that comes to its end found everything within the limits. -/
theorem walkSnapshot_fits (exportable : volume.Exportable) {depth : Nat} {frames : List Bytes}
    (located : volume.locate ROOT_INO path = some ino) (directory : volume.directoryAt ino = true)
    (ran : (FsStateView.live volume).walkSnapshot depth ino (['/'].intercalate path) = .ok frames) {rest : List Text}
    (known : volume.treeOf volume.wholeBytes (path ++ name :: rest) = some node) :
    Archive.Fits (['/'].intercalate (path ++ name :: rest)) node := by
  induction rest generalizing path name depth ino frames with
  | nil =>
    cases depth with
    | zero => cases ran
    | succ depth =>
      obtain ⟨results, mapped, _⟩ := bind_eq_ok.mp ran
      obtain ⟨number, here, node_⟩ := Option.bind_eq_some_iff.mp known
      have step := @locate_child volume ino path name located directory []
      rw [here, eq_comm, Option.bind_eq_some_iff] at step
      obtain ⟨entry, found, below⟩ := step
      have key := volume.dentry.find?_key found
      rw [DentryRow.key, Prod.mk.injEq] at key
      obtain ⟨row, stored, same⟩ := Option.map_eq_some_iff.mp below
      subst same
      have listed : entry ∈ (FsStateView.live volume).sortedChildren ino :=
        FsStateView.mem_sortedChildren.mpr ⟨key.1, by rw [key.2]; exact found⟩
      obtain ⟨own, framed, -⟩ := mapM_ok_mem mapped listed
      rw [← key.2] at here ⊢
      exact (childFrames_fits exportable (exportable.valid located) here framed).1 node node_
  | cons label rest ih =>
    cases depth with
    | zero => cases ran
    | succ depth =>
      obtain ⟨results, mapped, _⟩ := bind_eq_ok.mp ran
      obtain ⟨number, deep, node_⟩ := Option.bind_eq_some_iff.mp known
      have step := @locate_child volume ino path name located directory (label :: rest)
      rw [deep, eq_comm, Option.bind_eq_some_iff] at step
      obtain ⟨entry, found, below⟩ := step
      have key := volume.dentry.find?_key found
      rw [DentryRow.key, Prod.mk.injEq] at key
      have kind : volume.directoryAt entry.ino = true := by
        unfold locate at below
        split at below
        · assumption
        · cases below
      have here : volume.locate ROOT_INO (path ++ [entry.name]) = some entry.ino := by
        obtain ⟨row, stored, _⟩ := directoryAt_iff.mp kind
        rw [locate_child located directory, key.2, found, Option.bind_some, locate, stored]
        rfl
      have listed : entry ∈ (FsStateView.live volume).sortedChildren ino :=
        FsStateView.mem_sortedChildren.mpr ⟨key.1, by rw [key.2]; exact found⟩
      obtain ⟨own, framed, -⟩ := mapM_ok_mem mapped listed
      obtain ⟨deeper, walked⟩ := (childFrames_fits exportable (exportable.valid located) here framed).2 kind
      have spelled : path ++ name :: label :: rest = (path ++ [entry.name]) ++ label :: rest := by
        rw [key.2, List.append_assoc, List.singleton_append]
      rw [spelled] at known ⊢
      exact ih here kind walked known

end Volume

/-! ## The archive -/

/-- What the archive holds does not depend on how the chunks are laid out. -/
theorem encodeSnapshotArchive_spells {storage : SnapshotStorage} {info found : SnapshotInfo} {captured : Volume} {nameOrId : Text}
    (holds : storage.Holds info captured) (named : storage.resolveSnapshot nameOrId = some found) (first : found.id = info.id)
    (exportable : captured.Exportable) (fitting : (captured.treeOf captured.wholeBytes).Fitting) : ∃ frames entries,
      storage.encodeSnapshotArchive nameOrId = .ok frames ∧
      frames.flatten = MAGIC ++ (([], .directory) :: entries).flatMap frame ++ endMarker ∧
      contents frames.flatten = .ok (([], .directory) :: entries) ∧
      PathTree.empty.Accepts entries ∧ PathTree.empty.plantAll entries = captured.treeOf captured.wholeBytes := by
  obtain ⟨row, stored, _⟩ := Volume.directoryAt_iff.mp exportable.root
  have located : captured.locate ROOT_INO [] = some ROOT_INO := by
    rw [Volume.locate, stored]
    rfl
  have rooted : captured.treeOf captured.wholeBytes [] = some .directory := by
    rw [Volume.treeOf, located]
    exact Volume.nodeOf_directory.mpr exportable.root
  obtain ⟨frames, ran, spells⟩ := Volume.walkSnapshot_spells exportable fitting located exportable.root
    (Nat.add_zero (captured.dentry.rows.length + 1))
  obtain ⟨entries, flat, held, accepts, planted⟩ := spells.archive rooted
  refine ⟨archiveOf frames, entries, ?_, flat, held, accepts, planted⟩
  unfold SnapshotStorage.encodeSnapshotArchive SnapshotStorage.requireSnapshot encodeRootEntry
  rw [named, encodeHeader_root]
  simp only [required, bind, Except.bind]
  rw [first, FsStateView.load_snapshot holds]
  change FsStateView.walkSnapshot _ (captured.dentry.rows.length + 1) ROOT_INO [] = _ at ran
  have entries : (FsStateView.live captured).dentries.length = captured.dentry.rows.length := rfl
  rw [entries, ran]
  rfl

/-- An archive that is written is within the limits. -/
theorem encodeSnapshotArchive_fits {storage : SnapshotStorage} {info found : SnapshotInfo} {captured : Volume} {nameOrId : Text}
    (holds : storage.Holds info captured) (named : storage.resolveSnapshot nameOrId = some found) (first : found.id = info.id)
    (exportable : captured.Exportable) {frames : List Bytes} (encoded : storage.encodeSnapshotArchive nameOrId = .ok frames) :
    (captured.treeOf captured.wholeBytes).Fitting := by
  obtain ⟨row, stored, _⟩ := Volume.directoryAt_iff.mp exportable.root
  have located : captured.locate ROOT_INO [] = some ROOT_INO := by
    rw [Volume.locate, stored]
    rfl
  unfold SnapshotStorage.encodeSnapshotArchive SnapshotStorage.requireSnapshot at encoded
  obtain ⟨resolved, same, encoded⟩ := bind_eq_ok.mp encoded
  obtain ⟨header, _, encoded⟩ := bind_eq_ok.mp encoded
  obtain ⟨below, walked, _⟩ := bind_eq_ok.mp encoded
  rw [required_eq_ok, named, Option.some.injEq] at same
  rw [← same, first, FsStateView.load_snapshot holds] at walked
  intro path node known
  cases path with
  | nil =>
    rw [Volume.treeOf, located, Option.bind_some, Volume.nodeOf_directory.mpr exportable.root, Option.some.injEq] at known
    rw [← known]
    exact ⟨by decide, by decide⟩
  | cons name rest => exact Volume.walkSnapshot_fits exportable located exportable.root walked known

/-! ## What is extracted -/

namespace Volume

variable {chunkSize : Nat} {tree tree' : PathTree} {node' : TreeNode}

theorem kindOf_file {mode : Int} : kindOf mode = .file ↔ isRegular mode = true := by
  unfold kindOf
  split_ifs with directory file link
  · simp only [false_iff]
    intro regular
    rw [AgentFS.isDirectory_of_isRegular regular] at directory
    cases directory
  · simp [file]
  · simp [file]
  · simp [file]

/-- An inode is one node. -/
theorem Stored.unique (positive : 0 < chunkSize) (first : volume.Stored chunkSize ino node)
    (second : volume.Stored chunkSize ino node') : node = node' := by
  have kinds : ∀ {row row' : InodeRow}, volume.inode? ino = some row → volume.inode? ino = some row' → row = row' := by
    intro row row' found found'
    rw [found] at found'
    exact Option.some.inj found'
  cases node with
  | directory =>
    obtain ⟨row, found, kind⟩ := first
    cases node' with
    | directory => rfl
    | file content =>
      obtain ⟨_, row', found', regular⟩ := second
      rw [kinds found found', AgentFS.isDirectory_of_isRegular regular] at kind
      cases kind
    | symlink target =>
      obtain ⟨⟨row', found', link⟩, _⟩ := second
      rw [kinds found found', isDirectory_of_isSymlink link] at kind
      cases kind
  | file content =>
    obtain ⟨stores, row, found, regular⟩ := first
    cases node' with
    | directory =>
      obtain ⟨row', found', kind⟩ := second
      rw [← kinds found found', AgentFS.isDirectory_of_isRegular regular] at kind
      cases kind
    | file content' =>
      rw [← stores.laidOut.whole positive, second.1.laidOut.whole positive]
    | symlink target =>
      obtain ⟨⟨row', found', link⟩, _⟩ := second
      rw [← kinds found found', isSymlink_of_isRegular regular] at link
      cases link
  | symlink target =>
    obtain ⟨⟨row, found, link⟩, linked⟩ := first
    cases node' with
    | directory =>
      obtain ⟨row', found', kind⟩ := second
      rw [← kinds found found', isDirectory_of_isSymlink link] at kind
      cases kind
    | file content =>
      obtain ⟨_, row', found', regular⟩ := second
      rw [kinds found found', isSymlink_of_isRegular regular] at link
      cases link
    | symlink target' =>
      rw [second.2, Option.some.injEq, SymlinkRow.mk.injEq] at linked
      rw [linked.2]

/-- A directory holds one tree. -/
theorem Lists.unique (positive : 0 < chunkSize) (first : volume.Lists chunkSize ino tree) (second : volume.Lists chunkSize ino tree') :
    tree = tree' := by
  funext path
  have left := first path
  have right := second path
  cases known : tree path with
  | none =>
    rw [known] at left
    cases known' : tree' path with
    | none => rfl
    | some node =>
      rw [known'] at right
      obtain ⟨number, walked, _⟩ := right
      rw [show AgentFS.walk volume ino path = none from left] at walked
      cases walked
  | some node =>
    rw [known] at left
    obtain ⟨number, walked, stored⟩ := left
    cases known' : tree' path with
    | none =>
      rw [known'] at right
      rw [show AgentFS.walk volume ino path = none from right] at walked
      cases walked
    | some node' =>
      rw [known'] at right
      obtain ⟨number', walked', stored'⟩ := right
      rw [walked, Option.some.injEq] at walked'
      rw [← walked'] at stored'
      rw [stored.unique positive stored']

end Volume

theorem Archive.Holds.unique {chunkSize : Nat} {place : Text} {tree tree' : PathTree} (positive : 0 < chunkSize)
    (first : Archive.Holds volume chunkSize place tree) (second : Archive.Holds volume chunkSize place tree') : tree = tree' := by
  obtain ⟨base, located, lists⟩ := first
  obtain ⟨base', located', lists'⟩ := second
  rw [located, Option.some.injEq] at located'
  rw [← located'] at lists'
  exact lists.unique positive lists'

end AiryFS
