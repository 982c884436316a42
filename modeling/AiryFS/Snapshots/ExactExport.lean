import AiryFS.Snapshots.Export

/-! Over every run a snapshot is exported as what was captured, unless a file of it has a hole.

The writers may leave a byte of a file without a chunk, and a reader then sees a zero there.
The exporter emits the chunks alone, so what follows a hole moves to the front.
-/

set_option autoImplicit false

namespace AiryFS

open Foundation Archive

/-- The archive declares for each file as many bytes as follow its header. Wherever it is extracted, and however it is
cut, the captured tree comes out, each file with as many bytes as its inode says and zeros where no chunk has one. -/
def SnapshotStorage.ExportsExactly (storage : SnapshotStorage) (nameOrId : Text) (captured : Volume) (chunkSize : Nat) : Prop :=
  ∃ (frames : List Bytes) (entries : List (Text × TreeNode)), storage.encodeSnapshotArchive nameOrId = .ok frames ∧
    frames.flatten = MAGIC ++ entries.flatMap frame ++ endMarker ∧
    ∀ (disk : Disk) (width : Nat) (targetDir : Text) (ino : Int) (chunks : List Bytes), 0 < width →
      Target disk.volume width targetDir ino → disk.fault = none → disk.volume.Unlimited → chunks.flatten = frames.flatten →
        ∃ summary disk', extractTree width targetDir ⟨chunks, none⟩ disk = .ok summary disk' ∧
          Archive.Holds disk'.volume width targetDir (captured.treeOf (captured.logicalBytes chunkSize))

/-- What is captured is within the limits of an archive, and no file has a hole. -/
structure Volume.Dense (volume : Volume) (chunkSize : Nat) : Prop where
  fitting : (volume.treeOf (volume.logicalBytes chunkSize)).Fitting
  covered : ∀ path ino row, volume.locate ROOT_INO path = some ino → volume.inode? ino = some row →
    isRegular row.mode = true → volume.Covered chunkSize ino

variable {chunkSize : Nat}

theorem Volume.Bounded.within {volume : Volume} (bounded : volume.Bounded chunkSize) {ino : Int} {row : InodeRow}
    (stored : volume.inode? ino = some row) : volume.Within chunkSize ino (volume.fileSize ino) := by
  rw [Volume.fileSize_eq stored]
  exact bounded ino row stored

/-- Without holes the chunks are the contents. -/
theorem Volume.Dense.treeOf {volume : Volume} (positive : 0 < chunkSize) (bounded : volume.Bounded chunkSize)
    (dense : volume.Dense chunkSize) : volume.treeOf volume.wholeBytes = volume.treeOf (volume.logicalBytes chunkSize) := by
  funext path
  unfold Volume.treeOf
  cases located : volume.locate ROOT_INO path with
  | none => rfl
  | some ino =>
    obtain ⟨row, stored⟩ := Volume.locate_stored located
    rw [Option.bind_some, Option.bind_some, Volume.nodeOf, Volume.nodeOf, stored, Option.bind_some, Option.bind_some]
    cases kind : kindOf row.mode with
    | file =>
      have covered := dense.covered path ino row located stored (Volume.kindOf_file.mp kind)
      have whole : volume.wholeBytes ino = volume.logicalBytes chunkSize ino := covered.whole positive (bounded.within stored)
      simp only [whole]
    | directory => rfl
    | symlink => rfl
    | other => rfl

/-- An export gives back what was captured exactly when there is no hole. -/
theorem SnapshotStorage.Holds.exportsExactly_iff {storage : SnapshotStorage} {info found : SnapshotInfo} {captured : Volume}
    {nameOrId : Text} (holds : storage.Holds info captured) (positive : 0 < chunkSize) (bounded : captured.Bounded chunkSize)
    (exportable : captured.Exportable) (named : storage.resolveSnapshot nameOrId = some found) (first : found.id = info.id) :
    storage.ExportsExactly nameOrId captured chunkSize ↔ captured.Dense chunkSize := by
  constructor
  · rintro ⟨frames, _, encoded, _, extracts⟩
    have fitting := encodeSnapshotArchive_fits holds named first exportable encoded
    obtain ⟨frames', entries, encoded', _, held, accepts, planted⟩ :=
      encodeSnapshotArchive_spells holds named first exportable fitting
    rw [encoded, Except.ok.injEq] at encoded'
    rw [← encoded'] at held
    -- Any empty directory shows what the archive holds.
    obtain ⟨summary, disk', extracted, logical⟩ :=
      extracts ⟨Volume.fresh 0, none, false⟩ 4096 ['/'] ROOT_INO frames (by decide) target_fresh rfl ⟨rfl, rfl⟩ rfl
    have whole := (@extractTree_contents ['/'] ⟨Volume.fresh 0, none, false⟩ 4096 ROOT_INO frames entries (by decide) target_fresh
      held accepts).1 summary disk' extracted
    rw [planted] at whole
    have same := whole.unique (by decide) logical
    refine ⟨same ▸ fitting, ?_⟩
    intro path ino row located stored regular
    have bytes := congrFun same path
    unfold Volume.treeOf at bytes
    rw [located, Option.bind_some, Option.bind_some, Volume.nodeOf, Volume.nodeOf, stored, Option.bind_some, Option.bind_some,
      Volume.kindOf_file.mpr regular, Option.some.injEq, TreeNode.file.injEq] at bytes
    exact ((bounded.within stored).whole_iff positive).mp bytes
  · intro dense
    have same := dense.treeOf positive bounded
    have fitting : (captured.treeOf captured.wholeBytes).Fitting := by
      rw [same]
      exact dense.fitting
    obtain ⟨frames, entries, encoded, spelled, held, accepts, planted⟩ :=
      encodeSnapshotArchive_spells holds named first exportable fitting
    refine ⟨frames, _, encoded, spelled, ?_⟩
    intro disk width targetDir ino chunks filled target calm unlimited cut
    rw [← cut] at held
    obtain ⟨gives, returns⟩ := extractTree_contents filled target held accepts
    obtain ⟨summary, disk', extracted⟩ := returns calm unlimited
    refine ⟨summary, disk', extracted, ?_⟩
    rw [← same, ← planted]
    exact gives summary disk' extracted

/-! ## Runs -/

/-- A write to contents, as a step of a volume that has snapshots. -/
def Contents.Operation.action (chunkSize : Nat) (operation : Contents.Operation) : SnapshotStorage.Action :=
  .mutate fun volume => settle volume (operation.execute chunkSize volume)

namespace SnapshotStorage

theorem action_bounded (positive : 0 < chunkSize) {storage : SnapshotStorage} {operation : Contents.Operation}
    (sized : operation.Sized chunkSize) (bounded : storage.volume.Bounded chunkSize) :
    (storage.step (operation.action chunkSize)).volume.Bounded chunkSize := by
  have written : (settle storage.volume (operation.execute chunkSize storage.volume)).Bounded chunkSize := by
    cases done : operation.execute chunkSize storage.volume with
    | error failure => exact bounded
    | ok volume => exact Contents.execute_bounded positive sized bounded done
  exact written

theorem writes_bounded (positive : 0 < chunkSize) {storage : SnapshotStorage} {operations : List Contents.Operation}
    (sized : ∀ operation ∈ operations, operation.Sized chunkSize) (bounded : storage.volume.Bounded chunkSize) :
    (run step storage (operations.map (Contents.Operation.action chunkSize))).volume.Bounded chunkSize := by
  induction operations generalizing storage with
  | nil => exact bounded
  | cons operation operations ih =>
    exact ih (fun other member => sized other (List.mem_cons_of_mem _ member))
      (action_bounded positive (sized operation List.mem_cons_self) bounded)

/-- In every run, a snapshot taken after any writes is exported exactly if and only if it has no hole. -/
theorem exactExport (positive : 0 < chunkSize) (clock : Int) (before later : List Action) (operations : List Contents.Operation)
    (start : (run step (initial clock) before).volume.Bounded chunkSize)
    (sized : ∀ operation ∈ operations, operation.Sized chunkSize) {captured storage : SnapshotStorage}
    (written : captured = run step (initial clock) (before ++ operations.map (Contents.Operation.action chunkSize)))
    (id defaultName : Text) (name note : Option JsValue) {info found : SnapshotInfo}
    (created : captured.createSnapshot id defaultName name note = .ok (info, storage))
    (spared : Guarded step (Spares info.id) storage later) {nameOrId : Text}
    (named : (run step storage later).resolveSnapshot nameOrId = some found) (first : found.id = info.id)
    (exportable : captured.volume.Exportable) :
    (run step storage later).ExportsExactly nameOrId captured.volume chunkSize ↔ captured.volume.Dense chunkSize := by
  have kept : captured.Kept := by
    rw [written]
    exact run_kept clock _
  have bounded : captured.volume.Bounded chunkSize := by
    rw [written, run, List.foldl_append]
    exact writes_bounded positive sized start
  have holds := @run_invariant _ _ step (Spares info.id) (Holds · info captured.volume)
    (fun _ action holds spares => step_holds holds action spares) _ _ (createSnapshot_holds kept created) spared
  exact holds.exportsExactly_iff positive bounded exportable named first

/-! ## One file -/

/-- The remote client makes a file and writes to it, in chunks of four bytes. -/
def written (operations : List Contents.Operation) : SnapshotStorage :=
  run step (initial 0) ([.mutate fun volume => settle volume ((Remote.executeRemoteCreateNode volume [.text "mknod".toList,
    .integer 1, .text "f".toList, .integer 0o100644, .integer 0, .integer 0, .integer 0, .null, .integer 0, .integer 0]).map
      Prod.snd)] ++ operations.map (Contents.Operation.action 4))

def taken (operations : List Contents.Operation) : SnapshotStorage :=
  settle (written operations) (((written operations).createSnapshot "id".toList "".toList (some (.text "first".toList)) none).map
    Prod.snd)

/-- The gap in front of the second write is filled with zeros. -/
def denseWrites : List Contents.Operation := [remoteWrite 0 [1, 2, 3], .pwrite 2 5 [7]]

theorem exportable_of_entry {volume : Volume} (entries : volume.dentry.rows = [⟨['f'], ROOT_INO, 2⟩])
    (root : volume.directoryAt ROOT_INO = true) (plain : ∀ row ∈ volume.inode.rows, isSymlink row.mode = false) :
    volume.Exportable where
  root := root
  acyclic := by
    apply Volume.acyclic_of_newer
    rw [entries]
    decide
  names entry member := by
    rw [entries] at member
    rw [List.mem_singleton.mp member]
    exact ⟨by decide, by decide, by decide⟩
  targets row member link := by
    rw [plain row member] at link
    cases link

/-- A root with one file has two paths. -/
theorem locate_of_entry {volume : Volume} (entries : volume.dentry.rows = [⟨['f'], ROOT_INO, 2⟩])
    (leaf : volume.directoryAt 2 = false) {path : List Text} {ino : Int} (located : volume.locate ROOT_INO path = some ino) :
    (path = [] ∧ ino = ROOT_INO) ∨ (path = [['f']] ∧ ino = 2) := by
  cases path with
  | nil =>
    obtain ⟨_, _, same⟩ := Option.map_eq_some_iff.mp located
    exact .inl ⟨rfl, same.symm⟩
  | cons name rest =>
    unfold Volume.locate at located
    split at located
    · obtain ⟨entry, found, below⟩ := Option.bind_eq_some_iff.mp located
      have member := volume.dentry.find?_mem found
      have key := volume.dentry.find?_key found
      rw [entries] at member
      rw [List.mem_singleton.mp member] at key below
      cases key
      cases rest with
      | nil =>
        obtain ⟨_, _, same⟩ := Option.map_eq_some_iff.mp below
        exact .inr ⟨rfl, same.symm⟩
      | cons label rest =>
        rw [Volume.locate, leaf] at below
        cases below
    · cases located

theorem initial_bounded : (written []).volume.Bounded 4 := by
  have none : (written []).volume.data = .empty := by decide
  intro ino row _ index data stored
  rw [Volume.chunk?, none] at stored
  cases stored

theorem dense_written : (written denseWrites).volume.Dense 4 := by
  have entries : (written denseWrites).volume.dentry.rows = [⟨['f'], ROOT_INO, 2⟩] := by decide
  have leaf : (written denseWrites).volume.directoryAt 2 = false := by decide
  constructor
  · intro path node known
    obtain ⟨ino, located, is⟩ := Option.bind_eq_some_iff.mp known
    rcases locate_of_entry entries leaf located with ⟨rfl, rfl⟩ | ⟨rfl, rfl⟩
    · have root : (written denseWrites).volume.nodeOf ((written denseWrites).volume.logicalBytes 4) ROOT_INO =
          some .directory := by decide
      rw [root, Option.some.injEq] at is
      rw [← is]
      exact ⟨by decide, by decide⟩
    · have file : (written denseWrites).volume.nodeOf ((written denseWrites).volume.logicalBytes 4) 2 =
          some (.file [1, 2, 3, 0, 0, 7]) := by decide
      rw [file, Option.some.injEq] at is
      rw [← is]
      exact ⟨by decide, by decide⟩
  · intro path ino row located stored regular
    rcases locate_of_entry entries leaf located with ⟨rfl, rfl⟩ | ⟨rfl, rfl⟩
    · have kind : ∀ row ∈ (written denseWrites).volume.inode? ROOT_INO, isRegular row.mode = false := by decide
      rw [kind row stored] at regular
      cases regular
    · decide

def firstInfo (byteCount : Nat) : SnapshotInfo :=
  ⟨"id".toList, "first".toList, none, 0, none, 2, 1, 1, 0, byteCount⟩

theorem exactExport_dense : (taken denseWrites).ExportsExactly "first".toList (written denseWrites).volume 4 := by
  have exportable : (written denseWrites).volume.Exportable :=
    exportable_of_entry (by decide) (by decide) (by decide)
  have created : (written denseWrites).createSnapshot "id".toList "".toList (some (.text "first".toList)) none =
      .ok (firstInfo 6, taken denseWrites) := by decide
  have named : (run step (taken denseWrites) []).resolveSnapshot "first".toList = some (firstInfo 6) := by decide
  exact (exactExport (by decide) 0 _ [] denseWrites initial_bounded (by decide) rfl "id".toList "".toList
    (some (.text "first".toList)) none created trivial named rfl exportable).mpr dense_written

/-- A remote write behind the chunk of the end leaves a hole, and the second byte is exported as if it followed the first. -/
theorem sparse_export_differs : (∀ operation ∈ sparseWrites, operation.Sized 4) ∧
    (written sparseWrites).createSnapshot "id".toList "".toList (some (.text "first".toList)) none =
      .ok (firstInfo 2, taken sparseWrites) ∧
    ¬(taken sparseWrites).ExportsExactly "first".toList (written sparseWrites).volume 4 := by
  have sized : ∀ operation ∈ sparseWrites, operation.Sized 4 := by decide
  have created : (written sparseWrites).createSnapshot "id".toList "".toList (some (.text "first".toList)) none =
      .ok (firstInfo 2, taken sparseWrites) := by decide
  refine ⟨sized, created, ?_⟩
  have exportable : (written sparseWrites).volume.Exportable :=
    exportable_of_entry (by decide) (by decide) (by decide)
  have bounded : (written sparseWrites).volume.Bounded 4 := writes_bounded (by decide) sized initial_bounded
  have named : (taken sparseWrites).resolveSnapshot "first".toList = some (firstInfo 2) := by decide
  have kept : (written sparseWrites).Kept := run_kept 0 _
  have holds := createSnapshot_holds kept created
  rw [holds.exportsExactly_iff (by decide) bounded exportable named rfl]
  intro dense
  obtain ⟨row, stored⟩ : ∃ row, (written sparseWrites).volume.inode? 2 = some row := ⟨_, rfl⟩
  have regular : ∀ row ∈ (written sparseWrites).volume.inode? 2, isRegular row.mode = true := by decide
  have covered := dense.covered [['f']] 2 row (by decide) stored (regular row stored)
  revert covered
  decide

end SnapshotStorage

end AiryFS
