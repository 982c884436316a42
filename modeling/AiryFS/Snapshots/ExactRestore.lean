import AiryFS.Snapshots.Restore
import AiryFS.Contents.Layout

/-! Over every run a restore brings back the volume that the snapshot captured.

A snapshot that nobody deletes keeps its rows through every operation, and its rows are the
tables that were captured. What they mean to a reader also depends on the chunk size, which
can be chosen anew while the volume is empty.
-/

set_option autoImplicit false

namespace AiryFS

open Foundation

/-- The rows of the filesystem tables. -/
def Volume.tables (volume : Volume) := (volume.inode.rows, volume.dentry.rows, volume.data.rows, volume.symlink.rows)

/-! ## Reading with another chunk size -/

namespace AgentFSFile

variable {file : AgentFSFile} {volume : Volume}

theorem collect_empty (startOffsetInChunk size : Nat) {rows : List Bytes} (empty : ∀ data ∈ rows, data = [])
    (buffers : List Bytes) (bytesCollected : Nat) :
    collect startOffsetInChunk size rows buffers bytesCollected = buffers := by
  induction rows generalizing buffers with
  | nil => rfl
  | cons data rows ih =>
    have none := empty data List.mem_cons_self
    rw [collect, if_pos (by rw [none]; exact Nat.zero_le _)]
    exact ih (fun other member => empty other (List.mem_cons_of_mem _ member)) buffers

/-- A file that fits in its first chunk reads as that chunk. -/
theorem pread_small (positive : 0 < file.chunkSize) (small : ∀ row ∈ volume.data.rows, row.ino = file.ino →
    row.chunkIndex = 0 ∧ row.data.length ≤ file.chunkSize) (offset size : Nat) :
    file.pread volume offset size = (((volume.chunk? file.ino 0).getD []).drop offset).take size := by
  have stored : ∀ index data, volume.chunk? file.ino index = some data → index = 0 ∧ data.length ≤ file.chunkSize := by
    intro index data found
    obtain ⟨row, look, same⟩ := Option.map_eq_some_iff.mp found
    have key := volume.data.find?_key look
    rw [DataRow.key, Prod.mk.injEq] at key
    rw [← key.2, ← same]
    exact small row (volume.data.find?_mem look) key.1
  by_cases empty : (volume.chunk? file.ino 0).getD [] = []
  · have none : ∀ data ∈ ((volume.chunkRows file.ino fun chunkIndex => offset / file.chunkSize ≤ chunkIndex &&
        (chunkIndex : Int) ≤ ((offset : Int) + size - 1) / file.chunkSize).map (·.data)), data = [] := by
      intro data member
      obtain ⟨row, listed, rfl⟩ := List.mem_map.mp member
      have selected := List.mem_filter.mp ((List.perm_insertionSort _ _).subset listed)
      have own : row.ino = file.ino := by
        have both := selected.2
        rw [Bool.and_eq_true, decide_eq_true_eq] at both
        exact both.1
      have found : volume.chunk? file.ino row.chunkIndex = some row.data := by
        rw [Volume.chunk?, ← own]
        exact congrArg _ (volume.data.find?_of_mem selected.1)
      rw [(stored _ _ found).1] at found
      rw [found] at empty
      exact empty
    rw [pread, collect_empty _ _ none, empty]
    simp
  · cases first : volume.chunk? file.ino 0 with
    | none =>
      rw [first] at empty
      exact absurd rfl empty
    | some data =>
      rw [first] at empty
      have short := (stored 0 data first).2
      have filled : 0 < data.length := List.length_pos_iff.mpr empty
      change file.pread volume offset size = (data.drop offset).take size
      apply pread_laidOut _ positive
      unfold Volume.LaidOut
      funext index
      rw [layout]
      by_cases start : index = 0
      · rw [start, first, Nat.zero_mul, if_pos filled, chunk, Nat.zero_mul, List.drop_zero, List.take_of_length_le short]
      · have bound : file.chunkSize ≤ index * file.chunkSize := Nat.le_mul_of_pos_left _ (Nat.pos_of_ne_zero start)
        rw [if_neg (by omega)]
        cases beyond : volume.chunk? file.ino index with
        | none => rfl
        | some other => exact absurd (stored index other beyond).1 start

end AgentFSFile

/-- The chunk size is the volume's own, or every stored file fits in one chunk of either size. -/
def Volume.AlikeUnder (volume : Volume) (chunkSize : Nat) : Prop :=
  chunkSize = volume.chunkSize ∨
    ∀ row ∈ volume.data.rows, row.chunkIndex = 0 ∧ row.data.length ≤ min chunkSize volume.chunkSize

instance (volume : Volume) (chunkSize : Nat) : Decidable (volume.AlikeUnder chunkSize) :=
  inferInstanceAs (Decidable (_ ∨ _))

theorem Volume.chunkSize_pos {volume : Volume} (sized : ∀ size ∈ volume.config.chunkSize, 0 < size) : 0 < volume.chunkSize := by
  unfold Volume.chunkSize
  cases configured : volume.config.chunkSize with
  | none => exact (by decide : 0 < DEFAULT_CHUNK_SIZE)
  | some size => exact sized size configured

/-- The same chunk rows read the same, under chunk sizes that do not matter to them. -/
theorem Volume.readBack_congr {first second : Volume} (same : first.data = second.data)
    (sized : ∀ size ∈ first.config.chunkSize, 0 < size) (sized' : ∀ size ∈ second.config.chunkSize, 0 < size)
    (alike : second.AlikeUnder first.chunkSize) (ino : Int) (offset size : Nat) :
    first.readBack ino offset size = second.readBack ino offset size := by
  have valid : ∀ {volume : Volume}, (∀ size ∈ volume.config.chunkSize, 0 < size) → volume.config.chunkSize ≠ some 0 :=
    fun sized zero => absurd (sized 0 zero) (lt_irrefl 0)
  rw [readBack_eq, readBack_eq, if_neg (valid sized), if_neg (valid sized')]
  congr 1
  rcases alike with equal | small
  · unfold AgentFSFile.pread Volume.chunkRows
    rw [equal, same]
  · rw [AgentFSFile.pread_small (chunkSize_pos sized), AgentFSFile.pread_small (chunkSize_pos sized')]
    · unfold Volume.chunk?
      rw [same]
    · exact fun row member _ => ⟨(small row member).1, le_trans (small row member).2 (Nat.min_le_right _ _)⟩
    · rw [same]
      exact fun row member _ => ⟨(small row member).1, le_trans (small row member).2 (Nat.min_le_left _ _)⟩

namespace SnapshotStorage

variable {storage storage' : SnapshotStorage} {id other : Text} {info : SnapshotInfo}

/-- The rows of a snapshot. -/
def copies (storage : SnapshotStorage) (id : Text) :=
  (storage.inode.select id, storage.dentry.select id, storage.data.select id, storage.symlink.select id)

/-- Every row belongs to a snapshot, and the chunk size is one that was checked. -/
structure Kept (storage : SnapshotStorage) : Prop where
  owned : ∀ id, storage.snapshot.find? id = none → storage.copies id = ([], [], [], [])
  sized : ∀ size ∈ storage.volume.config.chunkSize, 0 < size

/-! ## Operations -/

theorem createSnapshot_ok {defaultName : Text} {name note : Option JsValue}
    (created : storage.createSnapshot id defaultName name note = .ok (info, storage')) :
    info.id = id ∧ storage.snapshot.find? id = none ∧ storage.snapshot.insert? info = some storage'.snapshot ∧
      storage'.volume = storage.volume ∧
      (∀ other, other ≠ id → storage'.copies other = storage.copies other) ∧
      (storage.Kept → storage'.copies id = storage.volume.tables) := by
  obtain ⟨_, _, created⟩ := bind_eq_ok.mp created
  obtain ⟨_, _, created⟩ := bind_eq_ok.mp created
  obtain ⟨_, _, created⟩ := bind_eq_ok.mp created
  obtain ⟨inode, inodes, created⟩ := bind_eq_ok.mp created
  obtain ⟨dentry, dentries, created⟩ := bind_eq_ok.mp created
  obtain ⟨data, chunks, created⟩ := bind_eq_ok.mp created
  obtain ⟨symlink, symlinks, created⟩ := bind_eq_ok.mp created
  obtain ⟨snapshot, inserted, created⟩ := bind_eq_ok.mp created
  rw [pure_eq_ok, Prod.mk.injEq] at created
  obtain ⟨rfl, rfl⟩ := created
  rw [required_eq_ok] at inodes dentries chunks symlinks inserted
  have fresh := (storage.snapshot.insert?_eq_some_iff.mp inserted).1
  refine ⟨rfl, fresh, inserted, rfl, ?_, ?_⟩
  · intro other different
    unfold copies
    rw [Archive.select_capture_ne inodes different, Archive.select_capture_ne dentries different,
      Archive.select_capture_ne chunks different, Archive.select_capture_ne symlinks different]
  · intro kept
    have none := kept.owned id fresh
    unfold copies at none
    simp only [Prod.mk.injEq] at none
    unfold copies
    rw [Archive.select_capture inodes, Archive.select_capture dentries, Archive.select_capture chunks,
      Archive.select_capture symlinks, none.1, none.2.1, none.2.2.1, none.2.2.2]
    rfl

theorem resolveSnapshot_mem {nameOrId : Text} (found : storage.resolveSnapshot nameOrId = some info) :
    storage.snapshot.find? info.id = some info := by
  unfold resolveSnapshot at found
  split at found
  · cases found
  · split at found
    · rename_i byId
      rw [← Option.some.inj found]
      exact storage.snapshot.find?_of_mem (storage.snapshot.find?_mem byId)
    · exact storage.snapshot.find?_of_mem (List.mem_of_find?_eq_some found)

theorem deleteSnapshot_ok {nameOrId : Text} (deleted : storage.deleteSnapshot nameOrId = .ok (info, storage')) :
    storage.resolveSnapshot nameOrId = some info ∧ storage'.snapshot = storage.snapshot.erase info.id ∧
      storage'.volume = storage.volume ∧ storage'.copies info.id = ([], [], [], []) ∧
      ∀ other, other ≠ info.id → storage'.copies other = storage.copies other := by
  obtain ⟨row, resolved, deleted⟩ := bind_eq_ok.mp deleted
  rw [pure_eq_ok, Prod.mk.injEq] at deleted
  obtain ⟨rfl, rfl⟩ := deleted
  refine ⟨required_eq_ok.mp resolved, rfl, rfl, ?_, ?_⟩
  · unfold copies
    rw [Archive.select_drop, Archive.select_drop, Archive.select_drop, Archive.select_drop]
  · intro other different
    unfold copies
    rw [Archive.select_drop_ne _ different, Archive.select_drop_ne _ different, Archive.select_drop_ne _ different,
      Archive.select_drop_ne _ different]

theorem restoreSnapshot_ok {nameOrId : Text} (restored : storage.restoreSnapshot nameOrId = .ok (info, storage')) :
    storage.resolveSnapshot nameOrId = some info ∧ ∃ volume, storage.volume.deleteTables.insertTables
      (storage.copies info.id).1 (storage.copies info.id).2.1 (storage.copies info.id).2.2.1
        (storage.copies info.id).2.2.2 = .ok volume ∧ storage' = { storage with volume } := by
  obtain ⟨row, resolved, restored⟩ := bind_eq_ok.mp restored
  obtain ⟨volume, inserted, restored⟩ := bind_eq_ok.mp restored
  rw [pure_eq_ok, Prod.mk.injEq] at restored
  obtain ⟨rfl, rfl⟩ := restored
  exact ⟨required_eq_ok.mp resolved, volume, inserted, rfl⟩

theorem validateChunkSize_pos {value : JsValue} {size : Nat} (valid : validateChunkSize value = .ok size) : 0 < size := by
  unfold validateChunkSize at valid
  dsimp only at valid
  split at valid
  · rename_i size'
    split at valid
    · cases valid
    · rename_i passed
      rw [← Except.ok.inj valid]
      simp only [not_or, not_lt, MIN_CHUNK_SIZE] at passed
      omega
  · cases valid

theorem configureChunkSize_pos {volume volume' : Volume} {requested : Option JsValue} {result : ChunkSizeConfiguration}
    (sized : ∀ size ∈ volume.config.chunkSize, 0 < size)
    (configured : volume.configureChunkSize requested = .ok (result, volume')) :
    ∀ size ∈ volume'.config.chunkSize, 0 < size := by
  obtain ⟨chosen, valid, configured⟩ := bind_eq_ok.mp configured
  have positive : ∀ size ∈ chosen, 0 < size := by
    cases requested with
    | none =>
      cases pure_eq_ok.mp valid
      exact nofun
    | some value =>
      obtain ⟨size, checked, same⟩ := bind_eq_ok.mp valid
      rw [← pure_eq_ok.mp same]
      rintro _ ⟨⟩
      exact validateChunkSize_pos checked
  split at configured
  · rw [pure_eq_ok, Prod.mk.injEq] at configured
    rw [← configured.2]
    rintro _ ⟨⟩
    cases chosen with
    | none => exact (by decide : 0 < DEFAULT_CHUNK_SIZE)
    | some size => exact positive size rfl
  · obtain ⟨_, _, configured⟩ := bind_eq_ok.mp configured
    split at configured
    · rw [pure_eq_ok, Prod.mk.injEq] at configured
      rw [← configured.2]
      exact sized
    · split at configured
      · rw [pure_eq_ok, Prod.mk.injEq] at configured
        rw [← configured.2]
        exact sized
      · obtain ⟨_, _, configured⟩ := bind_eq_ok.mp configured
        rw [pure_eq_ok, Prod.mk.injEq] at configured
        rw [← configured.2]
        rintro _ ⟨⟩
        exact positive _ rfl

/-! ## Every step -/

/-- An operation changes the live volume, or takes a snapshot, or deletes one. -/
theorem step_cases (kept : storage.Kept) (action : Action) :
    (∃ volume, storage.step action = { storage with volume } ∧ ∀ size ∈ volume.config.chunkSize, 0 < size) ∨
    (∃ id defaultName name note info, storage.createSnapshot id defaultName name note = .ok (info, storage.step action)) ∨
    ∃ nameOrId info, action = .deleteSnapshot nameOrId ∧
      storage.deleteSnapshot nameOrId = .ok (info, storage.step action) := by
  have unchanged : ∃ volume, storage = { storage with volume } ∧ ∀ size ∈ volume.config.chunkSize, 0 < size :=
    ⟨storage.volume, rfl, kept.sized⟩
  cases action with
  | mutate change => exact .inl ⟨_, rfl, kept.sized⟩
  | createSnapshot id defaultName name note =>
    unfold step
    dsimp only
    cases created : storage.createSnapshot id defaultName name note with
    | error failure => exact .inl unchanged
    | ok result => exact .inr (.inl ⟨id, defaultName, name, note, result.1, created⟩)
  | deleteSnapshot nameOrId =>
    unfold step
    dsimp only
    cases deleted : storage.deleteSnapshot nameOrId with
    | error failure => exact .inl unchanged
    | ok result => exact .inr (.inr ⟨nameOrId, result.1, rfl, deleted⟩)
  | restoreSnapshot nameOrId =>
    unfold step
    dsimp only
    cases restored : storage.restoreSnapshot nameOrId with
    | error failure => exact .inl unchanged
    | ok result =>
      obtain ⟨_, volume, inserted, same⟩ := restoreSnapshot_ok restored
      refine .inl ⟨volume, same, ?_⟩
      obtain ⟨feed, openInode, deleted⟩ := storage.volume.deleteTables_eq
      rw [Volume.insertTables_config inserted, deleted]
      exact kept.sized
  | configureChunkSize requested =>
    unfold step
    dsimp only
    cases configured : storage.volume.configureChunkSize requested with
    | error failure => exact .inl unchanged
    | ok result => exact .inl ⟨result.2, rfl, configureChunkSize_pos kept.sized configured⟩

theorem step_kept (kept : storage.Kept) (action : Action) : (storage.step action).Kept := by
  rcases step_cases kept action with ⟨volume, same, sized⟩ | ⟨id, _, _, _, info, created⟩ | ⟨_, info, _, deleted⟩
  · rw [same]
    exact ⟨kept.owned, sized⟩
  · obtain ⟨number, _, inserted, volume, others, _⟩ := createSnapshot_ok created
    refine ⟨?_, by rw [volume]; exact kept.sized⟩
    intro other absent
    rw [storage.snapshot.find?_insert inserted] at absent
    split at absent
    · cases absent
    · rename_i different
      rw [others other (by rw [← number]; exact different)]
      exact kept.owned other absent
  · obtain ⟨_, snapshot, volume, gone, others⟩ := deleteSnapshot_ok deleted
    refine ⟨?_, by rw [volume]; exact kept.sized⟩
    intro other absent
    by_cases same : other = info.id
    · rw [same]
      exact gone
    · rw [others other same]
      rw [snapshot, storage.snapshot.find?_erase, if_neg same] at absent
      exact kept.owned other absent

/-- A snapshot is there, with the rows of a volume. -/
structure Holds (storage : SnapshotStorage) (info : SnapshotInfo) (captured : Volume) : Prop where
  kept : storage.Kept
  found : storage.snapshot.find? info.id = some info
  rows : storage.copies info.id = captured.tables

theorem createSnapshot_holds (kept : storage.Kept) {defaultName : Text} {name note : Option JsValue}
    (created : storage.createSnapshot id defaultName name note = .ok (info, storage')) :
    storage'.Holds info storage.volume := by
  have next : storage'.Kept := by
    have stepped := step_kept kept (.createSnapshot id defaultName name note)
    change (settle storage ((storage.createSnapshot id defaultName name note).map Prod.snd)).Kept at stepped
    rw [created] at stepped
    exact stepped
  obtain ⟨number, _, inserted, _, _, copied⟩ := createSnapshot_ok created
  refine ⟨next, ?_, by rw [number]; exact copied kept⟩
  rw [storage.snapshot.find?_insert inserted, if_pos rfl]

/-- The operation does not delete the snapshot. -/
def Spares (id : Text) (storage : SnapshotStorage) : Action → Prop
  | .deleteSnapshot nameOrId => ∀ info ∈ storage.resolveSnapshot nameOrId, info.id ≠ id
  | _ => True

theorem step_holds {captured : Volume} (holds : storage.Holds info captured) (action : Action)
    (spares : Spares info.id storage action) : (storage.step action).Holds info captured := by
  have kept := step_kept holds.kept action
  rcases step_cases holds.kept action with ⟨volume, same, _⟩ | ⟨id, _, _, _, row, created⟩ | ⟨nameOrId, row, rfl, deleted⟩
  · rw [same] at kept ⊢
    exact ⟨kept, holds.found, holds.rows⟩
  · obtain ⟨number, fresh, inserted, _, others, _⟩ := createSnapshot_ok created
    have different : info.id ≠ id := by
      intro same
      rw [← same, holds.found] at fresh
      cases fresh
    refine ⟨kept, ?_, by rw [others _ different]; exact holds.rows⟩
    rw [storage.snapshot.find?_insert inserted, if_neg (by change _ ≠ row.id; rw [number]; exact different)]
    exact holds.found
  · obtain ⟨resolved, snapshot, _, _, others⟩ := deleteSnapshot_ok deleted
    have different : info.id ≠ row.id := Ne.symm (spares row resolved)
    refine ⟨kept, ?_, by rw [others _ different]; exact holds.rows⟩
    rw [snapshot, storage.snapshot.find?_erase, if_neg different]
    exact holds.found

theorem initial_kept (clock : Int) : (initial clock).Kept := ⟨fun _ _ => rfl, nofun⟩

theorem run_kept (clock : Int) (actions : List Action) : (run step (initial clock) actions).Kept := by
  induction actions using List.reverseRecOn with
  | nil => exact initial_kept clock
  | append_singleton actions action ih =>
    rw [run, List.foldl_append]
    exact step_kept ih action

end SnapshotStorage

/-- Everything that a reader sees of a volume. -/
structure Volume.SeenAs (volume captured : Volume) : Prop where
  paths : ∀ path, AgentFS.resolvePath volume path = AgentFS.resolvePath captured path
  metadata : ∀ ino, volume.inode? ino = captured.inode? ino
  targets : ∀ ino, volume.symlink.find? ino = captured.symlink.find? ino
  whole : ∀ path, (AgentFS.readFile volume path).map Prod.fst = (AgentFS.readFile captured path).map Prod.fst
  bytes : ∀ ino offset size, volume.readBack ino offset size = captured.readBack ino offset size

theorem Volume.SameTables.seenAs {volume captured : Volume} (same : volume.SameTables captured)
    (sized : ∀ size ∈ volume.config.chunkSize, 0 < size) (sized' : ∀ size ∈ captured.config.chunkSize, 0 < size)
    (alike : captured.AlikeUnder volume.chunkSize) : volume.SeenAs captured := by
  have paths : ∀ path, AgentFS.resolvePath volume path = AgentFS.resolvePath captured path := by
    intro path
    rw [AgentFS.resolvePath_eq, AgentFS.resolvePath_eq, AgentFS.walk_congr same.dentry]
  have inodes : ∀ ino, volume.inode? ino = captured.inode? ino := by
    intro ino
    rw [inode?, same.inode]
    rfl
  refine ⟨paths, inodes, ?_, ?_, readBack_congr same.data sized sized' alike⟩
  · intro ino
    rw [same.symlink]
  · intro path
    have modes : ∀ ino, AgentFS.getInodeMode volume ino = AgentFS.getInodeMode captured ino :=
      fun ino => congrArg _ (inodes ino)
    have rows : ∀ ino, volume.chunkRows ino (fun _ => true) = captured.chunkRows ino fun _ => true := by
      intro ino
      rw [chunkRows, same.data]
      rfl
    unfold AgentFS.readFile AgentFS.resolvePathOrThrow
    dsimp only
    rw [paths]
    cases AgentFS.resolvePath captured (AgentFS.normalizePath path) with
    | none => rfl
    | some ino =>
      dsimp only [required, bind, Except.bind, pure, Except.pure]
      rw [modes, rows]
      generalize refuse (AgentFS.knownDirectory (AgentFS.getInodeMode captured ino) = true)
        (createFsError .EISDIR "open" (AgentFS.normalizePath path) "illegal operation on a directory") = check
      cases check with
      | error failure => rfl
      | ok _ => rfl

namespace SnapshotStorage

/-- In every run, a snapshot that was taken and not deleted is restored exactly. -/
theorem exactRestore (clock : Int) (before later : List Action) (id defaultName : Text) (name note : Option JsValue)
    {info : SnapshotInfo} {storage : SnapshotStorage}
    (created : (run step (initial clock) before).createSnapshot id defaultName name note = .ok (info, storage))
    (spared : Guarded step (Spares info.id) storage later)
    (fits : Volume.Fits (run step storage later).volume.config (run step (initial clock) before).volume.inode.rows)
    (alike : (run step (initial clock) before).volume.AlikeUnder (run step storage later).volume.chunkSize)
    {nameOrId : Text} {found : SnapshotInfo} (named : (run step storage later).resolveSnapshot nameOrId = some found)
    (first : found.id = info.id) :
    ∃ restored, (run step storage later).restoreSnapshot nameOrId = .ok (info, restored) ∧
      restored.volume.SeenAs (run step (initial clock) before).volume ∧
      ∀ other, restored.copies other = (run step storage later).copies other := by
  have kept := run_kept clock before
  have holds := @run_invariant _ _ step (Spares info.id) (Holds · info (run step (initial clock) before).volume)
    (fun _ action holds spares => step_holds holds action spares) _ _ (createSnapshot_holds kept created) spared
  generalize run step storage later = final at *
  generalize run step (initial clock) before = start at *
  have same : found = info := by
    have stored := resolveSnapshot_mem named
    rw [first, holds.found] at stored
    exact (Option.some.inj stored).symm
  subst same
  have rows := holds.rows
  unfold copies Volume.tables at rows
  simp only [Prod.mk.injEq] at rows
  obtain ⟨volume, inserted, tables, config⟩ := Volume.insertTables_ok final.volume start.volume fits
  have sized : ∀ size ∈ volume.config.chunkSize, 0 < size := by
    rw [config]
    exact holds.kept.sized
  refine ⟨{ final with volume }, ?_, ?_, fun _ => rfl⟩
  · refine bind_eq_ok.mpr ⟨found, required_eq_ok.mpr named, bind_eq_ok.mpr ⟨volume, ?_, rfl⟩⟩
    rw [rows.1, rows.2.1, rows.2.2.1, rows.2.2.2]
    exact inserted
  · apply tables.seenAs sized kept.sized
    unfold Volume.chunkSize
    rw [config]
    exact alike

/-- A volume with one file of the given content. -/
def holding (chunkSize : Nat) (content : Bytes) : List Action :=
  [.configureChunkSize (some (.integer chunkSize)),
    .mutate fun volume => settle volume (AgentFS.writeFile volume chunkSize "/f".toList content)]

def captured (chunkSize : Nat) (content : Bytes) : SnapshotStorage :=
  settle (run step (initial 0) (holding chunkSize content))
    (((run step (initial 0) (holding chunkSize content)).createSnapshot "id".toList "".toList (some (.text "first".toList))
      none).map Prod.snd)

/-- The file is overwritten, in the volume and in a second snapshot. -/
def overwritten : List Action :=
  [.mutate fun volume => settle volume (AgentFS.writeFile volume 4096 "/f".toList [9]),
    .createSnapshot "other".toList "second".toList none none]

theorem exactRestore_overwritten : ∃ info restored,
    (run step (captured 4096 [1, 2, 3]) overwritten).restoreSnapshot "first".toList = .ok (info, restored) ∧
      restored.volume.SeenAs (run step (initial 0) (holding 4096 [1, 2, 3])).volume ∧
      ∀ other, restored.copies other = (run step (captured 4096 [1, 2, 3]) overwritten).copies other := by
  refine ⟨⟨"id".toList, "first".toList, none, 0, some 4096, 2, 1, 1, 0, 3⟩, ?_⟩
  exact exactRestore 0 (holding 4096 [1, 2, 3]) overwritten "id".toList "".toList (some (.text "first".toList)) none
    (by decide) ⟨trivial, trivial, trivial⟩ (by decide) (by decide) (by decide) rfl

/-- The volume is emptied and gets larger chunks. -/
def rechunked : List Action :=
  [.mutate fun volume => settle volume (AgentFS.unlink volume "/f".toList), .configureChunkSize (some (.integer 8192))]

/-- The restored file has lost what lay behind its first chunk. -/
theorem rechunked_misreads :
    Guarded step (Spares "id".toList) (captured 4096 (List.replicate 4097 7)) rechunked ∧
      ((run step (captured 4096 (List.replicate 4097 7)) rechunked).restoreSnapshot "id".toList).isOk ∧
      ¬(run step (captured 4096 (List.replicate 4097 7)) (rechunked ++ [.restoreSnapshot "id".toList])).volume.SeenAs
        (run step (initial 0) (holding 4096 (List.replicate 4097 7))).volume := by
  refine ⟨⟨trivial, trivial, trivial⟩, by decide +kernel, ?_⟩
  intro seen
  have before : ((run step (initial 0) (holding 4096 (List.replicate 4097 7))).volume.readBack 2 4096 1).toOption = some [7] := by
    decide +kernel
  have after : ((run step (captured 4096 (List.replicate 4097 7))
      (rechunked ++ [.restoreSnapshot "id".toList])).volume.readBack 2 4096 1).toOption = some [] := by decide +kernel
  rw [seen.bytes, before] at after
  cases after

end SnapshotStorage

end AiryFS
