import AiryFS.Snapshots.Diff
import AiryFS.Snapshots.ExactExport

/-! A diff lists the paths below the root that differ between its two endpoints.

Every snapshot of a run shows the volume of an earlier state. Two files are compared by their
chunk rows, which are their contents where neither has a hole.
-/

set_option autoImplicit false

namespace AiryFS

open Foundation

namespace SnapshotStorage

variable {storage : SnapshotStorage}

/-- The state at an endpoint: the live volume, or one that was captured. -/
def Shows (storage : SnapshotStorage) (volume : Volume) : DiffEndpoint → Prop
  | .live => storage.volume = volume
  | .snapshot nameOrId => ∃ info, storage.resolveSnapshot nameOrId = some info ∧ storage.Holds info volume

/-- A snapshot that is there after a step was taken by it, or was there before and is spared. -/
theorem step_found (kept : storage.Kept) (action : Action) {info : SnapshotInfo}
    (found : (storage.step action).snapshot.find? info.id = some info) :
    (∃ id defaultName name note, action = .createSnapshot id defaultName name note ∧ info.id = id ∧
      (storage.step action).Holds info storage.volume) ∨
      (storage.snapshot.find? info.id = some info ∧ Spares info.id storage action) := by
  cases action with
  | mutate change => exact .inr ⟨found, trivial⟩
  | createSnapshot id defaultName name note =>
    unfold step at found ⊢
    dsimp only at found ⊢
    cases created : storage.createSnapshot id defaultName name note with
    | error failure =>
      rw [created] at found
      exact .inr ⟨found, trivial⟩
    | ok result =>
      obtain ⟨row, next⟩ := result
      rw [created] at found
      obtain ⟨numbered, _, inserted, _, _, _⟩ := createSnapshot_ok created
      change next.snapshot.find? info.id = some info at found
      rw [storage.snapshot.find?_insert inserted] at found
      split at found
      · left
        rw [← Option.some.inj found]
        exact ⟨id, defaultName, name, note, rfl, numbered, createSnapshot_holds kept created⟩
      · exact .inr ⟨found, trivial⟩
  | deleteSnapshot nameOrId =>
    unfold step at found
    dsimp only at found
    cases deleted : storage.deleteSnapshot nameOrId with
    | error failure =>
      rw [deleted] at found
      refine .inr ⟨found, fun row resolved => ?_⟩
      rw [deleteSnapshot, requireSnapshot, show storage.resolveSnapshot nameOrId = some row from resolved] at deleted
      cases deleted
    | ok result =>
      obtain ⟨row, next⟩ := result
      rw [deleted] at found
      obtain ⟨resolved, snapshot, _, _, _⟩ := deleteSnapshot_ok deleted
      change next.snapshot.find? info.id = some info at found
      rw [snapshot, storage.snapshot.find?_erase] at found
      split at found
      · cases found
      · rename_i different
        refine .inr ⟨found, fun other same => ?_⟩
        rw [show storage.resolveSnapshot nameOrId = some other from same, Option.some.injEq] at resolved
        rw [resolved]
        exact Ne.symm different
  | restoreSnapshot nameOrId =>
    refine .inr ⟨?_, trivial⟩
    unfold step at found
    dsimp only at found
    cases restored : storage.restoreSnapshot nameOrId with
    | error failure =>
      rw [restored] at found
      exact found
    | ok result =>
      rw [restored] at found
      obtain ⟨_, volume, _, same⟩ := restoreSnapshot_ok restored
      change result.2.snapshot.find? info.id = some info at found
      rw [same] at found
      exact found
  | configureChunkSize requested =>
    refine .inr ⟨?_, trivial⟩
    unfold step at found
    dsimp only at found
    cases configured : storage.volume.configureChunkSize requested <;>
    · rw [configured] at found
      exact found

/-- Every snapshot of a run holds the volume that it was taken of. -/
theorem run_holds (clock : Int) (actions : List Action) {info : SnapshotInfo}
    (found : (run step (initial clock) actions).snapshot.find? info.id = some info) :
    ∃ earlier id defaultName name note, earlier ++ [.createSnapshot id defaultName name note] <+: actions ∧ info.id = id ∧
      (run step (initial clock) actions).Holds info (run step (initial clock) earlier).volume := by
  induction actions using List.reverseRecOn with
  | nil => cases found
  | append_singleton actions action ih =>
    rw [run_concat] at found ⊢
    rcases step_found (run_kept clock actions) action found with ⟨id, defaultName, name, note, rfl, numbered, taken⟩ | ⟨before, spares⟩
    · exact ⟨actions, id, defaultName, name, note, List.prefix_rfl, numbered, taken⟩
    · obtain ⟨earlier, id, defaultName, name, note, reached, numbered, holds⟩ := ih before
      exact ⟨earlier, id, defaultName, name, note, reached.trans (List.prefix_append _ _), numbered, step_holds holds action spares⟩

/-- Whatever has happened since, a snapshot that can be named reads as the volume did when it was taken. -/
theorem snapshot_reads_taken (clock : Int) (actions : List Action) {nameOrId : Text} {selector : StateSelector}
    (resolved : (run step (initial clock) actions).resolveEndpoint (.snapshot nameOrId) = .ok selector) :
    ∃ earlier id defaultName name note, earlier ++ [.createSnapshot id defaultName name note] <+: actions ∧
      selector = .snapshotId id ∧
      FsStateView.load (run step (initial clock) actions) selector = .live (run step (initial clock) earlier).volume := by
  obtain ⟨info, required, same⟩ := bind_eq_ok.mp resolved
  have found := resolveSnapshot_mem (required_eq_ok.mp required)
  obtain ⟨earlier, id, defaultName, name, note, reached, numbered, holds⟩ := run_holds clock actions found
  rw [← pure_eq_ok.mp same]
  exact ⟨earlier, id, defaultName, name, note, reached, by rw [numbered], FsStateView.load_snapshot holds⟩

/-- A snapshot of the empty volume, and a change of the root's mode after it. -/
def touchedActions : List Action := [.createSnapshot "id".toList [] (some (.text "first".toList)) none,
  .mutate fun volume => volume.updateInode ROOT_INO fun row => { row with mode := 0o40700 }]

theorem snapshot_reads_taken_first : ∃ earlier id defaultName name note,
    earlier ++ [.createSnapshot id defaultName name note] <+: touchedActions ∧ StateSelector.snapshotId "id".toList = .snapshotId id ∧
      FsStateView.load (run step (initial 0) touchedActions) (.snapshotId "id".toList) =
        .live (run step (initial 0) earlier).volume :=
  @snapshot_reads_taken 0 touchedActions "first".toList _ (by decide)

theorem Shows.load {volume : Volume} {endpoint : DiffEndpoint} (shows_ : storage.Shows volume endpoint) :
    ∃ selector, storage.resolveEndpoint endpoint = .ok selector ∧ FsStateView.load storage selector = .live volume := by
  cases endpoint with
  | live => exact ⟨.live, rfl, congrArg FsStateView.live shows_⟩
  | snapshot nameOrId =>
    obtain ⟨info, found, holds⟩ := shows_
    refine ⟨.snapshotId info.id, ?_, FsStateView.load_snapshot holds⟩
    exact bind_eq_ok.mpr ⟨info, required_eq_ok.mpr found, rfl⟩

theorem diffSnapshot_shows {base target : DiffEndpoint} {baseVolume targetVolume : Volume}
    (shows_ : storage.Shows baseVolume base) (shows' : storage.Shows targetVolume target) :
    storage.diffSnapshot base target = .ok (diffStates (.live baseVolume) (.live targetVolume)) := by
  obtain ⟨selector, resolved, loaded⟩ := shows_.load
  obtain ⟨selector', resolved', loaded'⟩ := shows'.load
  refine bind_eq_ok.mpr ⟨selector, resolved, bind_eq_ok.mpr ⟨selector', resolved', ?_⟩⟩
  rw [loaded, loaded']
  rfl

theorem diffStates_self (volume : Volume) : diffStates (.live volume) (.live volume) = [] := by
  have nothing (path : Text) :
      diffEntry (.live volume) (.live volume) (FsStateView.live volume).paths (FsStateView.live volume).paths path = none := by
    unfold diffEntry
    cases (FsStateView.live volume).paths.find? fun entry => entry.path = path with
    | none => rfl
    | some entry =>
      unfold modifiedEntry
      dsimp only
      rw [FsStateView.inodeMeta_live, FsStateView.fileContentsEqual_live]
      cases volume.inode? entry.ino <;> cases entry.kind <;> simp [metadataEqual]
  simp [diffStates, nothing]

end SnapshotStorage

/-! ## Exactness -/

/-- The entries are the changes of these paths, each once, in the order of the paths. -/
structure ListsExactly (entries : List SnapshotDiffEntry) (base target : Volume) (content content' : Int → Bytes)
    (about : List Text → Prop) : Prop where
  listed : ∀ path change, Separable '/' path → about path →
    ((∃ entry ∈ entries, entry.path = absolute '/' path ∧ entry.change = change) ↔
      base.change target content content' path = some change)
  existing : ∀ entry ∈ entries, ∃ path, Separable '/' path ∧ entry.path = absolute '/' path ∧
    (base.locate ROOT_INO path ≠ none ∨ target.locate ROOT_INO path ≠ none)
  once : (entries.map (·.path)).Nodup
  ordered : entries.Pairwise fun first second => Archive.utf16 first.path ≤ Archive.utf16 second.path

/-- A path below the root, where two files of the same metadata have no holes. -/
def Comparable (base target : Volume) (baseSize targetSize : Nat) (path : List Text) : Prop :=
  path ≠ [] ∧ ∀ a b, base.locate ROOT_INO path = some a → target.locate ROOT_INO path = some b →
    base.kindAt a = .file → target.kindAt b = .file → (base.inode? a).map META_FIELDS = (target.inode? b).map META_FIELDS →
      base.Covered baseSize a ∧ target.Covered targetSize b

namespace SnapshotStorage

variable {storage : SnapshotStorage} {base target : DiffEndpoint} {baseVolume targetVolume : Volume} {baseSize targetSize : Nat}

theorem diffStates_exact (treelike : baseVolume.Treelike) (treelike' : targetVolume.Treelike) (positive : 0 < baseSize)
    (positive' : 0 < targetSize) (bounded : baseVolume.Bounded baseSize) (bounded' : targetVolume.Bounded targetSize) :
    ListsExactly (diffStates (.live baseVolume) (.live targetVolume)) baseVolume targetVolume (baseVolume.logicalBytes baseSize)
      (targetVolume.logicalBytes targetSize) (Comparable baseVolume targetVolume baseSize targetSize) where
  listed path change separable about := by
    have same : baseVolume.change targetVolume baseVolume.wholeBytes targetVolume.wholeBytes path =
        baseVolume.change targetVolume (baseVolume.logicalBytes baseSize) (targetVolume.logicalBytes targetSize) path := by
      apply Volume.change_congr
      intro a b located located'
      apply Volume.changed_congr
      intro file file' metadata
      obtain ⟨covered, covered'⟩ := about.2 a b located located' file file' metadata
      obtain ⟨row, stored⟩ := Volume.locate_stored located
      obtain ⟨row', stored'⟩ := Volume.locate_stored located'
      have left : baseVolume.wholeBytes a = _ := covered.whole positive (bounded.within stored)
      have right : targetVolume.wholeBytes b = _ := covered'.whole positive' (bounded'.within stored')
      rw [left, right]
    rw [mem_diffStates treelike treelike', ← same]
    constructor
    · rintro ⟨names, _, separable', spelled, known⟩
      rw [absolute_injective separable separable' spelled]
      exact known
    · intro known
      exact ⟨path, about.1, separable, rfl, known⟩
  existing entry member := by
    obtain ⟨names, _, separable, spelled, known⟩ := (mem_diffStates treelike treelike').mp ⟨entry, member, rfl, rfl⟩
    refine ⟨names, separable, spelled, ?_⟩
    by_contra nowhere
    simp only [ne_eq, not_or, not_not] at nowhere
    rw [Volume.change, nowhere.1, nowhere.2] at known
    cases known
  once := (diffStates_sorted _ _).1
  ordered := (diffStates_sorted _ _).2

/-- Between any two endpoints a diff lists what differs below the root, nothing between an endpoint and itself, and the
other way round when the endpoints are swapped. -/
theorem exactDiff (shows_ : storage.Shows baseVolume base) (shows' : storage.Shows targetVolume target)
    (treelike : baseVolume.Treelike) (treelike' : targetVolume.Treelike) (positive : 0 < baseSize) (positive' : 0 < targetSize)
    (bounded : baseVolume.Bounded baseSize) (bounded' : targetVolume.Bounded targetSize) :
    ∃ entries swapped, storage.diffSnapshot base target = .ok entries ∧
      ListsExactly entries baseVolume targetVolume (baseVolume.logicalBytes baseSize) (targetVolume.logicalBytes targetSize)
        (Comparable baseVolume targetVolume baseSize targetSize) ∧
      storage.diffSnapshot base base = .ok [] ∧ storage.diffSnapshot target base = .ok swapped ∧
      ∀ path change, (∃ entry ∈ swapped, entry.path = path ∧ entry.change = DiffChange.swap change) ↔
        ∃ entry ∈ entries, entry.path = path ∧ entry.change = change := by
  refine ⟨_, _, diffSnapshot_shows shows_ shows', diffStates_exact treelike treelike' positive positive' bounded bounded', ?_,
    diffSnapshot_shows shows' shows_, ?_⟩
  · rw [diffSnapshot_shows shows_ shows_, Except.ok.injEq]
    apply List.eq_nil_iff_forall_not_mem.mpr
    intro entry member
    obtain ⟨names, _, _, _, known⟩ := (mem_diffStates treelike treelike).mp ⟨entry, member, rfl, rfl⟩
    rw [Volume.change_self] at known
    cases known
  · intro path change
    rw [mem_diffStates treelike' treelike, mem_diffStates treelike treelike']
    refine exists_congr fun names => and_congr_right fun _ => and_congr_right fun _ => and_congr_right fun _ => ?_
    rw [Volume.change_swap]
    cases baseVolume.change targetVolume baseVolume.wholeBytes targetVolume.wholeBytes names with
    | none => exact ⟨nofun, nofun⟩
    | some known => cases known <;> cases change <;> decide

/-! ## One file, again -/

theorem treelike_of_entry {volume : Volume} (entries : volume.dentry.rows = [⟨['f'], ROOT_INO, 2⟩])
    (root : volume.directoryAt ROOT_INO = true) : volume.Treelike where
  root := root
  top entry member := by
    rw [entries] at member
    rw [List.mem_singleton.mp member]
    decide
  single first member second member' _ _ := by
    rw [entries] at member member'
    rw [List.mem_singleton.mp member, List.mem_singleton.mp member']
  names entry member := by
    rw [entries] at member
    rw [List.mem_singleton.mp member]
    decide

/-- The captured file is written again. -/
def rewritten : SnapshotStorage := (taken denseWrites).step ((remoteWrite 0 [9]).action 4)

theorem taken_shows : (taken denseWrites).Holds (firstInfo 6) (written denseWrites).volume := by
  have created : (written denseWrites).createSnapshot "id".toList "".toList (some (.text "first".toList)) none =
      .ok (firstInfo 6, taken denseWrites) := by decide
  have kept : (written denseWrites).Kept := run_kept 0 _
  exact createSnapshot_holds kept created

theorem exactDiff_rewritten : ∃ entries swapped, rewritten.diffSnapshot (.snapshot "first".toList) .live = .ok entries ∧
    ListsExactly entries (written denseWrites).volume rewritten.volume ((written denseWrites).volume.logicalBytes 4)
      (rewritten.volume.logicalBytes 4) (Comparable (written denseWrites).volume rewritten.volume 4 4) ∧
    rewritten.diffSnapshot (.snapshot "first".toList) (.snapshot "first".toList) = .ok [] ∧
    rewritten.diffSnapshot .live (.snapshot "first".toList) = .ok swapped ∧
    ∀ path change, (∃ entry ∈ swapped, entry.path = path ∧ entry.change = DiffChange.swap change) ↔
      ∃ entry ∈ entries, entry.path = path ∧ entry.change = change := by
  have sized : ∀ operation ∈ denseWrites, operation.Sized 4 := by decide
  have before : (written denseWrites).volume.Bounded 4 := writes_bounded (by decide) sized initial_bounded
  have after : rewritten.volume.Bounded 4 := by
    apply action_bounded (by decide) (by decide)
    exact before
  have found : rewritten.resolveSnapshot "first".toList = some (firstInfo 6) := by decide
  exact exactDiff ⟨firstInfo 6, found, step_holds taken_shows _ trivial⟩ rfl (treelike_of_entry (by decide) (by decide))
    (treelike_of_entry (by decide) (by decide)) (by decide) (by decide) before after

/-- The mode of the root is changed. -/
def reowned : SnapshotStorage :=
  (taken denseWrites).step (.mutate fun volume => volume.updateInode ROOT_INO fun row => { row with mode := 0o40700 })

/-- The root differs from what was captured, and no entry says so. -/
theorem root_unlisted : reowned.Shows (written denseWrites).volume (.snapshot "first".toList) ∧
    reowned.Shows reowned.volume .live ∧
    ¬∃ entries, reowned.diffSnapshot (.snapshot "first".toList) .live = .ok entries ∧
      ListsExactly entries (written denseWrites).volume reowned.volume ((written denseWrites).volume.logicalBytes 4)
        (reowned.volume.logicalBytes 4) fun _ => True := by
  have found : reowned.resolveSnapshot "first".toList = some (firstInfo 6) := by decide
  refine ⟨⟨firstInfo 6, found, step_holds taken_shows _ trivial⟩, rfl, ?_⟩
  rintro ⟨entries, compared, exact_⟩
  have nothing : reowned.diffSnapshot (.snapshot "first".toList) .live = .ok [] := by decide +kernel
  rw [nothing, Except.ok.injEq] at compared
  have differs : (written denseWrites).volume.change reowned.volume ((written denseWrites).volume.logicalBytes 4)
      (reowned.volume.logicalBytes 4) [] = some .modified := by decide
  obtain ⟨entry, member, _⟩ := (exact_.listed [] .modified (fun _ member => (by cases member)) trivial).mpr differs
  rw [← compared] at member
  cases member

end SnapshotStorage

end AiryFS
