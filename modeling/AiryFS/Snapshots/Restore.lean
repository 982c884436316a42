import AiryFS.Snapshots.Storage
import AiryFS.Foundation.Runs

/-! A restore puts back the tables that were captured.

The live tables are empty before the first row is inserted, so only the quotas can refuse a
row, and they look at nothing but the inodes of the snapshot.
-/

set_option autoImplicit false

namespace AiryFS

open Foundation

namespace Volume

variable {volume : Volume}

/-! ## Deleting -/

theorem deleteDentries_eq (volume : Volume) : ∃ feed, volume.deleteDentries = { volume with dentry := .empty, feed } := by
  have each : ∀ (entries : List DentryRow) (volume : Volume), ∃ feed,
      entries.foldl (fun volume entry => volume.deleteDentry entry.parentIno entry.name) volume =
        { volume with dentry := volume.dentry.deleteWhere fun row => entries.any fun entry => entry.key = row.key, feed } := by
    intro entries
    induction entries with
    | nil =>
      intro volume
      refine ⟨volume.feed, ?_⟩
      have kept : volume.dentry.deleteWhere (fun row => [].any fun entry : DentryRow => entry.key = row.key) = volume.dentry :=
        Table.ext (List.filter_eq_self.mpr fun _ _ => rfl)
      rw [kept]
      rfl
    | cons entry entries ih =>
      intro volume
      obtain ⟨feed, deleted⟩ := volume.deleteDentry_eq entry.parentIno entry.name
      rw [List.foldl_cons, deleted]
      obtain ⟨feed', rest⟩ := ih { volume with dentry := volume.dentry.erase (entry.parentIno, entry.name), feed }
      refine ⟨feed', rest.trans ?_⟩
      have both : (volume.dentry.erase (entry.parentIno, entry.name)).deleteWhere
          (fun row => entries.any fun entry => entry.key = row.key) =
            volume.dentry.deleteWhere fun row => (entry :: entries).any fun entry => entry.key = row.key := by
        apply Table.ext
        simp only [Table.erase, Table.deleteWhere, List.filter_filter]
        apply List.filter_congr
        intro row _
        rw [List.any_cons, Bool.not_or, Bool.and_comm]
        congr 2
        exact decide_eq_decide.mpr eq_comm
      rw [both]
  obtain ⟨feed, deleted⟩ := each volume.dentry.rows volume
  refine ⟨feed, deleted.trans ?_⟩
  have all : volume.dentry.deleteWhere (fun row => volume.dentry.rows.any fun entry => entry.key = row.key) = .empty := by
    apply Table.ext
    apply List.filter_eq_nil_iff.mpr
    intro row member
    simp only [Bool.not_eq_true', Bool.not_eq_false]
    exact List.any_eq_true.mpr ⟨row, member, decide_eq_true rfl⟩
  rw [all]

theorem deleteTables_eq (volume : Volume) : ∃ feed openInode, volume.deleteTables =
    { volume with inode := .empty, dentry := .empty, data := .empty, symlink := .empty, openInode, feed } := by
  obtain ⟨feed, deleted⟩ := (volume.deleteInodes fun _ => true).deleteDentries_eq
  refine ⟨feed, (volume.deleteInodes fun _ => true).openInode, ?_⟩
  have none : volume.inode.deleteWhere (fun _ => true) = .empty :=
    Table.ext (List.filter_eq_nil_iff.mpr fun _ _ => by simp)
  unfold deleteTables
  dsimp only
  rw [deleted]
  unfold deleteInodes
  rw [none]

/-! ## Inserting -/

/-- The quotas admit these inodes in an empty table. -/
def Fits (config : Config) (inode : List InodeRow) : Prop :=
  (∀ quota ∈ config.quotaInodes, inode.length ≤ quota) ∧ ∀ quota ∈ config.quotaBytes, (inode.map (·.size)).sum ≤ quota

instance (config : Config) (inode : List InodeRow) : Decidable (Fits config inode) :=
  inferInstanceAs (Decidable (_ ∧ _))

theorem quotaInsert_ok (inodes : ∀ quota ∈ volume.config.quotaInodes, volume.inode.rows.length + 1 ≤ quota) {size : Nat}
    (bytes : ∀ quota ∈ volume.config.quotaBytes, volume.usedBytes + size ≤ quota) :
    volume.quotaInsert size = .ok () := by
  unfold quotaInsert
  cases quotaInodes : volume.config.quotaInodes with
  | none =>
    cases quotaBytes : volume.config.quotaBytes with
    | none => rfl
    | some quota =>
      have room := bytes quota quotaBytes
      simp [Nat.not_lt.mpr room, pure, Except.pure]
  | some limit =>
    have more := inodes limit quotaInodes
    cases quotaBytes : volume.config.quotaBytes with
    | none => simp [Nat.not_lt.mpr more, pure, Except.pure]
    | some quota =>
      have room := bytes quota quotaBytes
      simp [Nat.not_lt.mpr more, Nat.not_lt.mpr room, pure, Except.pure]

/-- The quotas admit the inodes that are still to come. -/
def Room (volume : Volume) (rest : List InodeRow) : Prop := Fits volume.config (volume.inode.rows ++ rest)

/-- The tables that the insertion into one of them leaves alone are listed after it. -/
theorem storeInodes_ok {volume : Volume} (empty : volume.inode = .empty) {inode : InodeTable}
    (fits : Fits volume.config inode.rows) :
    ∃ volume', inode.rows.foldlM storeInode volume = .ok volume' ∧ volume'.inode = inode ∧
      (volume'.dentry, volume'.data, volume'.symlink, volume'.config) =
        (volume.dentry, volume.data, volume.symlink, volume.config) := by
  have inserts : ∀ (state : Volume) row rest, state.inode.find? row.ino = none → state.Room (row :: rest) →
      ∃ state', state.storeInode row = .ok state' ∧ state'.inode.rows = state.inode.rows ++ [row] ∧
        (state'.dentry, state'.data, state'.symlink, state'.config) =
          (state.dentry, state.data, state.symlink, state.config) ∧ state'.Room rest := by
    intro state row rest absent room
    obtain ⟨inode, stored⟩ := state.inode.insert?_of_absent absent
    have rows := (state.inode.insert?_eq_some_iff.mp stored).2
    have admitted : state.quotaInsert row.size = .ok () := by
      apply quotaInsert_ok
      · intro quota limit
        have inodes := room.1 quota limit
        rw [List.length_append, List.length_cons] at inodes
        omega
      · intro quota limit
        have bytes := room.2 quota limit
        rw [List.map_append, List.map_cons, List.sum_append, List.sum_cons] at bytes
        rw [usedBytes]
        omega
    refine ⟨{ state with inode, inodeSequence := max state.inodeSequence row.ino }, ?_, rows, rfl, ?_⟩
    · rw [storeInode, admitted, ok_bind, stored]
      rfl
    · change Fits state.config (inode.rows ++ rest)
      rw [rows, List.append_assoc]
      exact room
  apply refill inserts inode empty
  rw [Room, empty]
  exact fits

theorem insertDentries_ok {volume : Volume} (empty : volume.dentry = .empty) (dentry : DentryTable) :
    ∃ volume', dentry.rows.foldlM insertDentry volume = .ok volume' ∧ volume'.dentry = dentry ∧
      (volume'.inode, volume'.data, volume'.symlink, volume'.config) =
        (volume.inode, volume.data, volume.symlink, volume.config) := by
  apply refill_of_free _ dentry empty
  intro state row absent
  obtain ⟨dentry, stored⟩ := state.dentry.insert?_of_absent absent
  refine ⟨{ state with dentry, feed := state.feed.entryEvent .create dentry.rows row state.now }, ?_, ?_, rfl⟩
  · rw [insertDentry, stored]
  · exact (state.dentry.insert?_eq_some_iff.mp stored).2

theorem insertChunks_ok {volume : Volume} (empty : volume.data = .empty) (data : DataTable) :
    ∃ volume', data.rows.foldlM (fun volume row => volume.insertChunk row.ino row.chunkIndex row.data) volume = .ok volume' ∧
      volume'.data = data ∧ (volume'.inode, volume'.dentry, volume'.symlink, volume'.config) =
        (volume.inode, volume.dentry, volume.symlink, volume.config) := by
  apply refill_of_free _ data empty
  intro state row absent
  obtain ⟨data, stored⟩ := state.data.insert?_of_absent absent
  refine ⟨{ state with data }, ?_, (state.data.insert?_eq_some_iff.mp stored).2, rfl⟩
  rw [insertChunk, stored]

theorem insertSymlinks_ok {volume : Volume} (empty : volume.symlink = .empty) (symlink : SymlinkTable) :
    ∃ volume', symlink.rows.foldlM (fun volume row => volume.insertSymlink row.ino row.target) volume = .ok volume' ∧
      volume'.symlink = symlink ∧ (volume'.inode, volume'.dentry, volume'.data, volume'.config) =
        (volume.inode, volume.dentry, volume.data, volume.config) := by
  apply refill_of_free _ symlink empty
  intro state row absent
  obtain ⟨symlink, stored⟩ := state.symlink.insert?_of_absent absent
  refine ⟨{ state with symlink }, ?_, (state.symlink.insert?_eq_some_iff.mp stored).2, rfl⟩
  rw [insertSymlink, stored]

theorem storeInode_ok {row : InodeRow} {volume' : Volume} (stored : volume.storeInode row = .ok volume') :
    ∃ inode, volume.inode.insert? row = some inode ∧
      volume' = { volume with inode, inodeSequence := max volume.inodeSequence row.ino } := by
  obtain ⟨_, _, stored⟩ := bind_eq_ok.mp stored
  split at stored
  · cases stored
  · rename_i inode inserted
    exact ⟨inode, inserted, (pure_eq_ok.mp stored).symm⟩

theorem insertChunk_ok {ino : Int} {chunkIndex : Nat} {bytes : Bytes} {volume' : Volume}
    (stored : volume.insertChunk ino chunkIndex bytes = .ok volume') : ∃ data, volume' = { volume with data } := by
  unfold insertChunk at stored
  split at stored
  · cases stored
  · exact ⟨_, (Except.ok.inj stored).symm⟩

theorem insertSymlink_ok {ino : Int} {target : Text} {volume' : Volume}
    (stored : volume.insertSymlink ino target = .ok volume') : ∃ symlink, volume' = { volume with symlink } := by
  unfold insertSymlink at stored
  split at stored
  · cases stored
  · exact ⟨_, (Except.ok.inj stored).symm⟩

/-- What does not depend on the tables is as it was before the rows were inserted. -/
theorem insertTables_config {inode : List InodeRow} {dentry : List DentryRow} {data : List DataRow}
    {symlink : List SymlinkRow} {volume' : Volume}
    (inserted : volume.insertTables inode dentry data symlink = .ok volume') : volume'.config = volume.config := by
  obtain ⟨first, inodes, inserted⟩ := bind_eq_ok.mp inserted
  obtain ⟨second, dentries, inserted⟩ := bind_eq_ok.mp inserted
  obtain ⟨third, chunks, inserted⟩ := bind_eq_ok.mp inserted
  obtain ⟨fourth, symlinks, inserted⟩ := bind_eq_ok.mp inserted
  rw [← pure_eq_ok.mp inserted]
  have kept : first.config = volume.config := by
    refine @foldlM_induction _ _ _ (fun state => state.config = volume.config) _ ?_ _ _ _ rfl inodes
    intro state row state' same stored
    obtain ⟨_, _, rfl⟩ := storeInode_ok stored
    exact same
  have kept : second.config = volume.config := by
    refine @foldlM_induction _ _ _ (fun state => state.config = volume.config) _ ?_ _ _ _ kept dentries
    intro state row state' same stored
    obtain ⟨_, _, _, rfl⟩ := state.insertDentry_ok stored
    exact same
  have kept : third.config = volume.config := by
    refine @foldlM_induction _ _ _ (fun state => state.config = volume.config) _ ?_ _ _ _ kept chunks
    intro state row state' same stored
    obtain ⟨_, rfl⟩ := insertChunk_ok stored
    exact same
  refine @foldlM_induction _ _ _ (fun state => state.config = volume.config) _ ?_ _ _ _ kept symlinks
  intro state row state' same stored
  obtain ⟨_, rfl⟩ := insertSymlink_ok stored
  exact same

/-- The volume has the filesystem tables of another one. -/
structure SameTables (first second : Volume) : Prop where
  inode : first.inode = second.inode
  dentry : first.dentry = second.dentry
  data : first.data = second.data
  symlink : first.symlink = second.symlink

/-- Whatever was live before, the captured tables come back. -/
theorem insertTables_ok (live captured : Volume) (fits : Fits live.config captured.inode.rows) :
    ∃ volume, live.deleteTables.insertTables captured.inode.rows captured.dentry.rows captured.data.rows
      captured.symlink.rows = .ok volume ∧ volume.SameTables captured ∧ volume.config = live.config := by
  obtain ⟨feed, openInode, deleted⟩ := live.deleteTables_eq
  rw [deleted]
  obtain ⟨first, inodes, inode, keptFirst⟩ := @storeInodes_ok { live with
    inode := .empty, dentry := .empty, data := .empty, symlink := .empty, openInode, feed } rfl _ fits
  simp only [Prod.mk.injEq] at keptFirst
  obtain ⟨second, dentries, dentry, keptSecond⟩ := insertDentries_ok keptFirst.1 captured.dentry
  simp only [Prod.mk.injEq] at keptSecond
  obtain ⟨third, chunks, data, keptThird⟩ := insertChunks_ok (keptSecond.2.1.trans keptFirst.2.1) captured.data
  simp only [Prod.mk.injEq] at keptThird
  obtain ⟨fourth, symlinks, symlink, keptFourth⟩ :=
    insertSymlinks_ok (keptThird.2.2.1.trans (keptSecond.2.2.1.trans keptFirst.2.2.1)) captured.symlink
  simp only [Prod.mk.injEq] at keptFourth
  refine ⟨{ fourth with openInode := .empty }, ?_, ⟨?_, ?_, ?_, symlink⟩, ?_⟩
  · refine bind_eq_ok.mpr ⟨first, inodes, bind_eq_ok.mpr ⟨second, dentries, ?_⟩⟩
    exact bind_eq_ok.mpr ⟨third, chunks, bind_eq_ok.mpr ⟨fourth, symlinks, rfl⟩⟩
  · exact keptFourth.1.trans (keptThird.1.trans (keptSecond.1.trans inode))
  · exact keptFourth.2.1.trans (keptThird.2.1.trans dentry)
  · exact keptFourth.2.2.1.trans data
  · exact keptFourth.2.2.2.trans (keptThird.2.2.2.trans (keptSecond.2.2.2.trans keptFirst.2.2.2))

end Volume

end AiryFS
