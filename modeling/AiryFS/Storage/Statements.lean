import AiryFS.Storage.Volume
import Mathlib.Logic.Function.Basic
import AiryFS.Foundation.Fallible

/-! What each statement does to the tables it does not rewrite, and to lookups in those it does. -/

set_option autoImplicit false

namespace AiryFS

open Foundation

namespace Volume

variable (volume : Volume)

/-! ## Inode rows -/

section Inodes

variable (ino : Int) (change : InodeRow → InodeRow)

@[simp] theorem updateInode_dentry : (volume.updateInode ino change).dentry = volume.dentry := rfl
@[simp] theorem updateInode_data : (volume.updateInode ino change).data = volume.data := rfl
@[simp] theorem updateInode_symlink : (volume.updateInode ino change).symlink = volume.symlink := rfl
@[simp] theorem updateInode_openInode : (volume.updateInode ino change).openInode = volume.openInode := rfl
@[simp] theorem updateInode_sequence : (volume.updateInode ino change).inodeSequence = volume.inodeSequence := rfl
@[simp] theorem updateInode_config : (volume.updateInode ino change).config = volume.config := rfl
@[simp] theorem updateInode_clock : (volume.updateInode ino change).clock = volume.clock := rfl

theorem inode?_updateInode (other : Int) :
    (volume.updateInode ino change).inode? other = (volume.inode? other).map (changeRow ino change) :=
  volume.inode.find?_modify (changeRow_ino ino change) other

theorem inode?_updateInode_ne {other : Int} (different : other ≠ ino) :
    (volume.updateInode ino change).inode? other = volume.inode? other := by
  rw [inode?_updateInode]
  cases found : volume.inode? other with
  | none => rfl
  | some row =>
    have numbered : row.ino = other := volume.inode.find?_key found
    rw [Option.map_some, changeRow, if_neg (by rw [numbered]; exact different)]

theorem updateInode_of_absent (absent : volume.inode? ino = none) : volume.updateInode ino change = volume := by
  have unchanged : volume.inode.rows.map (changeRow ino change) = volume.inode.rows := by
    conv_rhs => rw [← List.map_id volume.inode.rows]
    apply List.map_congr_left
    intro row member
    exact if_neg (volume.inode.find?_eq_none_iff.mp absent row member)
  unfold updateInode
  congr
  exact Table.ext unchanged

/-- Updating a watched column differs from updating another one by the events it may emit. -/
theorem modifyInode_eq : ∃ feed, volume.modifyInode ino change = { volume.updateInode ino change with feed } := by
  unfold modifyInode
  split
  · rename_i absent
    exact ⟨volume.feed, by rw [updateInode_of_absent volume ino change absent]⟩
  · split
    · exact ⟨_, rfl⟩
    · exact ⟨_, rfl⟩

@[simp] theorem modifyInode_inode :
    (volume.modifyInode ino change).inode = (volume.updateInode ino change).inode := by
  obtain ⟨feed, same⟩ := volume.modifyInode_eq ino change
  rw [same]

@[simp] theorem modifyInode_dentry : (volume.modifyInode ino change).dentry = volume.dentry := by
  obtain ⟨feed, same⟩ := volume.modifyInode_eq ino change
  rw [same, updateInode_dentry]

@[simp] theorem modifyInode_data : (volume.modifyInode ino change).data = volume.data := by
  obtain ⟨feed, same⟩ := volume.modifyInode_eq ino change
  rw [same, updateInode_data]

@[simp] theorem modifyInode_symlink : (volume.modifyInode ino change).symlink = volume.symlink := by
  obtain ⟨feed, same⟩ := volume.modifyInode_eq ino change
  rw [same, updateInode_symlink]

@[simp] theorem modifyInode_openInode : (volume.modifyInode ino change).openInode = volume.openInode := by
  obtain ⟨feed, same⟩ := volume.modifyInode_eq ino change
  rw [same, updateInode_openInode]

@[simp] theorem modifyInode_sequence :
    (volume.modifyInode ino change).inodeSequence = volume.inodeSequence := by
  obtain ⟨feed, same⟩ := volume.modifyInode_eq ino change
  rw [same, updateInode_sequence]

@[simp] theorem modifyInode_config : (volume.modifyInode ino change).config = volume.config := by
  obtain ⟨feed, same⟩ := volume.modifyInode_eq ino change
  rw [same, updateInode_config]

@[simp] theorem modifyInode_clock : (volume.modifyInode ino change).clock = volume.clock := by
  obtain ⟨feed, same⟩ := volume.modifyInode_eq ino change
  rw [same, updateInode_clock]

@[simp] theorem inode?_modifyInode (other : Int) :
    (volume.modifyInode ino change).inode? other = (volume.updateInode ino change).inode? other := by
  rw [inode?, modifyInode_inode, inode?]

theorem resizeInode_ok {volume' : Volume} (resized : volume.resizeInode ino change = .ok volume') :
    volume' = volume.modifyInode ino change := by
  unfold resizeInode at resized
  split at resized
  · rename_i absent
    rw [← pure_eq_ok.mp resized, modifyInode, absent]
  · rename_i old found
    obtain ⟨_, _, returned⟩ := bind_eq_ok.mp resized
    exact (pure_eq_ok.mp returned).symm

theorem resizeInode_quota {volume' : Volume} {row : InodeRow} (resized : volume.resizeInode ino change = .ok volume')
    (stored : volume.inode? ino = some row) : volume.quotaUpdate row.size (change row).size = .ok () := by
  unfold resizeInode at resized
  rw [stored] at resized
  obtain ⟨_, admitted, _⟩ := bind_eq_ok.mp resized
  exact admitted

/-- A successful insertion takes the next number of the sequence. -/
theorem insertInode_ok {row : InodeRow} {ino : Int} {volume' : Volume}
    (inserted : volume.insertInode row = .ok (ino, volume')) :
    ino = volume.inodeSequence + 1 ∧ volume.inode? ino = none ∧
      ∃ inode, volume.inode.insert? { row with ino } = some inode ∧
        volume' = { volume with inode, inodeSequence := ino } := by
  unfold insertInode at inserted
  obtain ⟨_, _, inserted⟩ := bind_eq_ok.mp inserted
  split at inserted
  · cases inserted
  · rename_i inode stored
    simp only [pure_eq_ok, Prod.mk.injEq] at inserted
    obtain ⟨rfl, rfl⟩ := inserted
    exact ⟨rfl, (volume.inode.insert?_eq_some_iff.mp stored).1, inode, stored, rfl⟩

theorem inode?_insertInode {row : InodeRow} {ino : Int} {volume' : Volume}
    (inserted : volume.insertInode row = .ok (ino, volume')) (other : Int) :
    volume'.inode? other = if other = ino then some { row with ino } else volume.inode? other := by
  obtain ⟨_, _, inode, stored, rfl⟩ := volume.insertInode_ok inserted
  exact volume.inode.find?_insert stored other

@[simp] theorem inode?_deleteInode (other : Int) :
    (volume.deleteInode ino).inode? other = if other = ino then none else volume.inode? other :=
  volume.inode.find?_erase ino other

@[simp] theorem deleteInode_dentry : (volume.deleteInode ino).dentry = volume.dentry := rfl

end Inodes

/-! ## Directory entries -/

theorem insertDentry_ok {row : DentryRow} {volume' : Volume} (inserted : volume.insertDentry row = .ok volume') :
    ∃ dentry feed, volume.dentry.insert? row = some dentry ∧ volume' = { volume with dentry, feed } := by
  unfold insertDentry at inserted
  split at inserted
  · cases inserted
  · rename_i dentry stored
    exact ⟨dentry, _, stored, (Except.ok.inj inserted).symm⟩

theorem deleteDentry_eq (parentIno : Int) (name : Text) :
    ∃ feed, volume.deleteDentry parentIno name =
      { volume with dentry := volume.dentry.erase (parentIno, name), feed } := by
  unfold deleteDentry
  split
  · rename_i absent
    exact ⟨volume.feed, by rw [volume.dentry.erase_of_find?_eq_none absent]⟩
  · exact ⟨_, rfl⟩

theorem moveDentry_ok {newParentIno oldParentIno : Int} {newName oldName : Text} {volume' : Volume}
    (moved : volume.moveDentry newParentIno newName oldParentIno oldName = .ok volume') :
    ∃ dentry feed, volume.dentry.update? (fun entry => entry.key = (oldParentIno, oldName))
        (fun entry => { entry with parentIno := newParentIno, name := newName }) = some dentry ∧
      volume' = { volume with dentry, feed } := by
  unfold moveDentry at moved
  split at moved
  · rename_i absent
    refine ⟨volume.dentry, volume.feed, ?_, (Except.ok.inj moved).symm⟩
    rw [volume.dentry.update?_eq_some_iff]
    conv_lhs => rw [← List.map_id volume.dentry.rows]
    apply List.map_congr_left
    intro row member
    exact (if_neg (by simpa using volume.dentry.find?_eq_none_iff.mp absent row member)).symm
  · rename_i row found
    dsimp only at moved
    split at moved
    · cases moved
    · rename_i dentry stored
      exact ⟨dentry, _, stored, (Except.ok.inj moved).symm⟩

/-! ## Chunk rows -/

section Chunks

variable {ino other : Int}

theorem chunk?_putChunk (ino : Int) (chunkIndex : Nat) (data : Bytes) :
    (volume.putChunk ino chunkIndex data).chunk? ino =
      Function.update (volume.chunk? ino) chunkIndex (some data) := by
  funext index
  rw [chunk?, putChunk, Table.find?_upsert, Function.update_apply, chunk?]
  by_cases same : index = chunkIndex
  · rw [if_pos (by rw [same]; rfl), if_pos same, Option.map_some]
  · rw [if_neg (by rw [DataRow.key, Prod.mk.injEq]; exact fun both => same both.2), if_neg same]

theorem chunk?_putChunk_ne (different : other ≠ ino) (chunkIndex : Nat) (data : Bytes) :
    (volume.putChunk ino chunkIndex data).chunk? other = volume.chunk? other := by
  funext index
  rw [chunk?, putChunk, Table.find?_upsert, if_neg, chunk?]
  rw [DataRow.key, Prod.mk.injEq]
  exact fun both => different both.1

theorem chunk?_deleteChunks (ino : Int) (selected : Nat → Bool) (index : Nat) :
    (volume.deleteChunks ino selected).chunk? ino index = if selected index then none else volume.chunk? ino index := by
  rw [chunk?, deleteChunks, Table.find?_deleteWhere, chunk?]
  cases found : volume.data.find? (ino, index) with
  | none => simp
  | some row =>
    have key : row.key = (ino, index) := volume.data.find?_key found
    rw [DataRow.key, Prod.mk.injEq] at key
    cases chosen : selected index <;> simp [key, chosen]

theorem chunk?_deleteChunks_ne (different : other ≠ ino) (selected : Nat → Bool) :
    (volume.deleteChunks ino selected).chunk? other = volume.chunk? other := by
  funext index
  rw [chunk?, deleteChunks, Table.find?_deleteWhere, chunk?]
  cases found : volume.data.find? (other, index) with
  | none => rfl
  | some row =>
    have key : row.key = (other, index) := volume.data.find?_key found
    rw [DataRow.key, Prod.mk.injEq] at key
    simp [key, different]

theorem chunk?_updateChunk {chunkIndex : Nat} {old : Bytes} (stored : volume.chunk? ino chunkIndex = some old)
    (data : Bytes) : (volume.updateChunk ino chunkIndex data).chunk? ino =
      Function.update (volume.chunk? ino) chunkIndex (some data) := by
  rw [updateChunk, stored]
  exact volume.chunk?_putChunk ino chunkIndex data

/-- The selected rows of an inode, listed by index, are what the sorted query returns. -/
theorem chunkRows_eq {selected : Nat → Bool} {rows : List DataRow}
    (sorted : rows.Pairwise fun first second => first.chunkIndex < second.chunkIndex)
    (listed : ∀ row, row ∈ rows ↔ row ∈ volume.data.rows ∧ row.ino = ino ∧ selected row.chunkIndex = true) :
    volume.chunkRows ino selected = rows := by
  let ordered (first second : DataRow) : Prop := first.chunkIndex ≤ second.chunkIndex
  have total : Std.Total ordered := ⟨fun first second => Nat.le_total _ _⟩
  have transitive : IsTrans DataRow ordered := ⟨fun _ _ _ => Nat.le_trans⟩
  let chosen := volume.data.rows.filter fun row => row.ino = ino && selected row.chunkIndex
  have member : ∀ row, row ∈ chosen ↔ row ∈ rows := by
    intro row
    rw [listed, List.mem_filter]
    simp
  have once : chosen.Nodup := (List.Nodup.of_map _ volume.data.unique).filter _
  have once' : rows.Nodup := sorted.imp fun before same => by
    rw [same] at before
    exact lt_irrefl _ before
  have perm : (volume.chunkRows ino selected).Perm rows :=
    (List.perm_insertionSort _ _).trans ((List.perm_ext_iff_of_nodup once once').mpr member)
  refine List.Perm.eq_of_pairwise ?_ (List.pairwise_insertionSort ordered _) (sorted.imp Nat.le_of_lt) perm
  intro first second left right before after
  have firstListed := (listed first).mp (perm.subset left)
  have secondListed := (listed second).mp right
  refine volume.data.eq_of_key firstListed.1 secondListed.1 ?_
  rw [DataRow.key, DataRow.key, firstListed.2.1, secondListed.2.1, Nat.le_antisymm before after]

end Chunks

/-! ## Links -/

theorem links_pos_iff {ino : Int} : 0 < volume.links ino ↔ ∃ row ∈ volume.dentry.rows, row.ino = ino := by
  simp [links, Table.count_pos_iff]

theorem links_congr {volume' : Volume} (same : volume'.dentry = volume.dentry) (ino : Int) :
    volume'.links ino = volume.links ino := by
  rw [links, same, links]

@[simp] theorem links_updateInode (ino : Int) (change : InodeRow → InodeRow) (other : Int) :
    (volume.updateInode ino change).links other = volume.links other := rfl

@[simp] theorem links_deleteInode (ino other : Int) : (volume.deleteInode ino).links other = volume.links other :=
  rfl

theorem links_insertDentry {row : DentryRow} {volume' : Volume}
    (inserted : volume.insertDentry row = .ok volume') (ino : Int) :
    volume'.links ino = volume.links ino + if row.ino = ino then 1 else 0 := by
  obtain ⟨dentry, feed, stored, rfl⟩ := volume.insertDentry_ok inserted
  simpa [links] using volume.dentry.count_insert stored fun entry => entry.ino = ino

theorem links_deleteDentry {parentIno : Int} {name : Text} {row : DentryRow}
    (found : volume.dentry? parentIno name = some row) (ino : Int) :
    volume.links ino = (volume.deleteDentry parentIno name).links ino + if row.ino = ino then 1 else 0 := by
  obtain ⟨feed, same⟩ := volume.deleteDentry_eq parentIno name
  rw [same]
  simpa [links] using volume.dentry.count_erase found fun entry => entry.ino = ino

theorem links_moveDentry {newParentIno oldParentIno : Int} {newName oldName : Text} {volume' : Volume}
    (moved : volume.moveDentry newParentIno newName oldParentIno oldName = .ok volume') (ino : Int) :
    volume'.links ino = volume.links ino := by
  obtain ⟨dentry, feed, stored, rfl⟩ := volume.moveDentry_ok moved
  exact volume.dentry.count_update stored fun _ => rfl

end Volume

end AiryFS
