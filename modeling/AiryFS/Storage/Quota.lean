import AiryFS.Storage.Statements
import Mathlib.Algebra.Order.BigOperators.Group.List

/-! The quotas of a volume: how they are configured, and that no statement exceeds them.

The triggers look at one row at a time. What a statement keeps is that the table is within
both limits, and the limits themselves.
-/

set_option autoImplicit false

namespace AiryFS

open Foundation

structure QuotaConfiguration where
  bytes : Option Nat
  inodes : Option Nat
  deriving DecidableEq, Repr

def quotaValue (stored : Option Nat) (key : String) : Except Failure (Option Nat) := do
  refuse (stored = some 0) (.error s!"Stored {key} is invalid: 0")
  return stored

def validateQuotaValue (value : JsValue) (name : String) : Except Failure (Option Nat) :=
  match value with
  | .null => return none
  | .integer value => do
    refuse (¬isSafeInteger value ∨ value < 1) (.error s!"{name} must be a positive integer or null")
    return some value.toNat
  | _ => throw (.error s!"{name} must be a positive integer or null")

namespace Volume

variable (volume : Volume)

def readQuota : Except Failure QuotaConfiguration := do
  let bytes ← quotaValue volume.config.quotaBytes "quota_bytes"
  let inodes ← quotaValue volume.config.quotaInodes "quota_inodes"
  return { bytes, inodes }

/-- An argument that is left out is `none`, and `null` takes a quota away. -/
def configureQuota (bytes inodes : Option JsValue) : Except Failure (QuotaConfiguration × Volume) := do
  let bytes ← bytes.mapM (validateQuotaValue · "bytes")
  let inodes ← inodes.mapM (validateQuotaValue · "inodes")
  refuse (∃ quota ∈ bytes.join, quota < volume.usedBytes)
    (.error s!"bytes quota cannot be below current usage ({volume.usedBytes})")
  refuse (∃ quota ∈ inodes.join, quota < volume.inode.rows.length)
    (.error s!"inodes quota cannot be below current usage ({volume.inode.rows.length})")
  let config := { volume.config with
    quotaBytes := bytes.getD volume.config.quotaBytes, quotaInodes := inodes.getD volume.config.quotaInodes }
  let configured := { volume with config }
  let quota ← configured.readQuota
  return (quota, configured)

/-- The sizes and the number of the inode rows are within the quotas in force. -/
structure WithinQuota (volume : Volume) : Prop where
  bytes : ∀ quota ∈ volume.config.quotaBytes, volume.usedBytes ≤ quota
  inodes : ∀ quota ∈ volume.config.quotaInodes, volume.inode.rows.length ≤ quota

/-- A change that stays within the quotas and does not move them. -/
structure Admitted (before after : Volume) : Prop where
  config : after.config = before.config
  within : before.WithinQuota → after.WithinQuota

variable {volume} {before middle after : Volume} {ino : Int} {change : InodeRow → InodeRow}

theorem Admitted.refl (volume : Volume) : Admitted volume volume := ⟨rfl, id⟩

theorem Admitted.trans (first : Admitted before middle) (second : Admitted middle after) : Admitted before after :=
  ⟨second.config.trans first.config, fun within => second.within (first.within within)⟩

/-- A change that no quota speaks about: neither the number of rows nor their sizes together grow. -/
theorem Admitted.of_le (config : after.config = before.config) (bytes : after.usedBytes ≤ before.usedBytes)
    (inodes : after.inode.rows.length ≤ before.inode.rows.length) : Admitted before after := by
  refine ⟨config, fun within => ⟨?_, ?_⟩⟩
  · intro quota configured
    rw [config] at configured
    exact bytes.trans (within.bytes quota configured)
  · intro quota configured
    rw [config] at configured
    exact inodes.trans (within.inodes quota configured)

theorem Admitted.of_inode (config : after.config = before.config) (inode : after.inode = before.inode) :
    Admitted before after :=
  .of_le config (by rw [usedBytes, inode, usedBytes]) (by rw [inode])

/-! ## Statements -/

theorem quotaInsert_within {size : Nat} (admitted : volume.quotaInsert size = .ok ()) :
    (∀ quota ∈ volume.config.quotaInodes, volume.inode.rows.length + 1 ≤ quota) ∧
      ∀ quota ∈ volume.config.quotaBytes, 0 < size → volume.usedBytes + size ≤ quota := by
  unfold quotaInsert at admitted
  have bytes : ∀ quota ∈ volume.config.quotaBytes, ¬(size > 0 ∧ volume.usedBytes + size > quota) := by
    intro quota configured beyond
    rw [Option.mem_def.mp configured] at admitted
    dsimp only at admitted
    rw [if_pos beyond] at admitted
    split at admitted
    · split at admitted <;> cases admitted
    · cases admitted
  constructor
  · intro quota configured
    by_contra beyond
    rw [Option.mem_def.mp configured] at admitted
    dsimp only at admitted
    rw [if_pos (by omega)] at admitted
    cases admitted
  · intro quota configured positive
    have fits := bytes quota configured
    omega

/-- One more row, with its number. -/
theorem admitted_insert {row : InodeRow} {inode : InodeTable} (inserted : volume.inode.insert? row = some inode)
    (admitted : volume.quotaInsert row.size = .ok ()) (sequence : Int) :
    Admitted volume { volume with inode, inodeSequence := sequence } := by
  have rows := (volume.inode.insert?_eq_some_iff.mp inserted).2
  obtain ⟨fits, bytes⟩ := quotaInsert_within admitted
  refine ⟨rfl, fun within => ⟨?_, ?_⟩⟩
  · intro quota configured
    have sum : ({ volume with inode, inodeSequence := sequence } : Volume).usedBytes = volume.usedBytes + row.size := by
      simp [usedBytes, rows]
    rw [sum]
    rcases Nat.eq_zero_or_pos row.size with empty | positive
    · rw [empty]
      exact within.bytes quota configured
    · exact bytes quota configured positive
  · intro quota configured
    change inode.rows.length ≤ quota
    rw [rows, List.length_append]
    exact fits quota configured

theorem insertInode_admitted {row : InodeRow} (inserted : volume.insertInode row = .ok (ino, after)) : Admitted volume after := by
  unfold insertInode at inserted
  obtain ⟨_, admitted, inserted⟩ := bind_eq_ok.mp inserted
  split at inserted
  · cases inserted
  · rename_i inode stored
    obtain ⟨rfl, rfl⟩ := Prod.mk.inj (pure_eq_ok.mp inserted)
    exact admitted_insert stored admitted _

theorem updateInode_admitted (volume : Volume) (ino : Int) (same : ∀ row, (change row).size = row.size) :
    Admitted volume (volume.updateInode ino change) := by
  have sizes : ∀ row, (changeRow ino change row).size = row.size := by
    intro row
    unfold changeRow
    split
    · exact same row
    · rfl
  refine .of_le (by rfl) ?_ ?_
  · have same : (volume.inode.rows.map (changeRow ino change)).map (·.size) = volume.inode.rows.map (·.size) := by
      rw [List.map_map]
      exact List.map_congr_left fun row _ => sizes row
    exact Nat.le_of_eq (congrArg List.sum same)
  · exact Nat.le_of_eq (List.length_map _)

theorem modifyInode_admitted (volume : Volume) (ino : Int) (same : ∀ row, (change row).size = row.size) :
    Admitted volume (volume.modifyInode ino change) := by
  obtain ⟨feed, whole⟩ := volume.modifyInode_eq ino change
  rw [whole]
  exact (updateInode_admitted volume ino same).trans (.of_inode rfl rfl)

theorem Admitted.updateInode (admitted : Admitted before middle) (same : ∀ row, (change row).size = row.size) :
    Admitted before (middle.updateInode ino change) := admitted.trans (updateInode_admitted middle ino same)

theorem Admitted.modifyInode (admitted : Admitted before middle) (same : ∀ row, (change row).size = row.size) :
    Admitted before (middle.modifyInode ino change) := admitted.trans (modifyInode_admitted middle ino same)

/-- The sizes after the row of one inode has changed. -/
theorem usedBytes_updateInode {row : InodeRow} (stored : volume.inode? ino = some row) :
    (volume.updateInode ino change).usedBytes + row.size = volume.usedBytes + (change row).size := by
  have unique := volume.inode.unique
  have member := volume.inode.find?_mem stored
  have number := volume.inode.find?_key stored
  obtain ⟨front, back, split⟩ := List.append_of_mem member
  have others : ∀ other ∈ front ++ back, changeRow ino change other = other := by
    intro other listed
    refine if_neg fun same => ?_
    have apart : row.ino ∉ (front ++ back).map InodeRow.ino := by
      rw [split, List.map_append, List.map_cons] at unique
      rw [List.map_append]
      exact (List.nodup_middle.mp unique).notMem
    exact apart (List.mem_map.mpr ⟨other, listed, same.trans number.symm⟩)
  have kept : ∀ {part : List InodeRow}, (∀ other ∈ part, other ∈ front ++ back) → part.map (changeRow ino change) = part := by
    intro part within
    conv_rhs => rw [← List.map_id part]
    exact List.map_congr_left fun other listed => others other (within other listed)
  have changed : (changeRow ino change row).size = (change row).size := by
    rw [changeRow, if_pos number]
  have rows : (volume.updateInode ino change).inode.rows = front ++ changeRow ino change row :: back := by
    change volume.inode.rows.map (changeRow ino change) = _
    rw [split, List.map_append, List.map_cons, kept fun other listed => List.mem_append_left _ listed,
      kept fun other listed => List.mem_append_right _ listed]
  simp only [usedBytes, rows, split, List.map_append, List.map_cons, List.sum_append, List.sum_cons, changed]
  omega

theorem size_le_usedBytes {row : InodeRow} (stored : volume.inode? ino = some row) : row.size ≤ volume.usedBytes := by
  exact List.le_sum_of_mem (List.mem_map_of_mem (volume.inode.find?_mem stored))

/-- An update that the quota trigger lets through. -/
theorem admitted_update {row : InodeRow} (stored : volume.inode? ino = some row)
    (admitted : volume.quotaUpdate row.size (change row).size = .ok ()) : Admitted volume (volume.updateInode ino change) := by
  have used := @usedBytes_updateInode volume ino change row stored
  have part := size_le_usedBytes stored
  refine ⟨rfl, fun within => ⟨?_, ?_⟩⟩
  · intro quota configured
    have before := within.bytes quota configured
    change volume.config.quotaBytes = some quota at configured
    unfold quotaUpdate at admitted
    rw [configured] at admitted
    dsimp only at admitted
    split at admitted
    · cases admitted
    · omega
  · intro quota configured
    have before := within.inodes quota configured
    change (volume.inode.rows.map _).length ≤ quota
    rw [List.length_map]
    exact before

theorem resizeInode_admitted (resized : volume.resizeInode ino change = .ok after) : Admitted volume after := by
  cases stored : volume.inode? ino with
  | none =>
    unfold resizeInode at resized
    rw [stored] at resized
    rw [← pure_eq_ok.mp resized]
    exact .refl volume
  | some row =>
    have admitted := resizeInode_quota volume ino change resized stored
    rw [resizeInode_ok volume ino change resized]
    obtain ⟨feed, whole⟩ := volume.modifyInode_eq ino change
    rw [whole]
    exact (admitted_update stored admitted).trans (.of_inode rfl rfl)

theorem deleteInodes_admitted (volume : Volume) (selected : InodeRow → Bool) : Admitted volume (volume.deleteInodes selected) := by
  have fewer : (volume.deleteInodes selected).inode.rows.Sublist volume.inode.rows := List.filter_sublist
  refine .of_le (by rfl) ?_ ?_
  · exact List.Sublist.sum_le_sum (fewer.map _) fun _ _ => Nat.zero_le _
  · exact fewer.length_le

theorem insertDentry_admitted {row : DentryRow} (inserted : volume.insertDentry row = .ok after) : Admitted volume after := by
  obtain ⟨dentry, feed, _, rfl⟩ := volume.insertDentry_ok inserted
  exact .of_inode rfl rfl

theorem deleteDentry_admitted (volume : Volume) (parentIno : Int) (name : Text) :
    Admitted volume (volume.deleteDentry parentIno name) := by
  obtain ⟨feed, same⟩ := volume.deleteDentry_eq parentIno name
  rw [same]
  exact .of_inode rfl rfl

theorem moveDentry_admitted {newParentIno oldParentIno : Int} {newName oldName : Text}
    (moved : volume.moveDentry newParentIno newName oldParentIno oldName = .ok after) : Admitted volume after := by
  obtain ⟨dentry, feed, _, rfl⟩ := volume.moveDentry_ok moved
  exact .of_inode rfl rfl

theorem insertChunk_admitted {chunkIndex : Nat} {data : Bytes} (inserted : volume.insertChunk ino chunkIndex data = .ok after) :
    Admitted volume after := by
  unfold insertChunk at inserted
  split at inserted
  · cases inserted
  · rw [← Except.ok.inj inserted]
    exact .of_inode rfl rfl

theorem updateChunk_admitted (volume : Volume) (ino : Int) (chunkIndex : Nat) (data : Bytes) :
    Admitted volume (volume.updateChunk ino chunkIndex data) := by
  unfold updateChunk
  split
  · exact .refl volume
  · exact .of_inode rfl rfl

theorem cutChunks_admitted (volume : Volume) (ino : Int) (chunkSize newSize : Nat) :
    Admitted volume (volume.cutChunks ino chunkSize newSize) := by
  have deleted : Admitted volume (volume.deleteChunks ino fun chunkIndex => chunkIndex > (newSize - 1) / chunkSize) :=
    .of_inode rfl rfl
  unfold cutChunks
  dsimp only
  split
  · split
    · exact deleted
    · split
      · exact deleted.trans (updateChunk_admitted _ _ _ _)
      · exact deleted
  · exact deleted

theorem insertSymlink_admitted {target : Text} (inserted : volume.insertSymlink ino target = .ok after) : Admitted volume after := by
  unfold insertSymlink at inserted
  split at inserted
  · cases inserted
  · rw [← Except.ok.inj inserted]
    exact .of_inode rfl rfl

/-! ## The configuration -/

/-- A quota is not set below what is in use. -/
theorem configureQuota_within {bytes inodes : Option JsValue} {quota : QuotaConfiguration} (within : volume.WithinQuota)
    (configured : volume.configureQuota bytes inodes = .ok (quota, after)) : after.WithinQuota := by
  obtain ⟨newBytes, _, configured⟩ := bind_eq_ok.mp configured
  obtain ⟨newInodes, _, configured⟩ := bind_eq_ok.mp configured
  obtain ⟨_, bytesEnough, configured⟩ := bind_eq_ok.mp configured
  obtain ⟨_, inodesEnough, configured⟩ := bind_eq_ok.mp configured
  obtain ⟨_, _, configured⟩ := bind_eq_ok.mp configured
  obtain ⟨rfl, rfl⟩ := Prod.mk.inj (pure_eq_ok.mp configured)
  rw [refuse_eq_ok] at bytesEnough inodesEnough
  constructor
  · intro limit chosen
    change limit ∈ newBytes.getD volume.config.quotaBytes at chosen
    cases newBytes with
    | none => exact within.bytes limit chosen
    | some set => exact Nat.le_of_not_lt fun below => bytesEnough ⟨limit, chosen, below⟩
  · intro limit chosen
    change limit ∈ newInodes.getD volume.config.quotaInodes at chosen
    cases newInodes with
    | none => exact within.inodes limit chosen
    | some set => exact Nat.le_of_not_lt fun below => inodesEnough ⟨limit, chosen, below⟩

end Volume

end AiryFS
