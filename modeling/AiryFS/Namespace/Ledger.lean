import AiryFS.Direct.AgentFS
import AiryFS.Direct.Primitives
import AiryFS.Remote.Compound

/-! Link counts against directory entries.

A ledger forgets everything of a volume but, for each inode number, what kind of inode
is stored there, its link count and how many entries name it. Each operation of either
writer rewrites the ledger at a few numbers, so its effect on the link invariant is
decided there.
-/

set_option autoImplicit false

namespace AiryFS

open Foundation

/-- What the ledger keeps of a stored inode. -/
structure Node where
  directory : Bool
  nlink : Int
  deriving DecidableEq

structure Account where
  node : Option Node
  links : Nat
  deriving DecidableEq

@[ext] structure Ledger where
  account : Int → Account
  sequence : Int

def InodeRow.node (row : InodeRow) : Node := ⟨isDirectory row.mode, row.nlink⟩

def Volume.ledger (volume : Volume) : Ledger where
  account := fun ino => ⟨(volume.inode? ino).map InodeRow.node, volume.links ino⟩
  sequence := volume.inodeSequence

/-- A directory that has an entry has a positive count, and one without has none: the two
writers disagree about more. Any other inode counts its entries. -/
def Balanced (ino : Int) (account : Account) : Prop :=
  match account.node with
  | none => ino ≠ ROOT_INO ∧ account.links = 0
  | some node =>
    if ino = ROOT_INO then node.directory = true ∧ 1 ≤ node.nlink ∧ account.links = 0
    else if node.directory then
      (account.links = 0 ∧ node.nlink = 0) ∨ (account.links = 1 ∧ 1 ≤ node.nlink)
    else node.nlink = account.links

namespace Ledger

structure Sound (ledger : Ledger) : Prop where
  balanced : ∀ ino, Balanced ino (ledger.account ino)
  numbered : ∀ ino, (ledger.account ino).node ≠ none → ino ≤ ledger.sequence

variable (ledger : Ledger)

/-- Rewrite one account. -/
def set (ino : Int) (account : Account) : Ledger := { ledger with account := Function.update ledger.account ino account }

@[simp] theorem set_same (ino : Int) (account : Account) : (ledger.set ino account).account ino = account := by
  simp [set]

theorem set_other {ino other : Int} (different : other ≠ ino) (account : Account) :
    (ledger.set ino account).account other = ledger.account other := by
  simp [set, different]

@[simp] theorem set_sequence (ino : Int) (account : Account) : (ledger.set ino account).sequence = ledger.sequence :=
  rfl

@[simp] theorem set_set (ino : Int) (first second : Account) :
    (ledger.set ino first).set ino second = ledger.set ino second := by
  simp [set]

@[simp] theorem set_self (ino : Int) : ledger.set ino (ledger.account ino) = ledger := by
  simp [set]

theorem set_comm {ino other : Int} (different : ino ≠ other) (first second : Account) :
    (ledger.set ino first).set other second = (ledger.set other second).set ino first := by
  simp [set, Function.update_comm different]

/-- Store an account under the next number of the sequence. -/
def allocate (ino : Int) (account : Account) : Ledger := set ⟨ledger.account, ino⟩ ino account

@[simp] theorem allocate_same (ino : Int) (account : Account) : (ledger.allocate ino account).account ino = account :=
  set_same _ ino account

theorem allocate_other {ino other : Int} (different : other ≠ ino) (account : Account) :
    (ledger.allocate ino account).account other = ledger.account other :=
  set_other _ different account

@[simp] theorem allocate_sequence (ino : Int) (account : Account) : (ledger.allocate ino account).sequence = ino := rfl

@[simp] theorem allocate_set (ino : Int) (first second : Account) :
    (ledger.allocate ino first).set ino second = ledger.allocate ino second := set_set _ ino first second

/-- Map the count of one account. -/
def recount (ino : Int) (count : Int → Int) : Ledger :=
  ledger.set ino
    ⟨(ledger.account ino).node.map fun node => ⟨node.directory, count node.nlink⟩, (ledger.account ino).links⟩

@[simp] theorem recount_recount (ino : Int) (first second : Int → Int) :
    (ledger.recount ino first).recount ino second = ledger.recount ino (second ∘ first) := by
  unfold recount
  rw [set_same, set_set, Option.map_map]
  rfl

theorem recount_comm {ino other : Int} (different : ino ≠ other) (first second : Int → Int) :
    (ledger.recount ino first).recount other second = (ledger.recount other second).recount ino first := by
  unfold recount
  rw [set_other _ (Ne.symm different), set_other _ different, set_comm _ different]

theorem recount_set {ino other : Int} (different : ino ≠ other) (account : Account) (count : Int → Int) :
    (ledger.recount ino count).set other account = (ledger.set other account).recount ino count := by
  unfold recount
  rw [set_other _ different, set_comm _ different]

theorem set_recount (ino : Int) (node : Node) (links : Nat) (count : Int → Int) :
    (ledger.set ino ⟨some node, links⟩).recount ino count =
      ledger.set ino ⟨some ⟨node.directory, count node.nlink⟩, links⟩ := by
  unfold recount
  rw [set_same, set_set]
  rfl

theorem recount_other {ino other : Int} (different : other ≠ ino) (count : Int → Int) :
    (ledger.recount ino count).account other = ledger.account other :=
  set_other _ different _

@[simp] theorem recount_id (ino : Int) : ledger.recount ino id = ledger := by
  have same : (ledger.account ino).node.map (fun node => (⟨node.directory, id node.nlink⟩ : Node)) =
      (ledger.account ino).node := by
    cases (ledger.account ino).node <;> rfl
  rw [recount, same]
  exact ledger.set_self ino

variable {ledger}

theorem Sound.set (sound : ledger.Sound) {ino : Int} {account : Account} (balanced : Balanced ino account)
    (numbered : account.node ≠ none → ino ≤ ledger.sequence) : (ledger.set ino account).Sound := by
  constructor
  · intro other
    by_cases same : other = ino
    · rw [same, set_same]
      exact balanced
    · rw [set_other ledger same]
      exact sound.balanced other
  · intro other stored
    by_cases same : other = ino
    · rw [same, set_same] at stored
      rw [same, set_sequence]
      exact numbered stored
    · rw [set_other ledger same] at stored
      exact sound.numbered other stored

/-- An account that is already stored may change its count and its entries. -/
theorem Sound.set_stored (sound : ledger.Sound) {ino : Int} {account : Account}
    (stored : (ledger.account ino).node ≠ none) (balanced : Balanced ino account) : (ledger.set ino account).Sound :=
  sound.set balanced fun _ => sound.numbered ino stored

/-- An inode that some entry names is stored. -/
theorem Sound.stored (sound : ledger.Sound) {ino : Int} (linked : 0 < (ledger.account ino).links) :
    ∃ node, (ledger.account ino).node = some node := by
  have balanced := sound.balanced ino
  unfold Balanced at balanced
  cases node : (ledger.account ino).node with
  | none =>
    rw [node] at balanced
    exact absurd balanced.2 (by omega)
  | some stored => exact ⟨stored, rfl⟩

theorem Sound.root (sound : ledger.Sound) : ∃ node, (ledger.account ROOT_INO).node = some node ∧
    node.directory = true ∧ 1 ≤ node.nlink ∧ (ledger.account ROOT_INO).links = 0 := by
  have balanced := sound.balanced ROOT_INO
  unfold Balanced at balanced
  cases node : (ledger.account ROOT_INO).node with
  | none =>
    rw [node] at balanced
    exact absurd rfl balanced.1
  | some stored =>
    rw [node] at balanced
    exact ⟨stored, rfl, by simpa using balanced⟩

/-- A number beyond the sequence is free. -/
theorem Sound.fresh (sound : ledger.Sound) {ino : Int} (beyond : ledger.sequence < ino) :
    ledger.account ino = ⟨none, 0⟩ ∧ ino ≠ ROOT_INO := by
  obtain ⟨root, stored, -⟩ := sound.root
  have rooted := sound.numbered ROOT_INO (by rw [stored]; simp)
  have absent : (ledger.account ino).node = none := by
    by_contra present
    have := sound.numbered ino present
    omega
  have balanced := sound.balanced ino
  rw [Balanced, absent] at balanced
  cases known : ledger.account ino with
  | mk node links =>
    rw [known] at absent balanced
    simp only at absent balanced
    exact ⟨by rw [absent, balanced.2], balanced.1⟩

/-- A new inode enters the ledger with its first entry. -/
theorem Sound.create (sound : ledger.Sound) {ino : Int} (next : ino = ledger.sequence + 1) {node : Node}
    (counted : if node.directory then 1 ≤ node.nlink else node.nlink = 1) :
    (ledger.allocate ino ⟨some node, 1⟩).Sound := by
  obtain ⟨_, apart⟩ := sound.fresh (show ledger.sequence < ino by omega)
  have grown : ({ ledger with sequence := ino } : Ledger).Sound :=
    ⟨sound.balanced, fun other stored => (sound.numbered other stored).trans (by simp only; omega)⟩
  refine grown.set ?_ (fun _ => le_refl ino)
  simp only [Balanced, apart, if_false]
  split at counted
  · rename_i directory
    rw [if_pos directory]
    exact .inr ⟨trivial, counted⟩
  · rename_i file
    rw [if_neg file, counted]
    rfl

end Ledger

/-! ## Changes to one account -/

theorem balanced_none_iff {ino : Int} {links : Nat} : Balanced ino ⟨none, links⟩ ↔ ino ≠ ROOT_INO ∧ links = 0 :=
  Iff.rfl

theorem balanced_file_iff {ino nlink : Int} {links : Nat} :
    Balanced ino ⟨some ⟨false, nlink⟩, links⟩ ↔ ino ≠ ROOT_INO ∧ nlink = links := by
  simp only [Balanced, Bool.false_eq_true, false_and, if_false]
  split <;> simp_all

theorem balanced_root_iff {nlink : Int} {links : Nat} :
    Balanced ROOT_INO ⟨some ⟨true, nlink⟩, links⟩ ↔ 1 ≤ nlink ∧ links = 0 := by
  simp [Balanced]

theorem balanced_directory_iff {ino nlink : Int} {links : Nat} (apart : ino ≠ ROOT_INO) :
    Balanced ino ⟨some ⟨true, nlink⟩, links⟩ ↔ (links = 0 ∧ nlink = 0) ∨ (links = 1 ∧ 1 ≤ nlink) := by
  simp [Balanced, apart]

/-- An inode other than a directory gains an entry and a count. -/
theorem Balanced.linked {ino nlink : Int} {links : Nat} (balanced : Balanced ino ⟨some ⟨false, nlink⟩, links⟩) :
    Balanced ino ⟨some ⟨false, nlink + 1⟩, links + 1⟩ := by
  rw [balanced_file_iff] at balanced ⊢
  exact ⟨balanced.1, by omega⟩

/-- An inode that some entry names loses that entry and a count; a directory must have had
no other count. Either the row stays, or it goes with its last count. -/
theorem Balanced.unlinked {ino : Int} {node : Node} {links : Nat}
    (balanced : Balanced ino ⟨some node, links + 1⟩) (single : node.directory = true → node.nlink = 1) :
    Balanced ino ⟨some { node with nlink := node.nlink - 1 }, links⟩ ∧
      (node.nlink = 1 → Balanced ino ⟨none, links⟩) := by
  obtain ⟨directory, nlink⟩ := node
  dsimp only at single ⊢
  rw [balanced_none_iff]
  cases directory with
  | false =>
    rw [balanced_file_iff] at balanced ⊢
    refine ⟨⟨balanced.1, by omega⟩, fun last => ⟨balanced.1, ?_⟩⟩
    have counted : nlink = 1 := last
    omega
  | true =>
    have counted : nlink = 1 := single rfl
    subst counted
    by_cases root : ino = ROOT_INO
    · -- No entry names the root.
      subst root
      exact absurd (balanced_root_iff.mp balanced).2 (by omega)
    · rw [balanced_directory_iff root] at balanced ⊢
      exact ⟨by omega, fun _ => ⟨root, by omega⟩⟩

/-- A directory may count more or less as long as it keeps one link. -/
theorem Balanced.recount {ino nlink count : Int} {links : Nat} (balanced : Balanced ino ⟨some ⟨true, nlink⟩, links⟩)
    (linked : 1 ≤ nlink) (positive : 1 ≤ count) : Balanced ino ⟨some ⟨true, count⟩, links⟩ := by
  by_cases root : ino = ROOT_INO
  · subst root
    exact balanced_root_iff.mpr ⟨positive, (balanced_root_iff.mp balanced).2⟩
  · rw [balanced_directory_iff root] at balanced ⊢
    omega

/-- A directory that keeps a count keeps the ledger sound. -/
theorem Ledger.Sound.recount {ledger : Ledger} (sound : ledger.Sound) {ino nlink : Int} {count : Int → Int}
    (stored : (ledger.account ino).node = some ⟨true, nlink⟩) (linked : 1 ≤ nlink) (positive : 1 ≤ count nlink) :
    (ledger.recount ino count).Sound := by
  have balanced := sound.balanced ino
  cases known : ledger.account ino with
  | mk node links =>
    rw [known] at stored balanced
    simp only at stored
    subst stored
    unfold Ledger.recount
    rw [known]
    exact sound.set_stored (by rw [known]; simp) (balanced.recount linked positive)

/-- A directory whose one entry goes counts nothing, whatever it counted before. -/
theorem Balanced.cleared {ino : Int} {nlink : Int} {links : Nat}
    (balanced : Balanced ino ⟨some ⟨true, nlink⟩, links + 1⟩) :
    Balanced ino ⟨some ⟨true, 0⟩, links⟩ ∧ Balanced ino ⟨none, links⟩ := by
  by_cases root : ino = ROOT_INO
  · subst root
    exact absurd (balanced_root_iff.mp balanced).2 (by omega)
  · rw [balanced_directory_iff root] at balanced ⊢
    exact ⟨by omega, balanced_none_iff.mpr ⟨root, by omega⟩⟩

/-- An inode without a count has no entry to lose. -/
theorem Balanced.reaped {ino : Int} {node : Node} {links : Nat} (balanced : Balanced ino ⟨some node, links⟩)
    (apart : ino ≠ ROOT_INO) (uncounted : node.nlink = 0) : Balanced ino ⟨none, links⟩ := by
  obtain ⟨directory, nlink⟩ := node
  simp only at uncounted
  cases directory with
  | false =>
    rw [balanced_file_iff] at balanced
    exact balanced_none_iff.mpr ⟨apart, by omega⟩
  | true =>
    rw [balanced_directory_iff apart] at balanced
    exact balanced_none_iff.mpr ⟨apart, by omega⟩

/-! ## Statements -/

namespace Volume

variable (volume : Volume)

def account (ino : Int) : Account := volume.ledger.account ino

theorem ledger_congr {volume' : Volume} (inode : volume'.inode = volume.inode) (dentry : volume'.dentry = volume.dentry)
    (sequence : volume'.inodeSequence = volume.inodeSequence) : volume'.ledger = volume.ledger := by
  unfold ledger inode? links
  rw [inode, dentry, sequence]

@[simp] theorem ledger_account_node (ino : Int) :
    (volume.ledger.account ino).node = (volume.inode? ino).map InodeRow.node := rfl

@[simp] theorem ledger_account_links (ino : Int) : (volume.ledger.account ino).links = volume.links ino := rfl

@[simp] theorem ledger_sequence : volume.ledger.sequence = volume.inodeSequence := rfl

/-- An update of one row that maps its count. -/
theorem ledger_updateInode {ino : Int} {change : InodeRow → InodeRow} {count : Int → Int}
    (effect : ∀ row, ({ change row with ino := row.ino } : InodeRow).node = ⟨row.node.directory, count row.node.nlink⟩) :
    (volume.updateInode ino change).ledger = volume.ledger.set ino
      ⟨(volume.inode? ino).map fun row => ⟨row.node.directory, count row.node.nlink⟩, volume.links ino⟩ := by
  apply Ledger.ext
  · funext other
    by_cases same : other = ino
    · subst same
      rw [Ledger.set_same, ledger]
      simp only [inode?_updateInode, Option.map_map, links_updateInode, Account.mk.injEq, and_true]
      cases found : volume.inode? other with
      | none => rfl
      | some row =>
        have numbered : row.ino = other := volume.inode.find?_key found
        rw [Option.map_some, Option.map_some, Function.comp_apply, changeRow, if_pos numbered, effect]
    · rw [Ledger.set_other _ same, ledger, ledger]
      simp only [links_updateInode, inode?_updateInode_ne volume ino change same]
  · rfl

theorem ledger_recount {ino : Int} {change : InodeRow → InodeRow} {count : Int → Int}
    (effect : ∀ row, ({ change row with ino := row.ino } : InodeRow).node = ⟨row.node.directory, count row.node.nlink⟩) :
    (volume.updateInode ino change).ledger = volume.ledger.recount ino count := by
  rw [volume.ledger_updateInode effect, Ledger.recount, ledger_account_node, Option.map_map]
  rfl

/-- An update of columns the ledger does not keep. -/
theorem ledger_updateInode_same {ino : Int} {change : InodeRow → InodeRow}
    (effect : ∀ row, ({ change row with ino := row.ino } : InodeRow).node = row.node) :
    (volume.updateInode ino change).ledger = volume.ledger := by
  rw [@ledger_updateInode volume ino change id effect]
  exact volume.ledger.set_self ino

theorem ledger_modifyInode (ino : Int) (change : InodeRow → InodeRow) :
    (volume.modifyInode ino change).ledger = (volume.updateInode ino change).ledger :=
  ledger_congr _ (volume.modifyInode_inode ino change) (volume.modifyInode_dentry ino change)
    (volume.modifyInode_sequence ino change)

theorem ledger_modifyInode_same {ino : Int} {change : InodeRow → InodeRow}
    (effect : ∀ row, ({ change row with ino := row.ino } : InodeRow).node = row.node) :
    (volume.modifyInode ino change).ledger = volume.ledger := by
  rw [ledger_modifyInode, ledger_updateInode_same volume effect]

theorem ledger_insertChunk {ino : Int} {chunkIndex : Nat} {data : Bytes} {volume' : Volume}
    (inserted : volume.insertChunk ino chunkIndex data = .ok volume') : volume'.ledger = volume.ledger := by
  unfold insertChunk at inserted
  split at inserted
  · cases inserted
  · rw [← Except.ok.inj inserted]
    rfl

theorem ledger_insertSymlink {ino : Int} {target : Text} {volume' : Volume}
    (inserted : volume.insertSymlink ino target = .ok volume') : volume'.ledger = volume.ledger := by
  unfold insertSymlink at inserted
  split at inserted
  · cases inserted
  · rw [← Except.ok.inj inserted]
    rfl

theorem ledger_insertInode {row : InodeRow} {ino : Int} {volume' : Volume}
    (inserted : volume.insertInode row = .ok (ino, volume')) :
    volume'.ledger = volume.ledger.allocate ino ⟨some row.node, volume.links ino⟩ := by
  obtain ⟨_, _, inode, _, result⟩ := volume.insertInode_ok inserted
  have lookup := volume.inode?_insertInode inserted
  have links : ∀ other, volume'.links other = volume.links other := by
    intro other
    rw [result]
    rfl
  apply Ledger.ext
  · funext other
    by_cases same : other = ino
    · rw [same, Ledger.allocate_same, ledger]
      simp only [lookup, if_pos, Option.map_some, links]
      rfl
    · rw [Ledger.allocate_other _ same, ledger, ledger]
      simp only [lookup, if_neg same, links]
  · rw [result]
    rfl

theorem ledger_insertDentry {row : DentryRow} {volume' : Volume} (inserted : volume.insertDentry row = .ok volume') :
    volume'.ledger = volume.ledger.set row.ino
      ⟨(volume.ledger.account row.ino).node, volume.links row.ino + 1⟩ := by
  have links := volume.links_insertDentry inserted
  obtain ⟨dentry, feed, _, result⟩ := volume.insertDentry_ok inserted
  have lookup : ∀ other, volume'.inode? other = volume.inode? other := by
    intro other
    rw [result]
    rfl
  apply Ledger.ext
  · funext other
    by_cases same : other = row.ino
    · rw [same, Ledger.set_same, ledger]
      simp only [lookup, links, if_pos, ledger_account_node]
    · rw [Ledger.set_other _ same, ledger, ledger]
      simp only [lookup, links, if_neg (Ne.symm same), Nat.add_zero]
  · rw [result]
    rfl

theorem ledger_deleteDentry {parentIno : Int} {name : Text} {row : DentryRow}
    (found : volume.dentry? parentIno name = some row) :
    (volume.deleteDentry parentIno name).ledger = volume.ledger.set row.ino
      ⟨(volume.ledger.account row.ino).node, volume.links row.ino - 1⟩ := by
  have links := volume.links_deleteDentry found
  obtain ⟨feed, result⟩ := volume.deleteDentry_eq parentIno name
  have lookup : ∀ other, (volume.deleteDentry parentIno name).inode? other = volume.inode? other := by
    intro other
    rw [result]
    rfl
  apply Ledger.ext
  · funext other
    by_cases same : other = row.ino
    · rw [same, Ledger.set_same, ledger]
      simp only [lookup, links row.ino, if_pos, ledger_account_node, Nat.add_sub_cancel]
    · rw [Ledger.set_other _ same, ledger, ledger]
      simp only [lookup, links other, if_neg (Ne.symm same), Nat.add_zero]
  · rw [result]
    rfl

theorem ledger_deleteInode (ino : Int) :
    (volume.deleteInode ino).ledger = volume.ledger.set ino ⟨none, volume.links ino⟩ := by
  apply Ledger.ext
  · funext other
    by_cases same : other = ino
    · rw [same, Ledger.set_same, ledger]
      simp
    · rw [Ledger.set_other _ same, ledger, ledger]
      simp [same]
  · rfl

theorem ledger_moveDentry {newParentIno oldParentIno : Int} {newName oldName : Text} {volume' : Volume}
    (moved : volume.moveDentry newParentIno newName oldParentIno oldName = .ok volume') :
    volume'.ledger = volume.ledger := by
  have links := volume.links_moveDentry moved
  obtain ⟨dentry, feed, _, result⟩ := volume.moveDentry_ok moved
  apply Ledger.ext
  · funext other
    simp only [ledger, links]
    rw [result]
    rfl
  · rw [result]
    rfl

theorem inode?_insertDentry {row : DentryRow} {volume' : Volume} (inserted : volume.insertDentry row = .ok volume')
    (ino : Int) : volume'.inode? ino = volume.inode? ino := by
  obtain ⟨dentry, feed, _, rfl⟩ := volume.insertDentry_ok inserted
  rfl

theorem inode?_deleteDentry (parentIno : Int) (name : Text) (ino : Int) :
    (volume.deleteDentry parentIno name).inode? ino = volume.inode? ino := by
  obtain ⟨feed, same⟩ := volume.deleteDentry_eq parentIno name
  rw [same]
  rfl

/-- Insert an inode and then an entry for it. -/
theorem ledger_created {row : InodeRow} {ino parentIno : Int} {name : Text} {volume' volume'' : Volume}
    (inserted : volume.insertInode row = .ok (ino, volume'))
    (entered : volume'.insertDentry { name, parentIno, ino } = .ok volume'') :
    volume''.ledger = volume.ledger.allocate ino ⟨some row.node, volume.links ino + 1⟩ ∧
      volume''.inode? ino = some { row with ino } ∧ volume''.links ino = volume.links ino + 1 := by
  have first := volume.ledger_insertInode inserted
  have links : volume'.links ino = volume.links ino := by
    rw [← ledger_account_links, first, Ledger.allocate_same]
  refine ⟨?_, ?_, ?_⟩
  · rw [volume'.ledger_insertDentry entered]
    simp only [links, first, Ledger.allocate_set, Ledger.allocate_same]
  · rw [volume'.inode?_insertDentry entered, volume.inode?_insertInode inserted, if_pos rfl]
  · rw [volume'.links_insertDentry entered, if_pos rfl, links]

end Volume

/-! ## Sound volumes -/

namespace Volume

variable {volume volume' : Volume}

/-- The ledger of the volume is sound. -/
def LinksSound (volume : Volume) : Prop := volume.ledger.Sound

theorem LinksSound.congr (sound : volume.LinksSound) (same : volume'.ledger = volume.ledger) :
    volume'.LinksSound := by
  unfold LinksSound
  rw [same]
  exact sound

theorem LinksSound.balanced_some (sound : volume.LinksSound) {ino : Int} {row : InodeRow}
    (stored : volume.inode? ino = some row) :
    Balanced ino ⟨some ⟨isDirectory row.mode, row.nlink⟩, volume.links ino⟩ := by
  have balanced := Ledger.Sound.balanced sound ino
  have account : volume.ledger.account ino = ⟨some ⟨isDirectory row.mode, row.nlink⟩, volume.links ino⟩ := by
    simp only [ledger, stored, Option.map_some]
    rfl
  rw [account] at balanced
  exact balanced

/-- The inode of an entry is stored, and the entry is one of its links. -/
theorem LinksSound.entry (sound : volume.LinksSound) {parentIno : Int} {name : Text} {entry : DentryRow}
    (found : volume.dentry? parentIno name = some entry) :
    ∃ row links, volume.inode? entry.ino = some row ∧ volume.links entry.ino = links + 1 := by
  have linked : 0 < volume.links entry.ino :=
    volume.links_pos_iff.mpr ⟨entry, volume.dentry.find?_mem found, rfl⟩
  obtain ⟨node, stored⟩ := Ledger.Sound.stored sound linked
  rw [ledger_account_node, Option.map_eq_some_iff] at stored
  obtain ⟨row, stored, _⟩ := stored
  exact ⟨row, volume.links entry.ino - 1, stored, by omega⟩

/-- A new inode with its first entry, counted as its kind demands. -/
theorem LinksSound.create (sound : volume.LinksSound) {row : InodeRow} {ino : Int} {stored : Volume}
    (inserted : volume.insertInode row = .ok (ino, stored)) {node : Node}
    (counted : if node.directory then 1 ≤ node.nlink else node.nlink = 1) :
    volume.links ino = 0 ∧ (volume.ledger.allocate ino ⟨some node, 1⟩).Sound := by
  obtain ⟨next, _⟩ := volume.insertInode_ok inserted
  have fresh := (Ledger.Sound.fresh sound (show volume.ledger.sequence < ino by rw [ledger_sequence]; omega)).1
  exact ⟨congrArg Account.links fresh, Ledger.Sound.create sound next counted⟩

/-- One more entry and one more count for an inode that is no directory. -/
theorem LinksSound.linkEntry (sound : volume.LinksSound) {source : InodeRow} {parentIno : Int} {name : Text}
    {change : InodeRow → InodeRow} (stored : volume.inode? source.ino = some source)
    (file : isDirectory source.mode = false)
    (placed : volume.insertDentry { name, parentIno, ino := source.ino } = .ok volume')
    (effect : ∀ row, ({ change row with ino := row.ino } : InodeRow).node = ⟨row.node.directory, row.node.nlink + 1⟩) :
    (volume'.updateInode source.ino change).LinksSound := by
  have balanced := sound.balanced_some stored
  rw [file] at balanced
  have present : (volume.ledger.account source.ino).node ≠ none := by simp [stored]
  have links := volume.links_insertDentry placed source.ino
  rw [if_pos rfl] at links
  unfold LinksSound
  rw [@ledger_updateInode volume' source.ino change (· + 1) effect, volume.ledger_insertDentry placed, links,
    volume.inode?_insertDentry placed, stored, Ledger.set_set]
  have counted := Ledger.Sound.set_stored sound present balanced.linked
  simpa [InodeRow.node, file] using counted

end Volume

end AiryFS
