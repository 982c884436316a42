import AiryFS.Namespace.RemoteEffects

/-! The directory tree, as the entries and the ledger show it.

What the tree asks of counts is a property of the ledger alone and survives its rewrites;
what it asks of shape is about the parent edges of the entries.
-/

set_option autoImplicit false

namespace AiryFS

open Foundation Relation

/-! ## Tidy ledgers -/

namespace Ledger

def directory (ledger : Ledger) (ino : Int) : Bool := (ledger.account ino).node.any (·.directory)

def nlink (ledger : Ledger) (ino : Int) : Int := (ledger.account ino).node.elim 0 (·.nlink)

/-- The root has no entry, any other directory at most one, and what is no directory counts
its entries. Every number in use comes from the sequence. -/
structure Tidy (ledger : Ledger) : Prop where
  root : ledger.directory ROOT_INO = true
  top : (ledger.account ROOT_INO).links = 0
  single : ∀ ino, ledger.directory ino = true → (ledger.account ino).links ≤ 1
  counted : ∀ ino node, (ledger.account ino).node = some node → node.directory = false →
    node.nlink = (ledger.account ino).links
  numbered : ∀ ino, (ledger.account ino).node ≠ none ∨ 0 < (ledger.account ino).links →
    0 < ino ∧ ino ≤ ledger.sequence

variable {ledger : Ledger}

theorem directory_congr {ledger' : Ledger} {ino : Int} (same : ledger'.account ino = ledger.account ino) :
    ledger'.directory ino = ledger.directory ino := by
  rw [directory, same, directory]

theorem nlink_congr {ledger' : Ledger} {ino : Int} (same : ledger'.account ino = ledger.account ino) :
    ledger'.nlink ino = ledger.nlink ino := by
  rw [nlink, same, nlink]

theorem directory_of_account {ino : Int} {account : Account} (known : ledger.account ino = account) :
    ledger.directory ino = account.node.any (·.directory) := by
  rw [directory, known]

theorem stored_of_directory {ino : Int} (directory : ledger.directory ino = true) :
    (ledger.account ino).node ≠ none := by
  intro absent
  rw [Ledger.directory, absent] at directory
  cases directory

@[simp] theorem directory_recount (ledger : Ledger) (ino : Int) (count : Int → Int) (other : Int) :
    (ledger.recount ino count).directory other = ledger.directory other := by
  unfold directory
  by_cases same : other = ino
  · rw [same, recount, set_same]
    cases (ledger.account ino).node <;> rfl
  · rw [recount_other _ same]

theorem links_recount (ledger : Ledger) (ino : Int) (count : Int → Int) (other : Int) :
    ((ledger.recount ino count).account other).links = (ledger.account other).links := by
  by_cases same : other = ino
  · rw [same, recount, set_same]
  · rw [recount_other _ same]

theorem nlink_recount {ino other : Int} (count : Int → Int) (stored : (ledger.account other).node ≠ none) :
    (ledger.recount ino count).nlink other = if other = ino then count (ledger.nlink other) else ledger.nlink other := by
  unfold nlink
  split
  · rename_i same
    rw [same] at stored ⊢
    rw [recount, set_same]
    cases known : (ledger.account ino).node with
    | none => exact absurd known stored
    | some node => rfl
  · rename_i different
    rw [recount_other _ different]

/-- Recounting a directory is nobody else's business. -/
theorem Tidy.recount (tidy : ledger.Tidy) {ino : Int} (directory : ledger.directory ino = true) (count : Int → Int) :
    (ledger.recount ino count).Tidy := by
  refine ⟨?_, ?_, ?_, ?_, ?_⟩
  · rw [directory_recount]
    exact tidy.root
  · rw [links_recount]
    exact tidy.top
  · intro other
    rw [directory_recount, links_recount]
    exact tidy.single other
  · intro other node stored file
    rw [links_recount]
    by_cases same : other = ino
    · -- A recounted directory is still one.
      have still : (ledger.recount ino count).directory other = true := by
        rw [directory_recount, same]
        exact directory
      rw [Ledger.directory, stored, Option.any_some, file] at still
      cases still
    · rw [recount_other _ same] at stored
      exact tidy.counted other node stored file
  · intro other used
    apply tidy.numbered
    rw [links_recount] at used
    rcases used with stored | linked
    · by_cases same : other = ino
      · left
        rw [same]
        exact stored_of_directory directory
      · rw [recount_other _ same] at stored
        exact .inl stored
    · exact .inr linked

/-- One account may be rewritten when its new contents are tidy on their own. -/
theorem Tidy.set (tidy : ledger.Tidy) {ino : Int} {account : Account} (apart : ino ≠ ROOT_INO)
    (single : ∀ node, account.node = some node → node.directory = true → account.links ≤ 1)
    (counted : ∀ node, account.node = some node → node.directory = false → node.nlink = account.links)
    (numbered : 0 < ino ∧ ino ≤ ledger.sequence) : (ledger.set ino account).Tidy := by
  refine ⟨?_, ?_, ?_, ?_, ?_⟩
  · rw [directory_congr (set_other ledger (Ne.symm apart) account)]
    exact tidy.root
  · rw [set_other ledger (Ne.symm apart)]
    exact tidy.top
  · intro other directory
    by_cases same : other = ino
    · rw [same, directory_of_account (set_same ledger ino account), Option.any_eq_true] at directory
      obtain ⟨node, stored, kind⟩ := directory
      rw [same, set_same]
      exact single node stored kind
    · rw [directory_congr (set_other ledger same account)] at directory
      rw [set_other ledger same]
      exact tidy.single other directory
  · intro other node stored file
    by_cases same : other = ino
    · rw [same, set_same] at stored
      rw [same, set_same]
      exact counted node stored file
    · rw [set_other ledger same] at stored
      rw [set_other ledger same]
      exact tidy.counted other node stored file
  · intro other used
    by_cases same : other = ino
    · rw [same]
      exact numbered
    · rw [set_other ledger same] at used
      exact tidy.numbered other used

theorem Tidy.allocate (tidy : ledger.Tidy) {ino : Int} {account : Account} (next : ino = ledger.sequence + 1)
    (single : ∀ node, account.node = some node → node.directory = true → account.links ≤ 1)
    (counted : ∀ node, account.node = some node → node.directory = false → node.nlink = account.links) :
    (ledger.allocate ino account).Tidy := by
  have root := tidy.numbered ROOT_INO (.inl (stored_of_directory tidy.root))
  have one : ROOT_INO = 1 := rfl
  have longer : (⟨ledger.account, ino⟩ : Ledger).Tidy := by
    refine ⟨tidy.root, tidy.top, tidy.single, tidy.counted, ?_⟩
    intro other used
    have within := tidy.numbered other used
    exact ⟨within.1, by simp only; omega⟩
  exact longer.set (by omega) single counted ⟨by omega, le_refl ino⟩

/-- The next number of the sequence is not in use. -/
theorem Tidy.unused (tidy : ledger.Tidy) {ino : Int} (next : ino = ledger.sequence + 1) :
    ledger.account ino = ⟨none, 0⟩ := by
  have free : ¬((ledger.account ino).node ≠ none ∨ 0 < (ledger.account ino).links) := by
    intro used
    have within := tidy.numbered ino used
    omega
  rw [not_or, not_not, Nat.not_lt, Nat.le_zero] at free
  cases known : ledger.account ino with
  | mk node links =>
    rw [known] at free
    simp only at free
    rw [free.1, free.2]

end Ledger

/-! ## Trees -/

namespace Volume

/-- The parent edges of all entries, from child to parent. -/
def climbs (volume : Volume) : List (Int × Int) := volume.dentry.rows.map fun entry => (entry.ino, entry.parentIno)

def Climbs (volume : Volume) (child parent : Int) : Prop := (child, parent) ∈ volume.climbs

/-- The number of entries of a directory that lead to directories. -/
def childDirectories (volume : Volume) (ino : Int) : Nat :=
  volume.dentry.count fun entry => entry.parentIno = ino && volume.ledger.directory entry.ino

structure Tree (volume : Volume) : Prop where
  tidy : volume.ledger.Tidy
  parents : ∀ entry ∈ volume.dentry.rows, volume.ledger.directory entry.parentIno = true
  acyclic : Acyclic volume.Climbs

/-- A directory that no entry leads to. -/
def Detached (volume : Volume) (ino : Int) : Prop :=
  volume.ledger.directory ino = true ∧ ino ≠ ROOT_INO ∧ volume.links ino = 0

variable {volume volume' : Volume}

theorem directory_iff {ino : Int} {row : InodeRow} (stored : volume.inode? ino = some row) :
    volume.ledger.directory ino = isDirectory row.mode := by
  rw [Ledger.directory, ledger_account_node, stored]
  rfl

theorem nlink_of_stored {ino : Int} {row : InodeRow} (stored : volume.inode? ino = some row) :
    volume.ledger.nlink ino = row.nlink := by
  rw [Ledger.nlink, ledger_account_node, stored]
  rfl

theorem climbs_iff {child parent : Int} :
    volume.Climbs child parent ↔ ∃ entry ∈ volume.dentry.rows, entry.ino = child ∧ entry.parentIno = parent := by
  simp [Climbs, climbs]

/-- Entries that lead to newer inodes only form no cycle. -/
theorem acyclic_of_newer (newer : ∀ entry ∈ volume.dentry.rows, entry.parentIno < entry.ino) : Acyclic volume.Climbs := by
  have falls : ∀ child parent, TransGen volume.Climbs child parent → parent < child := by
    intro child parent path
    induction path with
    | single edge =>
      obtain ⟨entry, member, rfl, rfl⟩ := climbs_iff.mp edge
      exact newer entry member
    | tail _ edge ih =>
      obtain ⟨entry, member, rfl, rfl⟩ := climbs_iff.mp edge
      exact lt_trans (newer entry member) ih
  intro ino cycle
  exact lt_irrefl ino (falls ino ino cycle)

/-- What is no directory is above nothing. -/
theorem Tree.not_climbs_file (tree : volume.Tree) {child file : Int} (kind : volume.ledger.directory file = false) :
    ¬volume.Climbs child file := by
  intro climb
  obtain ⟨entry, member, _, parent⟩ := climbs_iff.mp climb
  have directory := tree.parents entry member
  rw [parent, kind] at directory
  cases directory

theorem Tree.not_reaches_file (tree : volume.Tree) {start file : Int} (kind : volume.ledger.directory file = false)
    (apart : start ≠ file) : ¬ReflTransGen volume.Climbs start file := by
  intro path
  rcases path.cases_tail with same | ⟨_, _, climb⟩
  · exact apart same.symm
  · exact tree.not_climbs_file kind climb

/-- Every directory climbs to the root or to a detached directory. -/
theorem Tree.climbs_to_top (tree : volume.Tree) {ino : Int} (directory : volume.ledger.directory ino = true) :
    ∃ top, (top = ROOT_INO ∨ volume.Detached top) ∧ ReflTransGen volume.Climbs ino top := by
  obtain ⟨top, kind, topmost, path⟩ := @exists_top _ _ volume.climbs tree.acyclic
    (fun ino => volume.ledger.directory ino = true) (by
      intro child parent _ climb
      obtain ⟨entry, member, _, same⟩ := climbs_iff.mp climb
      rw [← same]
      exact tree.parents entry member) _ directory
  refine ⟨top, ?_, path⟩
  by_cases root : top = ROOT_INO
  · exact .inl root
  · right
    refine ⟨kind, root, ?_⟩
    by_contra linked
    obtain ⟨entry, member, same⟩ := volume.links_pos_iff.mp (Nat.pos_of_ne_zero linked)
    exact topmost entry.parentIno (climbs_iff.mpr ⟨entry, member, same, rfl⟩)

end Volume

end AiryFS
