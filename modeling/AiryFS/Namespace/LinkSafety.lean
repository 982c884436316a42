import AiryFS.Namespace.DirectLinks
import AiryFS.Namespace.RemoteLinks
import AiryFS.Foundation.Runs

/-! Both writers on one set of tables, with the lease statements and the clock between them.

The orphan reaper deletes every inode with a count of zero and no lease. It is safe as long
as each count that a step takes away was there: the two writers count directories
differently, and where their operations meet on one directory the count can run out early
or never.
-/

set_option autoImplicit false

namespace AiryFS

open Foundation

/-- One step of either writer, one lease statement, or a reading of the clock. -/
inductive Operation where
  | mkdir (path : Text)
  | writeFile (chunkSize : Nat) (path : Text) (buffer : Bytes)
  | touch (rawPath : Text) (atime mtime : Option Rat)
  | link (rawExisting rawPath : Text)
  | rename (oldPath newPath : Text)
  | unlink (path : Text)
  | rmdir (path : Text)
  | createNode (bindings : List JsValue)
  | remoteLink (bindings : List JsValue)
  | remoteRename (bindings : List JsValue)
  | lease (statement : Remote.LeaseStatement)
  | tick (clock : Int)

namespace Operation

def outcome (volume : Volume) : Operation → Except Failure Volume
  | mkdir path => AgentFS.mkdir volume path
  | writeFile chunkSize path buffer => AgentFS.writeFile volume chunkSize path buffer
  | touch rawPath atime mtime => FilesystemPrimitives.touch volume rawPath atime mtime
  | link rawExisting rawPath => FilesystemPrimitives.link volume rawExisting rawPath
  | rename oldPath newPath => AgentFS.rename volume oldPath newPath
  | unlink path => AgentFS.unlink volume path
  | rmdir path => AgentFS.rmdir volume path
  | createNode bindings => (Remote.executeRemoteCreateNode volume bindings).map Prod.snd
  | remoteLink bindings => (Remote.executeRemoteLink volume bindings).map Prod.snd
  | remoteRename bindings => (Remote.executeRemoteRename volume bindings).map Prod.snd
  | lease statement => .ok (statement.run volume)
  | tick clock => .ok { volume with clock }

/-- A failed operation leaves the volume as it was. -/
def step (volume : Volume) (operation : Operation) : Volume := settle volume (operation.outcome volume)

/-- The operation takes away no count that its directory does not have to spare. -/
def Spared (volume : Volume) : Operation → Prop
  | rename oldPath newPath =>
    ∀ ino ∈ AgentFS.replacedDirectory volume oldPath newPath, AgentFS.SingleLink volume ino
  | rmdir path => ∀ ino ∈ AgentFS.removedDirectory volume path, AgentFS.SingleLink volume ino
  | createNode bindings => ∀ call, Remote.CreateNode.parse bindings = .ok call → call.Spared volume
  | remoteRename bindings => ∀ call, Remote.Rename.parse bindings = .ok call → call.Spared volume
  | _ => True

end Operation

/-- What the orphan reaper relies on. -/
structure Volume.LinkSafe (volume : Volume) : Prop where
  /-- The root and every inode with an entry has a positive count. -/
  linked : ∀ ino, (ino = ROOT_INO ∨ ∃ entry ∈ volume.dentry.rows, entry.ino = ino) →
    ∃ row, volume.inode? ino = some row ∧ 1 ≤ row.nlink
  /-- Any other inode without an entry or a lease has none. -/
  unlinked : ∀ row ∈ volume.inode.rows, row.ino ≠ ROOT_INO → (∀ entry ∈ volume.dentry.rows, entry.ino ≠ row.ino) →
    volume.leased row.ino volume.now = false → row.nlink = 0
  /-- So the reaper keeps every inode with an entry. -/
  reaped : ∀ entry ∈ volume.dentry.rows,
    (Remote.reapOrphanInodes volume).inode? entry.ino = volume.inode? entry.ino

theorem Volume.LinksSound.fresh (clock : Int) : (Volume.fresh clock).LinksSound := by
  constructor
  · intro ino
    by_cases root : ino = ROOT_INO
    · subst root
      have directory : isDirectory 16877 = true := by decide
      change Balanced ROOT_INO ⟨some ⟨isDirectory 16877, 1⟩, 0⟩
      rw [directory]
      exact balanced_root_iff.mpr ⟨le_refl 1, rfl⟩
    · have account : (Volume.fresh clock).ledger.account ino = ⟨none, 0⟩ := by
        have absent : (Volume.fresh clock).inode? ino = none := by
          refine (Table.find?_eq_none_iff _).mpr ?_
          intro row member
          rw [List.mem_singleton.mp member]
          exact Ne.symm root
        simp only [ledger, absent]
        rfl
      rw [account]
      exact balanced_none_iff.mpr ⟨root, rfl⟩
  · intro ino stored
    by_contra beyond
    apply stored
    rw [ledger_account_node, Option.map_eq_none_iff]
    refine (Table.find?_eq_none_iff _).mpr ?_
    intro row member same
    rw [List.mem_singleton.mp member] at same
    exact beyond (by rw [← same]; exact le_refl _)

theorem Volume.LinksSound.linkSafe {volume : Volume} (sound : volume.LinksSound) : volume.LinkSafe := by
  have linked : ∀ ino, (ino = ROOT_INO ∨ ∃ entry ∈ volume.dentry.rows, entry.ino = ino) →
      ∃ row, volume.inode? ino = some row ∧ 1 ≤ row.nlink := by
    intro ino reached
    rcases reached with root | ⟨entry, member, same⟩
    · obtain ⟨node, stored, _, positive, _⟩ := Ledger.Sound.root sound
      rw [ledger_account_node, Option.map_eq_some_iff] at stored
      obtain ⟨row, stored, kept⟩ := stored
      rw [← kept] at positive
      rw [root]
      exact ⟨row, stored, positive⟩
    · obtain ⟨row, links, stored, counted⟩ := sound.entry (volume.dentry.find?_of_mem member)
      rw [same] at stored counted
      refine ⟨row, stored, ?_⟩
      have balanced := sound.balanced_some stored
      rw [counted] at balanced
      cases directory : isDirectory row.mode with
      | false =>
        rw [directory, balanced_file_iff] at balanced
        omega
      | true =>
        rw [directory] at balanced
        by_cases root : ino = ROOT_INO
        · subst root
          exact absurd (balanced_root_iff.mp balanced).2 (by omega)
        · rw [balanced_directory_iff root] at balanced
          omega
  refine ⟨linked, ?_, ?_⟩
  · intro row member apart unreferenced _
    have stored : volume.inode? row.ino = some row := volume.inode.find?_of_mem member
    have none : volume.links row.ino = 0 := by
      by_contra some
      obtain ⟨entry, entry_mem, same⟩ := volume.links_pos_iff.mp (Nat.pos_of_ne_zero some)
      exact unreferenced entry entry_mem same
    have balanced := sound.balanced_some stored
    rw [none] at balanced
    cases directory : isDirectory row.mode with
    | false =>
      rw [directory, balanced_file_iff] at balanced
      exact balanced.2
    | true =>
      rw [directory, balanced_directory_iff apart] at balanced
      omega
  · intro entry member
    obtain ⟨row, stored, positive⟩ := linked entry.ino (.inr ⟨entry, member, rfl⟩)
    rw [stored]
    refine (Table.find?_eq_some_iff _).mpr ⟨?_, volume.inode.find?_key stored⟩
    refine (Table.mem_deleteWhere _).mpr ⟨volume.inode.find?_mem stored, ?_⟩
    have counted : row.nlink ≠ 0 := by omega
    simp [counted]

theorem Operation.step_sound (volume : Volume) (operation : Operation) (sound : volume.LinksSound)
    (spared : operation.Spared volume) : (operation.step volume).LinksSound := by
  refine settle_induction sound ?_
  intro next done
  -- The remote operations also return a status.
  have mapped : ∀ {result : Except Failure (Int × Volume)}, result.map Prod.snd = .ok next →
      ∃ status, result = .ok (status, next) := by
    intro result returned
    cases result with
    | error failure => cases returned
    | ok pair => exact ⟨pair.1, by rw [← Except.ok.inj returned]⟩
  cases operation with
  | mkdir path => exact AgentFS.mkdir_sound sound done
  | writeFile chunkSize path buffer => exact AgentFS.writeFile_sound sound done
  | touch rawPath atime mtime => exact FilesystemPrimitives.touch_sound sound done
  | link rawExisting rawPath => exact FilesystemPrimitives.link_sound sound done
  | rename oldPath newPath => exact AgentFS.rename_sound sound spared done
  | unlink path => exact AgentFS.unlink_sound sound done
  | rmdir path => exact AgentFS.rmdir_sound sound spared done
  | createNode bindings =>
    obtain ⟨status, executed⟩ := mapped done
    obtain ⟨call, parsed, ran⟩ := bind_eq_ok.mp executed
    exact Remote.CreateNode.run_sound sound (spared call parsed) ran
  | remoteLink bindings =>
    obtain ⟨status, executed⟩ := mapped done
    obtain ⟨call, _, ran⟩ := bind_eq_ok.mp executed
    exact Remote.Link.run_sound sound ran
  | remoteRename bindings =>
    obtain ⟨status, executed⟩ := mapped done
    obtain ⟨call, parsed, ran⟩ := bind_eq_ok.mp executed
    exact Remote.Rename.run_sound sound (spared call parsed) ran
  | lease statement =>
    rw [← Except.ok.inj done]
    exact statement.run_sound sound
  | tick clock =>
    rw [← Except.ok.inj done]
    exact sound.congr rfl

/-- Every state of a run whose steps take no missing count is safe for the reaper. -/
theorem linkSafety (clock : Int) (operations reached : List Operation)
    (spared : Guarded Operation.step Operation.Spared
      (Volume.fresh clock) operations) (earlier : reached <+: operations) :
    (run Operation.step (Volume.fresh clock) reached).LinkSafe := by
  refine Volume.LinksSound.linkSafe ?_
  exact run_invariant_reached Operation.step_sound (Volume.LinksSound.fresh clock) spared earlier

/-- A run that both writers share: a directory of each, and the direct one removed. -/
def sharedRun : List Operation :=
  [.mkdir "/a".toList,
    .createNode [.text "mkdir".toList, .integer 1, .text "d".toList, .integer 0o755, .integer 0, .integer 0,
      .integer 0, .null, .integer 0, .integer 0],
    .rmdir "/a".toList]

theorem linkSafety_sharedRun :
    (run Operation.step (Volume.fresh 0) sharedRun).LinkSafe := by
  refine linkSafety 0 sharedRun sharedRun ⟨trivial, ?_, ?_, trivial⟩ List.prefix_rfl
  · intro call parsed _ _ _
    have parent : call.parentIno = 1 := by
      have known : (Remote.CreateNode.parse [.text "mkdir".toList, .integer 1, .text "d".toList, .integer 0o755,
          .integer 0, .integer 0, .integer 0, .null, .integer 0, .integer 0]).map (·.parentIno) = .ok 1 := by decide
      rw [parsed] at known
      exact Except.ok.inj known
    rw [parent]
    decide
  · change ∀ ino ∈ AgentFS.removedDirectory (run Operation.step
      (Volume.fresh 0) (sharedRun.take 2)) "/a".toList, ∀ row ∈ (run Operation.step (Volume.fresh 0) (sharedRun.take 2)).inode? ino,
        isDirectory row.mode = true → row.nlink = 1
    decide

def crossedWriters : List Operation :=
  [.mkdir "/a".toList, .mkdir "/a/d".toList,
    .remoteRename [.integer 2, .text "d".toList, .integer 1, .text "d".toList, .integer 0, .integer 0]]

/-- A directory that the direct adapter filled loses its only count to the remote rename. -/
theorem crossedWriters_unsafe :
    ¬∀ operations, (run Operation.step (Volume.fresh 0) operations).LinkSafe := by
  intro safe
  obtain ⟨row, stored, positive⟩ := (safe crossedWriters).linked 2 (.inr ⟨⟨"a".toList, 1, 2⟩, by decide, rfl⟩)
  have uncounted : ((run Operation.step (Volume.fresh 0)
      crossedWriters).inode? 2).map (·.nlink) = some 0 := by decide
  rw [stored, Option.map_some, Option.some.injEq] at uncounted
  omega

end AiryFS
