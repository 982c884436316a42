import AiryFS.Leases.OpenInodes

/-! Mount sessions that pin, unpin, renew and reap while both writers unlink and replace files.

Every call of a session is a list of statements. Each of them runs on its own, between any
others; the clock is read once, when the call starts.
-/

set_option autoImplicit false

namespace AiryFS

open Foundation

namespace Remote

inductive PinError where
  | notFound
  deriving DecidableEq, Repr

/-- `pin_open_inode` with its answer: the statement affects a row for each inode of the number. -/
def pin (volume : Volume) (sessionId : Text) (ino expiresAt : Int) : Except PinError Volume :=
  let affected := (volume.inode.rows.filter fun row => row.ino = ino).length
  if affected = 0 then .error .notFound else .ok (pinOpenInode volume sessionId ino expiresAt)

theorem pin_ok_iff {volume volume' : Volume} {sessionId : Text} {ino expiresAt : Int} :
    pin volume sessionId ino expiresAt = .ok volume' ↔
      (volume.inode? ino).isSome = true ∧ volume' = pinOpenInode volume sessionId ino expiresAt := by
  have affected : (volume.inode.rows.filter fun row => row.ino = ino).length = 0 ↔ volume.inode? ino = none := by
    rw [List.length_eq_zero_iff, List.filter_eq_nil_iff, Volume.inode?, volume.inode.find?_eq_none_iff]
    simp
  unfold pin
  dsimp only
  rw [Option.isSome_iff_ne_none, Ne, ← affected]
  split
  · simp [*]
  · rw [Except.ok.injEq]
    exact ⟨fun same => ⟨‹_›, same.symm⟩, fun both => both.2.symm⟩

inductive MountCall where
  | pinOpenInode (sessionId : Text) (ino expiresAt : Int)
  | unpinOpenInode (sessionId : Text) (ino : Int)
  | renewOpenLeases (sessionId : Text) (inos : List Int) (expiresAt : Int)
  | cleanupOpenSession (sessionId : Text)
  | reapExpiredOpenInodes
  | rename (oldParentIno : Int) (oldName : Text) (newParentIno : Int) (newName : Text) (nowNsecs : Int)
  deriving DecidableEq, Repr

inductive MountStatement where
  | lease (statement : LeaseStatement)
  | rename (bindings : List JsValue)
  deriving DecidableEq, Repr

/-- The statements a call runs one after another, with the time it read. -/
def MountCall.statements (now : Int) : MountCall → List MountStatement
  | pinOpenInode sessionId ino expiresAt => [.lease (.pinOpenInode sessionId ino expiresAt)]
  | unpinOpenInode sessionId ino =>
    [.lease (.decrementOpenCount sessionId ino), .lease (.deleteReleased sessionId ino), .lease (.reapInode ino now)]
  | renewOpenLeases sessionId inos expiresAt =>
    if inos.isEmpty then [] else [.lease (.renewOpenLeases sessionId inos expiresAt)]
  | cleanupOpenSession sessionId => [.lease (.cleanupOpenSession sessionId), .lease .reapOrphanInodes]
  | reapExpiredOpenInodes => [.lease (.deleteExpired now), .lease .reapOrphanInodes]
  | rename oldParentIno oldName newParentIno newName nowNsecs =>
    [.rename [.integer oldParentIno, .text oldName, .integer newParentIno, .text newName, .integer now, .integer nowNsecs]]

def MountStatement.run (volume : Volume) : MountStatement → Volume
  | lease statement => statement.run volume
  | rename bindings => settle volume ((executeRemoteRename volume bindings).map Prod.snd)

end Remote

open Remote

structure MountSessions where
  volume : Volume
  /-- What each call still has to run; the newest call is first. -/
  calls : List (List MountStatement)
  /-- The session and inode of every pin that succeeded. -/
  pins : List (Text × Int)
  /-- The session and inode of every unpin that started. -/
  unpins : List (Text × Int)
  /-- The sessions whose cleanup started. -/
  cleaned : List Text
  /-- The lease rows that were there at or past their expiry. -/
  lapsed : List (Text × Int)

inductive MountAction where
  | tick (elapsed : Nat)
  | start (call : MountCall)
  /-- The next statement of the call at this place. -/
  | statement (index : Nat)
  /-- The call fails: the rest of it never runs. -/
  | abandon (index : Nat)
  /-- The direct adapter. -/
  | unlink (path : Text)
  | rename (oldPath newPath : Text)

namespace MountSessions

/-- A volume with no lease and no call under way. -/
def initial (volume : Volume) : MountSessions where
  volume := { volume with openInode := .empty }
  calls := []
  pins := []
  unpins := []
  cleaned := []
  lapsed := []

/-- The pins that a statement completes. -/
def pinned (volume : Volume) : MountStatement → List (Text × Int)
  | .lease (.pinOpenInode sessionId ino expiresAt) =>
    if (pin volume sessionId ino expiresAt).isOk then [(sessionId, ino)] else []
  | _ => []

def unpinned : MountCall → List (Text × Int)
  | .unpinOpenInode sessionId ino => [(sessionId, ino)]
  | _ => []

def closing : MountCall → List Text
  | .cleanupOpenSession sessionId => [sessionId]
  | _ => []

def expired (volume : Volume) : List (Text × Int) :=
  (volume.openInode.rows.filter fun row => row.expiresAt ≤ volume.now).map OpenInodeRow.key

def execute (state : MountSessions) (statement : MountStatement) : MountSessions :=
  { state with volume := statement.run state.volume, pins := pinned state.volume statement ++ state.pins }

def apply (state : MountSessions) : MountAction → MountSessions
  | .tick elapsed => { state with volume := { state.volume with clock := state.volume.clock + elapsed } }
  | .start call => { state with
      calls := call.statements state.volume.now :: state.calls
      unpins := unpinned call ++ state.unpins
      cleaned := closing call ++ state.cleaned }
  | .statement index =>
    match state.calls[index]? with
    | some (statement :: rest) => execute { state with calls := state.calls.set index rest } statement
    | _ => state
  | .abandon index => { state with calls := state.calls.eraseIdx index }
  | .unlink path => { state with volume := settle state.volume (AgentFS.unlink state.volume path) }
  | .rename oldPath newPath => { state with volume := settle state.volume (AgentFS.rename state.volume oldPath newPath) }

def observe (state : MountSessions) : MountSessions := { state with lapsed := expired state.volume ++ state.lapsed }

def step (state : MountSessions) (action : MountAction) : MountSessions := (state.apply action).observe

end MountSessions

/-! What the lease rows count, and what each lease statement does to the count.

A row counts at least as many pins as it has successes, less the unpins whose first statement
has run, for as long as it has not reached its expiry.
-/

open Foundation Remote

namespace Volume

/-- What the row of a session counts for an inode: nothing when there is no row. -/
def openCount (volume : Volume) (key : Text × Int) : Int :=
  ((volume.openInode.find? key).map (·.openCount)).getD 0

/-- The row of the session, if any, has not reached its expiry. -/
def Live (volume : Volume) (key : Text × Int) : Prop :=
  ∀ row, volume.openInode.find? key = some row → volume.now < row.expiresAt

def Backed (volume : Volume) : Prop := ∀ row ∈ volume.openInode.rows, (volume.inode? row.ino).isSome = true

/-- The inode is there, with the chunks and the symlink target it had. -/
def Holds (origin volume : Volume) (ino : Int) : Prop :=
  (volume.inode? ino).isSome = true ∧
  volume.data.rows.filter (fun row => row.ino = ino) = origin.data.rows.filter (fun row => row.ino = ino) ∧
  volume.symlink.find? ino = origin.symlink.find? ino

theorem leased_of_openCount {volume : Volume} {sessionId : Text} {ino : Int}
    (live : volume.Live (sessionId, ino)) (open_ : 0 < volume.openCount (sessionId, ino)) :
    volume.leased ino volume.now = true := by
  unfold openCount at open_
  cases found : volume.openInode.find? (sessionId, ino) with
  | none =>
    rw [found] at open_
    exact absurd open_ (lt_irrefl 0)
  | some row =>
    rw [found] at open_
    exact (volume.leased_iff ino volume.now).mpr ⟨sessionId, row, found, open_, live row found⟩

theorem Retains.openCount {before after : Volume} (retains : Retains before after) {key : Text × Int}
    (live : before.Live key) : before.openCount key ≤ after.openCount key := by
  rcases retains.leases key with same | ⟨gone, free⟩
  · rw [Volume.openCount, ← same, Volume.openCount]
  · have none : after.openCount key = 0 := by
      rw [Volume.openCount, gone]
      rfl
    rw [none]
    by_contra open_
    rw [leased_of_openCount live (not_le.mp open_)] at free
    cases free

/-- Dropping rows that count nothing. -/
theorem openCount_deleteWhere (volume : Volume) (selected : OpenInodeRow → Bool) {key : Text × Int}
    (spent : ∀ row, volume.openInode.find? key = some row → selected row = true → row.openCount ≤ 0) :
    volume.openCount key ≤ openCount { volume with openInode := volume.openInode.deleteWhere selected } key := by
  unfold openCount
  dsimp only
  rw [Table.find?_deleteWhere]
  cases found : volume.openInode.find? key with
  | none => exact le_refl _
  | some row =>
    cases chosen : selected row with
    | false => simp [Option.filter, chosen]
    | true => simpa [Option.filter, chosen] using spent row found chosen

theorem Backed.deleteWhere {volume : Volume} (backed : volume.Backed) (selected : OpenInodeRow → Bool) :
    Backed { volume with openInode := volume.openInode.deleteWhere selected } := by
  intro row member
  exact backed row ((volume.openInode.mem_deleteWhere).mp member).1

theorem Backed.modify {volume : Volume} (backed : volume.Backed) {change : OpenInodeRow → OpenInodeRow}
    (same : ∀ row, (change row).key = row.key) :
    Backed { volume with openInode := volume.openInode.modify change same } := by
  intro row member
  obtain ⟨old, stored, rfl⟩ := List.mem_map.mp member
  have ino : (change old).ino = old.ino := congrArg Prod.snd (same old)
  rw [ino]
  exact backed old stored

end Volume

open Volume

/-! ## The lease statements -/

namespace Remote

/-- A statement that carries the time of its call carries none that is still to come. -/
def MountStatement.Past (now : Int) : MountStatement → Prop
  | .lease (.reapInode _ read) => read ≤ now
  | .lease (.deleteExpired read) => read ≤ now
  | .rename bindings => ∀ call, Rename.parse bindings = .ok call → call.nowSecs ≤ now
  | _ => True

theorem Rename.parse_nowSecs {oldParentIno newParentIno now nowNsecs : Int} {oldName newName : Text} {call : Rename}
    (parsed : Rename.parse [.integer oldParentIno, .text oldName, .integer newParentIno, .text newName,
      .integer now, .integer nowNsecs] = .ok call) : call.nowSecs = now := by
  obtain ⟨_, _, parsed⟩ := bind_eq_ok.mp parsed
  obtain ⟨_, _, parsed⟩ := bind_eq_ok.mp parsed
  obtain ⟨_, _, parsed⟩ := bind_eq_ok.mp parsed
  obtain ⟨_, _, parsed⟩ := bind_eq_ok.mp parsed
  obtain ⟨_, _, parsed⟩ := bind_eq_ok.mp parsed
  obtain ⟨nowSecs, read, parsed⟩ := bind_eq_ok.mp parsed
  obtain ⟨_, _, parsed⟩ := bind_eq_ok.mp parsed
  obtain ⟨_, _, parsed⟩ := bind_eq_ok.mp parsed
  rw [← pure_eq_ok.mp parsed]
  dsimp only
  change requireSafeInteger (.integer now) "now_secs" = .ok nowSecs at read
  unfold requireSafeInteger at read
  dsimp only at read
  split at read
  · exact (pure_eq_ok.mp read).symm
  · cases read

/-- A call starts with the present time. -/
theorem MountCall.statements_past (call : MountCall) (now : Int) : ∀ statement ∈ call.statements now, statement.Past now := by
  intro statement member
  cases call with
  | pinOpenInode sessionId ino expiresAt | cleanupOpenSession sessionId =>
    simp only [MountCall.statements, List.mem_cons, List.not_mem_nil, or_false] at member
    rcases member with rfl | rfl <;> trivial
  | unpinOpenInode sessionId ino =>
    simp only [MountCall.statements, List.mem_cons, List.not_mem_nil, or_false] at member
    rcases member with rfl | rfl | rfl
    · trivial
    · trivial
    · exact le_refl now
  | renewOpenLeases sessionId inos expiresAt =>
    simp only [MountCall.statements] at member
    split at member
    · cases member
    · rw [List.mem_singleton.mp member]
      trivial
  | reapExpiredOpenInodes =>
    simp only [MountCall.statements, List.mem_cons, List.not_mem_nil, or_false] at member
    rcases member with rfl | rfl
    · exact le_refl now
    · trivial
  | rename oldParentIno oldName newParentIno newName nowNsecs =>
    rw [List.mem_singleton.mp member]
    intro call parsed
    exact le_of_eq (Rename.parse_nowSecs parsed)

theorem MountStatement.Past.later {now later : Int} {statement : MountStatement} (past : statement.Past now)
    (forward : now ≤ later) : statement.Past later := by
  cases statement with
  | rename bindings => exact fun call parsed => le_trans (past call parsed) forward
  | lease statement =>
    cases statement with
    | reapInode ino read | deleteExpired read => exact le_trans past forward
    | _ => trivial

namespace LeaseStatement

/-- The statements that delete inodes keep the leased ones; the others leave inodes alone. -/
theorem reap_retains {volume : Volume} {statement : LeaseStatement}
    (reaps : (∃ ino read, statement = .reapInode ino read ∧ read ≤ volume.now) ∨ statement = .reapOrphanInodes) :
    Retains volume (statement.run volume) := by
  rcases reaps with ⟨ino, read, rfl, past⟩ | rfl
  · refine Retains.deleteInodes volume ?_
    intro row _ chosen
    simp only [Bool.and_eq_true, decide_eq_true_eq, Bool.not_eq_true'] at chosen
    obtain ⟨⟨⟨same, _⟩, _⟩, free⟩ := chosen
    rw [same]
    -- The time of the call is not ahead of the clock.
    by_contra held
    rw [leased_earlier past (Bool.not_eq_false _ ▸ held)] at free
    cases free
  · refine Retains.deleteInodes volume ?_
    intro row _ chosen
    simp only [Bool.and_eq_true, Bool.not_eq_true', List.any_eq_false, decide_eq_true_eq] at chosen
    rw [Volume.leased, List.any_eq_false]
    intro lease member held
    simp only [Bool.and_eq_true, decide_eq_true_eq] at held
    exact chosen.2 lease member held.1.1

variable (statement : LeaseStatement) (volume : Volume)

theorem run_now : (statement.run volume).now = volume.now := by
  cases statement with
  | pinOpenInode sessionId ino expiresAt =>
    unfold LeaseStatement.run Remote.pinOpenInode
    dsimp only
    split <;> rfl
  | _ => rfl

/-- How many unpins a statement takes off the row of a session. -/
def unpinning (key : Text × Int) : Nat := if statement = .decrementOpenCount key.1 key.2 then 1 else 0

/-- A pin adds what it reports. -/
theorem pinOpenInode_openCount (sessionId : Text) (ino expiresAt : Int) (key : Text × Int) :
    volume.openCount key + (MountSessions.pinned volume (.lease (.pinOpenInode sessionId ino expiresAt))).count key ≤
      (Remote.pinOpenInode volume sessionId ino expiresAt).openCount key := by
  unfold MountSessions.pinned
  dsimp only
  cases pinned : pin volume sessionId ino expiresAt with
  | error refused =>
    have unchanged : Remote.pinOpenInode volume sessionId ino expiresAt = volume := by
      unfold Remote.pinOpenInode
      cases stored : volume.inode? ino with
      | none => rfl
      | some row =>
        have accepted : pin volume sessionId ino expiresAt = .ok _ := pin_ok_iff.mpr ⟨by rw [stored]; rfl, rfl⟩
        rw [pinned] at accepted
        cases accepted
    simp [unchanged, Except.isOk, Except.toBool]
  | ok volume' =>
    obtain ⟨row, stored⟩ := Option.isSome_iff_exists.mp (pin_ok_iff.mp pinned).1
    unfold Remote.pinOpenInode openCount
    rw [stored]
    dsimp only
    rw [Table.find?_upsert, OpenInodeRow.key, if_pos (show (Except.ok volume' : Except PinError Volume).isOk = true from rfl)]
    dsimp only
    by_cases same : key = (sessionId, ino)
    · subst same
      rw [if_pos rfl]
      cases found : volume.openInode.find? (sessionId, ino) <;> simp
    · rw [if_neg same]
      simp [Ne.symm same]

theorem decrement_openCount (sessionId : Text) (ino : Int) (key : Text × Int) :
    volume.openCount key ≤ ((LeaseStatement.decrementOpenCount sessionId ino).run volume).openCount key +
      (LeaseStatement.decrementOpenCount sessionId ino).unpinning key := by
  unfold openCount LeaseStatement.run unpinning
  dsimp only
  rw [Table.find?_modify]
  cases found : volume.openInode.find? key with
  | none =>
    simp only [Option.map_none, Option.getD_none]
    split <;> decide
  | some row =>
    have keyed : row.key = key := volume.openInode.find?_key found
    subst keyed
    simp only [Option.map_some, Option.getD_some, decremented, OpenInodeRow.key, LeaseStatement.decrementOpenCount.injEq]
    by_cases named : row.sessionId = sessionId ∧ row.ino = ino
    · rw [if_pos named, if_pos ⟨named.1.symm, named.2.symm⟩]
      simp
    · rw [if_neg named]
      split <;> simp

/-- No statement takes more off a live row than it says. -/
theorem run_openCount {key : Text × Int} (live : volume.Live key) (past : (MountStatement.lease statement).Past volume.now)
    (open_ : statement ≠ .cleanupOpenSession key.1) :
    volume.openCount key + (MountSessions.pinned volume (.lease statement)).count key ≤
      (statement.run volume).openCount key + statement.unpinning key := by
  cases statement with
  | pinOpenInode sessionId ino expiresAt =>
    exact le_trans (pinOpenInode_openCount volume sessionId ino expiresAt key) (by simp [LeaseStatement.run, unpinning])
  | decrementOpenCount sessionId ino =>
    simpa [MountSessions.pinned] using decrement_openCount volume sessionId ino key
  | deleteReleased sessionId ino =>
    have kept : volume.openCount key ≤ ((LeaseStatement.deleteReleased sessionId ino).run volume).openCount key := by
      refine openCount_deleteWhere volume _ ?_
      intro row _ chosen
      simp only [Bool.and_eq_true, decide_eq_true_eq] at chosen
      exact chosen.2
    simpa [MountSessions.pinned, unpinning] using kept
  | deleteExpired read =>
    have kept : volume.openCount key ≤ ((LeaseStatement.deleteExpired read).run volume).openCount key := by
      refine openCount_deleteWhere volume _ ?_
      intro row found chosen
      simp only [Bool.or_eq_true, decide_eq_true_eq] at chosen
      rcases chosen with late | released
      · exact absurd (le_trans late past) (not_le.mpr (live row found))
      · exact released
    simpa [MountSessions.pinned, unpinning] using kept
  | cleanupOpenSession sessionId =>
    have kept : volume.openCount key ≤ ((LeaseStatement.cleanupOpenSession sessionId).run volume).openCount key := by
      refine openCount_deleteWhere volume _ ?_
      intro row found chosen
      have keyed : row.key = key := volume.openInode.find?_key found
      exact absurd (by rw [← keyed, ← of_decide_eq_true chosen]; rfl) open_
    simpa [MountSessions.pinned, unpinning] using kept
  | renewOpenLeases sessionId inos expiresAt =>
    have kept : volume.openCount key = ((LeaseStatement.renewOpenLeases sessionId inos expiresAt).run volume).openCount key := by
      unfold openCount LeaseStatement.run
      dsimp only
      rw [Table.find?_modify, Option.map_map]
      congr 2
      funext row
      rw [Function.comp_apply, renewed]
      split <;> rfl
    simp [MountSessions.pinned, unpinning, kept]
  | reapInode ino read =>
    have retains := @reap_retains volume _ (.inl ⟨ino, read, rfl, past⟩)
    simpa [MountSessions.pinned, unpinning] using retains.openCount live
  | reapOrphanInodes =>
    have retains := @reap_retains volume _ (.inr rfl)
    simpa [MountSessions.pinned, unpinning] using retains.openCount live

theorem run_backed (past : (MountStatement.lease statement).Past volume.now) (backed : volume.Backed) :
    (statement.run volume).Backed := by
  cases statement with
  | pinOpenInode sessionId ino expiresAt =>
    unfold LeaseStatement.run Remote.pinOpenInode
    dsimp only
    split
    · exact backed
    · rename_i row stored
      intro lease member
      change (volume.inode? lease.ino).isSome = true
      rcases List.mem_append.mp member with old | new
      · exact backed lease ((volume.openInode.mem_erase).mp old).1
      · rw [List.mem_singleton.mp new, stored]
        rfl
  | decrementOpenCount | renewOpenLeases => exact backed.modify _
  | deleteReleased | deleteExpired | cleanupOpenSession => exact backed.deleteWhere _
  | reapInode ino read => exact (reap_retains (.inl ⟨ino, read, rfl, past⟩)).backed backed
  | reapOrphanInodes => exact (reap_retains (.inr rfl)).backed backed

/-- What is still there holds what it held. -/
theorem run_holds (past : (MountStatement.lease statement).Past volume.now) {ino : Int}
    (stored : ((statement.run volume).inode? ino).isSome = true) : volume.Holds (statement.run volume) ino ∧
      (volume.inode? ino).isSome = true := by
  cases statement with
  | pinOpenInode sessionId other expiresAt =>
    revert stored
    unfold LeaseStatement.run Remote.pinOpenInode
    dsimp only
    split <;> exact fun stored => ⟨⟨stored, rfl, rfl⟩, stored⟩
  | reapInode other read =>
    obtain ⟨there, same⟩ := (reap_retains (.inl ⟨other, read, rfl, past⟩)).contents ino stored
    exact ⟨⟨stored, same⟩, there⟩
  | reapOrphanInodes =>
    obtain ⟨there, same⟩ := (reap_retains (.inr rfl)).contents ino stored
    exact ⟨⟨stored, same⟩, there⟩
  | _ => exact ⟨⟨stored, rfl, rfl⟩, stored⟩

end LeaseStatement

end Remote

end AiryFS
