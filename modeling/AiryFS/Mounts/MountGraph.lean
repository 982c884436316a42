import AiryFS.Foundation.Closure
import AiryFS.Foundation.LevelSearch
import AiryFS.Mounts.Hops
import AiryFS.Mounts.Resolution

/-! Requests that create mounts, on any volumes and at the same time.

A request first searches the mount tables of other volumes, one call after the other, then asks
for its target, and at last inserts a row into its own table. Between any two of these steps other
requests take theirs.
-/

set_option autoImplicit false

namespace AiryFS

open Foundation Auth

namespace Mounts

/-- `PUT mounts/<mountpoint>` on a volume. -/
structure MountRequest where
  host : Text
  mountpoint : Text
  target : Text
  subpath : Option Text
  options : Option Text
  create : Bool

def MountRequest.targetVolume (request : MountRequest) : Text := SnapshotStorage.trim request.target

def MountRequest.input (request : MountRequest) (credential : Option (Text × Text)) : CreateMountInput where
  mountpoint := request.mountpoint
  targetVolume := request.targetVolume
  targetSubpath := request.subpath
  hostVolume := request.host
  credentialId := credential.map Prod.fst
  token := credential.map Prod.snd
  options := request.options

/-- What a request waits for next. -/
inductive Phase where
  | checking (search : Search Text)
  | establishing
  | inserting

/-- A request on its way. The tables that stood when its check began are recorded; no step looks at them. -/
structure Pending where
  request : MountRequest
  began : Text → FsMount
  phase : Phase

structure MountSystem where
  tables : Text → FsMount
  requests : ℕ → Option Pending

namespace MountSystem

def start : MountSystem := ⟨fun _ => Table.empty, fun _ => none⟩

inductive Action where
  | put (id : ℕ) (request : MountRequest)
  /-- The next volume of the check is looked at, and its table listed. -/
  | look (id : ℕ)
  /-- The target answers whether it is there. -/
  | establish (id : ℕ) (established : Bool)
  /-- The row is inserted, with the credential that was signed for it. -/
  | insert (id : ℕ) (now : Int) (credential : Option (Text × Text))
  /-- A call to another volume fails, and the request with it. -/
  | fail (id : ℕ)

def setRequest (system : MountSystem) (id : ℕ) (pending : Option Pending) : MountSystem :=
  { system with requests := Function.update system.requests id pending }

def targets (mounts : FsMount) : List Text := (listMounts mounts).map MountRecord.targetVolume

def afterCheck (request : MountRequest) (began : Text → FsMount) : Progress Text → Option Pending
  | .searching search => some ⟨request, began, .checking search⟩
  | .found => none
  | .finished => some ⟨request, began, .establishing⟩

def put (system : MountSystem) (id : ℕ) (request : MountRequest) : MountSystem :=
  if (system.requests id).isSome ∨ request.targetVolume = [] ∨ request.targetVolume = request.host then system
  else system.setRequest id
    (afterCheck request system.tables (Search.enter MAX_MOUNT_HOPS 0 [request.targetVolume] []))

def look (system : MountSystem) (id : ℕ) : MountSystem :=
  match system.requests id with
  | some ⟨request, began, .checking search⟩ =>
    system.setRequest id (afterCheck request began
      (search.advance MAX_MOUNT_HOPS request.host fun volume => targets (system.tables volume)))
  | _ => system

def establish (system : MountSystem) (id : ℕ) (established : Bool) : MountSystem :=
  match system.requests id with
  | some ⟨request, began, .establishing⟩ =>
    system.setRequest id (if request.create || established then some ⟨request, began, .inserting⟩ else none)
  | _ => system

def insert (system : MountSystem) (id : ℕ) (now : Int) (credential : Option (Text × Text)) : MountSystem :=
  match system.requests id with
  | some ⟨request, _, .inserting⟩ =>
    match createMountRow now (system.tables request.host) (request.input credential) with
    | .ok (_, mounts) =>
      { tables := Function.update system.tables request.host mounts
        requests := Function.update system.requests id none }
    | .error _ => system.setRequest id none
  | _ => system

def step (system : MountSystem) : Action → MountSystem
  | .put id request => system.put id request
  | .look id => system.look id
  | .establish id established => system.establish id established
  | .insert id now credential => system.insert id now credential
  | .fail id => system.setRequest id none

/-- The first volume mounts the second. -/
def Grafts (tables : Text → FsMount) (host target : Text) : Prop :=
  ∃ mount ∈ (tables host).rows, mount.targetVolume = target

/-- No mounts lead from the target back to the host except such as the check has seen: few enough
for its depth, and each of them there when it began. -/
def Checked (system : MountSystem) (pending : Pending) : Prop :=
  ∀ path : List Text, path.head? = some pending.request.targetVolume → path.getLast? = some pending.request.host →
    path.IsChain (Grafts system.tables) → path.IsChain (Grafts pending.began) ∧ path.length ≤ MAX_MOUNT_HOPS

/-- An insertion that succeeds comes after a check that has seen what matters. -/
def Allowed (system : MountSystem) : Action → Prop
  | .insert id now credential => ∀ pending, system.requests id = some pending → pending.phase = .inserting →
      (createMountRow now (system.tables pending.request.host) (pending.request.input credential)).isOk →
        system.Checked pending
  | _ => True

end MountSystem

end Mounts

/-! The mounts of all volumes form no cycle, as long as no insertion outruns its check.

A check that ends has seen every mount that leads on from the target within its depth and was
there all the time. So a cycle is closed only over a mount that came after the check began, or
over more of them than the check looks at.
-/

open Foundation Auth Relation

namespace Mounts

namespace MountSystem

instance (tables : Text → FsMount) (host target : Text) : Decidable (Grafts tables host target) :=
  inferInstanceAs (Decidable (∃ mount ∈ (tables host).rows, mount.targetVolume = target))

/-- What the check of a request has established so far. -/
def CheckSound (pending : Pending) : Prop :=
  match pending.phase with
  | .checking search => search.Covers (Grafts pending.began) pending.request.targetVolume pending.request.host MAX_MOUNT_HOPS
  | _ => ¬Search.Reached (Grafts pending.began) pending.request.targetVolume (MAX_MOUNT_HOPS - 1) pending.request.host

/-- Mounts are only added while a request is on its way. -/
structure PendingSound (tables : Text → FsMount) (pending : Pending) : Prop where
  grown : ∀ host target, Grafts pending.began host target → Grafts tables host target
  check : CheckSound pending

structure Sound (system : MountSystem) : Prop where
  acyclic : Acyclic (Grafts system.tables)
  requests : ∀ id pending, system.requests id = some pending → PendingSound system.tables pending

theorem sound_start : Sound start where
  acyclic := by
    intro volume cycle
    obtain ⟨next, first, _⟩ := TransGen.head'_iff.mp cycle
    obtain ⟨mount, member, _⟩ := first
    exact List.not_mem_nil member
  requests id pending present := by cases present

theorem mem_targets {tables : Text → FsMount} {host target : Text} (grafts : Grafts tables host target) :
    target ∈ targets (tables host) := by
  obtain ⟨mount, member, rfl⟩ := grafts
  exact List.mem_map_of_mem (mem_listMounts.mpr member)

/-! ## Steps that insert nothing -/

theorem Sound.setRequest {system : MountSystem} (sound : Sound system) (id : ℕ) {pending : Option Pending}
    (after : ∀ value, pending = some value → PendingSound system.tables value) : Sound (system.setRequest id pending) where
  acyclic := sound.acyclic
  requests other value present := by
    by_cases same : other = id
    · subst same
      have own : pending = some value := by simpa [MountSystem.setRequest] using present
      exact after value own
    · have old : system.requests other = some value := by simpa [MountSystem.setRequest, same] using present
      exact sound.requests other value old

theorem afterCheck_sound {tables : Text → FsMount} {request : MountRequest} {began : Text → FsMount} {progress : Progress Text}
    (grown : ∀ host target, Grafts began host target → Grafts tables host target)
    (search : Search.Established (Grafts began) request.targetVolume request.host MAX_MOUNT_HOPS progress) :
    ∀ value, afterCheck request began progress = some value → PendingSound tables value := by
  intro value present
  cases progress with
  | searching next =>
    obtain rfl := Option.some.inj present
    exact ⟨grown, search⟩
  | found => cases present
  | finished =>
    obtain rfl := Option.some.inj present
    exact ⟨grown, search⟩

theorem Sound.put {system : MountSystem} (sound : Sound system) (id : ℕ) (request : MountRequest) :
    Sound (system.put id request) := by
  unfold MountSystem.put
  split
  · exact sound
  · exact sound.setRequest id (afterCheck_sound (fun _ _ grafts => grafts) (Search.enter_first (by decide : 0 < MAX_MOUNT_HOPS)))

theorem Sound.look {system : MountSystem} (sound : Sound system) (id : ℕ) : Sound (system.look id) := by
  unfold MountSystem.look
  split
  · rename_i request began search present
    obtain ⟨grown, check⟩ := sound.requests id _ present
    have covers : search.Covers (Grafts began) request.targetVolume request.host MAX_MOUNT_HOPS := check
    refine sound.setRequest id (afterCheck_sound grown (covers.advance ?_))
    intro host target grafts
    exact mem_targets (grown host target grafts)
  · exact sound

theorem Sound.establish {system : MountSystem} (sound : Sound system) (id : ℕ) (established : Bool) :
    Sound (system.establish id established) := by
  unfold MountSystem.establish
  split
  · rename_i request began present
    obtain ⟨grown, check⟩ := sound.requests id _ present
    refine sound.setRequest id ?_
    intro value same
    split at same
    · obtain rfl := Option.some.inj same
      exact ⟨grown, check⟩
    · cases same
  · exact sound

/-! ## Insertion -/

/-- The inserted row is the one new edge. -/
theorem grafts_inserted {tables : Text → FsMount} {request : MountRequest} {credential : Option (Text × Text)} {now : Int}
    {record : MountRecord} {mounts : FsMount}
    (created : createMountRow now (tables request.host) (request.input credential) = .ok (record, mounts)) (host target : Text) :
    Grafts (Function.update tables request.host mounts) host target ↔
      Grafts tables host target ∨ host = request.host ∧ target = request.targetVolume := by
  obtain ⟨rfl, rows, _⟩ := createMountRow_spec created
  unfold Grafts
  by_cases own : host = request.host
  · subst own
    rw [Function.update_self, rows]
    simp only [List.mem_append, List.mem_singleton, or_and_right, exists_or, exists_eq_left, true_and]
    exact or_congr Iff.rfl eq_comm
  · rw [Function.update_of_ne own]
    simp [own]

/-- A chain from the target back to the host that the check had to see is one that it has seen. -/
theorem Checked.open_ {system : MountSystem} {pending : Pending} (checked : system.Checked pending)
    (unreached : ¬Search.Reached (Grafts pending.began) pending.request.targetVolume (MAX_MOUNT_HOPS - 1) pending.request.host) :
    ¬ReflTransGen (Grafts system.tables) pending.request.targetVolume pending.request.host := by
  intro back
  obtain ⟨path, chain, last⟩ := List.exists_isChain_cons_of_relationReflTransGen back
  have ends : (pending.request.targetVolume :: path).getLast? = some pending.request.host := by
    rw [List.getLast?_eq_some_getLast (List.cons_ne_nil _ _), last]
  obtain ⟨began, short⟩ := checked _ rfl ends chain
  exact unreached ((Search.reached_of_chain began rfl ends).mono (by omega))

theorem Sound.insert {system : MountSystem} (sound : Sound system) {id : ℕ} {now : Int} {credential : Option (Text × Text)}
    (allowed : system.Allowed (.insert id now credential)) : Sound (system.insert id now credential) := by
  unfold MountSystem.insert
  split
  · rename_i request began present
    split
    · rename_i record mounts created
      have unreached := (sound.requests id _ present).check
      have checked := allowed _ present rfl (by rw [created]; rfl)
      have edges := grafts_inserted created
      constructor
      · exact sound.acyclic.insert (checked.open_ unreached) fun host target grafts => (edges host target).mp grafts
      · intro other pending found
        have old : system.requests other = some pending := by
          by_cases same : other = id
          · subst same
            simp at found
          · simpa [same] using found
        obtain ⟨grown, check⟩ := sound.requests other pending old
        exact ⟨fun host target grafts => (edges host target).mpr (.inl (grown host target grafts)), check⟩
    · exact sound.setRequest id fun value none_ => by cases none_
  · exact sound

theorem Sound.step {system : MountSystem} (sound : Sound system) {action : Action} (allowed : system.Allowed action) :
    Sound (system.step action) := by
  cases action with
  | put id request => exact sound.put id request
  | look id => exact sound.look id
  | establish id established => exact sound.establish id established
  | insert id now credential => exact sound.insert allowed
  | fail id => exact sound.setRequest id fun value none_ => by cases none_

/-- An insertion that outruns its check closes a cycle. -/
theorem allowed_of_acyclic {system : MountSystem} (action : Action) (acyclic : Acyclic (Grafts (system.step action).tables)) :
    system.Allowed action := by
  cases action with
  | insert id now credential =>
    intro pending present inserting succeeds path head ends chain
    exfalso
    obtain ⟨request, began, phase⟩ := pending
    have phase_ : phase = .inserting := inserting
    subst phase_
    cases created : createMountRow now (system.tables request.host) (request.input credential) with
    | error failure =>
      rw [created] at succeeds
      cases succeeds
    | ok result =>
      obtain ⟨record, mounts⟩ := result
      have after : (system.step (.insert id now credential)).tables = Function.update system.tables request.host mounts := by
        change (system.insert id now credential).tables = _
        unfold MountSystem.insert
        rw [present]
        dsimp only
        rw [created]
      rw [after] at acyclic
      have edges := grafts_inserted created
      have back : ReflTransGen (Grafts (Function.update system.tables request.host mounts)) request.targetVolume request.host := by
        cases path with
        | nil => cases head
        | cons first rest =>
          have own : first = request.targetVolume := Option.some.inj head
          rw [own] at chain ends
          have later := chain.imp fun host target grafts => (edges host target).mpr (.inl grafts)
          have last : (request.targetVolume :: rest).getLast (List.cons_ne_nil _ _) = request.host := by
            rw [List.getLast?_eq_some_getLast (List.cons_ne_nil _ _)] at ends
            exact Option.some.inj ends
          exact List.relationReflTransGen_of_exists_isChain_cons rest later last
      exact acyclic _ (TransGen.head' ((edges _ _).mpr (.inr ⟨rfl, rfl⟩)) back)
  | put id request => trivial
  | look id => trivial
  | establish id established => trivial
  | fail id => trivial

/-- A run keeps the mounts acyclic exactly when no insertion of it outruns its check. -/
theorem mounts_acyclic (actions : List Action) :
    (∀ reached, reached <+: actions → Acyclic (Grafts (run step start reached).tables)) ↔ Guarded step Allowed start actions := by
  constructor
  · intro acyclic
    induction actions using List.reverseRecOn with
    | nil => trivial
    | append_singleton actions action ih =>
      refine Guarded.concat.mpr ⟨ih fun reached earlier => acyclic reached (earlier.trans (List.prefix_append _ _)), ?_⟩
      have after := acyclic (actions ++ [action]) List.prefix_rfl
      rw [run, List.foldl_append] at after
      exact allowed_of_acyclic action after
  · intro guarded reached earlier
    exact (run_invariant_reached (fun system action sound allowed => @Sound.step system sound action allowed) sound_start guarded
      earlier).acyclic

/-- Two volumes mount each other at the same time. -/
def crossing : List Action :=
  [.put 0 ⟨"a".toList, "/m".toList, "b".toList, none, none, true⟩, .put 1 ⟨"b".toList, "/m".toList, "a".toList, none, none, true⟩,
    .look 0, .look 1, .look 0, .look 1, .establish 0 true, .establish 1 true, .insert 0 0 none, .insert 1 0 none]

theorem mounts_cycle : ¬Acyclic (Grafts (run step start crossing).tables) := by
  intro acyclic
  have there : Grafts (run step start crossing).tables "a".toList "b".toList := by decide +kernel
  have back : Grafts (run step start crossing).tables "b".toList "a".toList := by decide +kernel
  exact acyclic _ (TransGen.head there (.single back))

end MountSystem

end Mounts

end AiryFS
