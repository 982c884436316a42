import AiryFS.Mounts.Resolution

/-! The mount table as one instance of a volume remembers it.

The rows are remembered at the first request that consults them and forgotten by the requests
that write them, so what matters is that nothing comes between a write and the forgetting.
-/

set_option autoImplicit false

namespace AiryFS

open Foundation Mounts

/-- `fs_mount`, and what one instance keeps of it in memory. -/
structure MountInstance where
  table : FsMount
  mountCache : Option (List MountRecord)
  deriving DecidableEq

namespace MountInstance

/-- Where the creation of a mount fails, when it does. -/
inductive CreationFault where
  /-- Before the row: the body, the walk over the mounts, the target volume, the token. -/
  | early
  /-- At the statement that inserts the row. -/
  | insert
  /-- At the statement that reads the row back. -/
  | readBack
  /-- At the stub directory. -/
  | stub
  deriving DecidableEq, Repr

inductive DeletionFault where
  /-- Before the row: a statement fails. -/
  | statement
  /-- The revocation, whose failure nobody sees. -/
  | revocation
  deriving DecidableEq, Repr

inductive VolumeFault where
  /-- The container, or the entry of the registry. -/
  | early
  /-- In `blockConcurrencyWhile`, which ends the instance: another one starts from what is stored. -/
  | storage (wiped : Bool)
  deriving DecidableEq, Repr

variable (instance_ : MountInstance)

/-- An instance as it starts. -/
def started (table : FsMount) : MountInstance := ⟨table, none⟩

/-- `mounts()`: the rows, and the instance that has remembered them. -/
def mounts : List MountRecord × MountInstance :=
  match instance_.mountCache with
  | some cached => (cached, instance_)
  | none =>
    let listed := listMounts instance_.table
    (listed, { instance_ with mountCache := some listed })

def invalidateMounts : MountInstance := { instance_ with mountCache := none }

inductive Action where
  /-- A request that consults the mounts. The listing of the rows may fail. -/
  | consult (fails : Bool)
  | createMount (now : Int) (input : CreateMountInput) (fault : Option CreationFault)
  | deleteMount (mountpoint : Text) (fault : Option DeletionFault)
  | deleteVolume (fault : Option VolumeFault)

def step (instance_ : MountInstance) (action : Action) : MountInstance :=
  match action with
  | .consult fails => if fails && instance_.mountCache.isNone then instance_ else instance_.mounts.2
  | .createMount now input fault =>
    if fault = some .early ∨ fault = some .insert then instance_
    else match createMountRow now instance_.table input with
      | .error _ => instance_
      | .ok (_, table) =>
        if fault = some .readBack then { instance_ with table }
        else invalidateMounts { instance_ with table }
  | .deleteMount mountpoint fault =>
    if fault = some .statement then instance_
    else match deleteMountRow instance_.table mountpoint with
      | .error _ => instance_
      | .ok (_, table) => invalidateMounts { instance_ with table }
  | .deleteVolume fault =>
    match fault with
    | some .early => instance_
    | some (.storage wiped) => started (if wiped then .empty else instance_.table)
    | none => { instance_ with table := .empty }

/-- What is remembered is what is stored. -/
def Coherent : Prop := instance_.mounts.1 = listMounts instance_.table

instance : Decidable instance_.Coherent := inferInstanceAs (Decidable (_ = _))

/-- Nothing is remembered where the rows change and are not forgotten: a volume is deleted that has rows,
or a row is not read back that was inserted. -/
def Unremembered (instance_ : MountInstance) : Action → Prop
  | .deleteVolume none => instance_.mountCache = none ∨ instance_.table.rows = []
  | .createMount now input (some .readBack) =>
    instance_.mountCache = none ∨ (createMountRow now instance_.table input).toOption = none
  | _ => True

variable {instance_}

theorem coherent_iff : instance_.Coherent ↔ ∀ cached, instance_.mountCache = some cached → cached = listMounts instance_.table := by
  unfold Coherent mounts
  cases instance_.mountCache with
  | none => simp
  | some cached => simp

theorem coherent_forgotten (forgotten : instance_.mountCache = none) : instance_.Coherent := by
  rw [coherent_iff, forgotten]
  exact fun cached remembered => by cases remembered

theorem Coherent.mounts (coherent : instance_.Coherent) : instance_.mounts.2.Coherent := by
  rw [coherent_iff] at coherent ⊢
  unfold MountInstance.mounts
  cases remembered : instance_.mountCache with
  | none =>
    intro cached listed
    exact (Option.some.inj listed).symm
  | some cached => exact fun other same => coherent other same

/-- One case for each kind of request. -/
theorem Coherent.step (coherent : instance_.Coherent) (action : Action) (allowed : Unremembered instance_ action) :
    (instance_.step action).Coherent := by
  unfold MountInstance.step
  cases action with
  | consult fails =>
    dsimp only
    split
    · exact coherent
    · exact coherent.mounts
  | createMount now input fault =>
    dsimp only
    split
    · exact coherent
    · split
      · exact coherent
      · rename_i record table created
        split
        · rename_i unread
          subst unread
          rcases allowed with forgotten | refused
          · exact coherent_forgotten forgotten
          · rw [created] at refused
            cases refused
        · exact coherent_forgotten rfl
  | deleteMount mountpoint fault =>
    dsimp only
    split
    · exact coherent
    · split
      · exact coherent
      · exact coherent_forgotten rfl
  | deleteVolume fault =>
    cases fault with
    | none =>
      rcases allowed with forgotten | empty
      · exact coherent_forgotten forgotten
      · -- There was nothing to forget.
        rw [coherent_iff] at coherent ⊢
        intro cached remembered
        rw [coherent cached remembered, listMounts, listMounts, empty]
        rfl
    | some fault =>
      cases fault with
      | early => exact coherent
      | storage wiped => exact coherent_forgotten rfl

/-- In every run whose steps leave nothing remembered that they drop, a request that consults the mounts sees the rows. -/
theorem mountCache_coherent (table : FsMount) (actions reached : List Action)
    (allowed : Guarded MountInstance.step Unremembered (started table) actions) (earlier : reached <+: actions) :
    (run MountInstance.step (started table) reached).Coherent :=
  run_invariant_reached (fun _ action coherent => coherent.step action) (coherent_forgotten rfl) allowed earlier

/-- A mount on another volume. -/
def grafted : CreateMountInput := ⟨"/m".toList, ['b'], none, ['a'], none, none, none⟩

/-- The mount is created and deleted, and requests consult the table before and after. -/
def remounted : List Action :=
  [.createMount 0 grafted none, .consult false, .deleteMount "/m".toList none, .consult false, .deleteVolume none]

theorem mountCache_coherent_remounted : (run MountInstance.step (started .empty) remounted).Coherent := by
  apply mountCache_coherent .empty remounted remounted _ List.prefix_rfl
  exact ⟨trivial, trivial, trivial, trivial, .inr (by decide +kernel), trivial⟩

/-- The mount of a volume that is then deleted. -/
def outlived : List Action := [.createMount 0 grafted none, .consult false, .deleteVolume none]

theorem mountCache_incoherent :
    ¬∀ (table : FsMount) (actions : List Action), (run MountInstance.step (started table) actions).Coherent := by
  intro always
  have remembered := always .empty outlived
  revert remembered
  decide +kernel

end MountInstance

end AiryFS
