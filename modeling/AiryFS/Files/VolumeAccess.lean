import AiryFS.Storage.Values
import AiryFS.Foundation.FairQueue
import AiryFS.Foundation.Separated

/-! The path lock that every file request of a volume goes through.

A request waits for the paths it names, and `*` stands for the whole volume. Two requests
conflict when one of them writes and a path of one is, contains or lies inside a path of
the other.
-/

set_option autoImplicit false

namespace AiryFS

open Foundation Relation

inductive LockMode where
  | read
  | write
  deriving DecidableEq, Repr

/-- One request; `id` tells request objects apart, in the order they were made. -/
structure LockWaiter where
  id : Nat
  mode : LockMode
  paths : List Text
  deriving DecidableEq, Repr

structure VolumeAccessCoordinator where
  active : List LockWaiter
  waiters : List LockWaiter
  /-- The requests whose release has been called. -/
  released : List Nat
  /-- The number of requests made so far. -/
  requests : Nat
  deriving DecidableEq, Repr

namespace VolumeAccessCoordinator

def initial : VolumeAccessCoordinator := ⟨[], [], [], 0⟩

def everything : Text := ['*']

def normalizeLockPath (path : Text) : Text :=
  if path = everything then path
  else
    let normalized := absolute '/' (fields '/' path)
    if normalized = [] then ['/'] else normalized

/-- `path === '/' ? '/' : path.replace(/\/+$/, '')`. -/
def withoutTrailing (path : Text) : Text := if path = ['/'] then ['/'] else path.rdropWhile (· == '/')

def pathsOverlap (a b : Text) : Bool :=
  if a = everything ∨ b = everything then true
  else
    let left := withoutTrailing a
    let right := withoutTrailing b
    left = right || left = ['/'] || right = ['/'] ||
      (right ++ ['/']).isPrefixOf left || (left ++ ['/']).isPrefixOf right

def conflicts (a b : LockWaiter) : Bool :=
  if a.mode = .read ∧ b.mode = .read then false
  else a.paths.any fun aPath => b.paths.any fun bPath => pathsOverlap aPath bPath

variable (state : VolumeAccessCoordinator)

/-- Whether the loop of `drain` grants the waiter that it finds at the index. -/
def admits (waiter : LockWaiter) (index : Nat) : Bool :=
  let conflictsWithActive := state.active.any (conflicts waiter)
  let conflictsWithEarlierWaiter := (state.waiters.take index).any (conflicts waiter)
  !(conflictsWithActive || conflictsWithEarlierWaiter)

/-- The first waiter that a scan from the start grants. -/
def scan : Option (LockWaiter × Nat) := state.waiters.zipIdx.find? fun (waiter, index) => state.admits waiter index

def grant (waiter : LockWaiter) (index : Nat) : VolumeAccessCoordinator :=
  { state with waiters := state.waiters.eraseIdx index, active := state.active ++ [waiter] }

/-- The loop of `drain`, which starts over after each grant, with room for the given number of grants. -/
@[grind =]
def drainLoop : Nat → VolumeAccessCoordinator → VolumeAccessCoordinator
  | 0, state => state
  | grants + 1, state =>
    match state.scan with
    | none => state
    | some (waiter, index) => drainLoop grants (state.grant waiter index)

/-- Each grant takes a waiter, so there are no more grants than waiters. -/
def drain : VolumeAccessCoordinator := drainLoop state.waiters.length state

def acquire (mode : LockMode) (paths : List Text) : VolumeAccessCoordinator :=
  let waiter : LockWaiter := { id := state.requests, mode, paths := paths.map normalizeLockPath }
  { state with waiters := state.waiters ++ [waiter], requests := state.requests + 1 }.drain

/-- Calling the function that a granted request was resolved with. A request that was not
granted yet has none to call. -/
def release (id : Nat) : VolumeAccessCoordinator :=
  if id ∈ state.released then state
  else match state.active.find? fun waiter => waiter.id = id with
    | none => state
    | some waiter =>
      { state with released := id :: state.released, active := state.active.erase waiter }.drain

inductive Operation where
  | acquire (mode : LockMode) (paths : List Text)
  | release (id : Nat)
  deriving DecidableEq, Repr

def step (operation : Operation) : VolumeAccessCoordinator :=
  match operation with
  | .acquire mode paths => state.acquire mode paths
  | .release id => state.release id

/-! ## Overlap of paths -/

/-- One path is the other, lies inside it, or one of them is the whole volume. -/
def Overlap (a b : Text) : Prop :=
  a = everything ∨ b = everything ∨ fields '/' a <+: fields '/' b ∨ fields '/' b <+: fields '/' a

instance (a b : Text) : Decidable (Overlap a b) :=
  inferInstanceAs (Decidable (a = everything ∨ b = everything ∨ fields '/' a <+: fields '/' b ∨ fields '/' b <+: fields '/' a))

/-- A path as the lock stores it. -/
def Normalized (path : Text) : Prop := path = everything ∨ ∃ pieces, Separable '/' pieces ∧ path = absolute '/' pieces

theorem normalizeLockPath_eq (path : Text) :
    normalizeLockPath path = if path = everything then path else absolute '/' (fields '/' path) := by
  unfold normalizeLockPath
  split
  · rfl
  · exact if_neg (List.cons_ne_nil _ _)

theorem normalizeLockPath_normalized (path : Text) : Normalized (normalizeLockPath path) := by
  rw [normalizeLockPath_eq]
  split
  · rename_i whole
    exact .inl whole
  · exact .inr ⟨_, fields_separable path, rfl⟩

theorem absolute_ne_everything (pieces : List Text) : absolute '/' pieces ≠ everything := by
  intro same
  rw [absolute, everything, List.cons.injEq] at same
  exact absurd same.1 (by decide)

/-- Two requested paths overlap as they were given. -/
theorem overlap_normalizeLockPath (a b : Text) :
    Overlap (normalizeLockPath a) (normalizeLockPath b) ↔ Overlap a b := by
  have whole : ∀ path, normalizeLockPath path = everything ↔ path = everything := by
    intro path
    rw [normalizeLockPath_eq]
    split
    · rfl
    · rename_i partly
      exact ⟨fun same => absurd same (absolute_ne_everything _), fun same => absurd same partly⟩
  have pieces : ∀ path, path ≠ everything → fields '/' (normalizeLockPath path) = fields '/' path := by
    intro path partly
    rw [normalizeLockPath_eq, if_neg partly, fields_absolute (fields_separable path)]
  unfold Overlap
  rw [whole, whole]
  by_cases first : a = everything
  · simp [first]
  · by_cases second : b = everything
    · simp [second]
    · rw [pieces a first, pieces b second]

theorem overlap_symm {a b : Text} (overlap : Overlap a b) : Overlap b a := by
  rcases overlap with first | second | inside | outside
  · exact .inr (.inl first)
  · exact .inl second
  · exact .inr (.inr (.inr inside))
  · exact .inr (.inr (.inl outside))

/-- A stored path has no trailing separator to drop. -/
theorem withoutTrailing_absolute {pieces : List Text} (separable : Separable '/' pieces) :
    withoutTrailing (absolute '/' pieces) = absolute '/' pieces := by
  unfold withoutTrailing
  split
  · rename_i root
    exact root.symm
  · rename_i below
    apply trim_absolute separable
    rintro rfl
    exact below rfl

theorem pathsOverlap_iff {a b : Text} (first : Normalized a) (second : Normalized b) :
    pathsOverlap a b = true ↔ Overlap a b := by
  rcases first with rfl | ⟨left, leftSeparable, rfl⟩
  · simp [pathsOverlap, Overlap]
  · rcases second with rfl | ⟨right, rightSeparable, rfl⟩
    · simp [pathsOverlap, Overlap]
    · have root : ∀ {pieces : List Text}, Separable '/' pieces → (absolute '/' pieces = ['/'] ↔ pieces = []) := by
        intro pieces separable
        rw [absolute_eq_root_iff]
        refine ⟨fun same => same.resolve_right ?_, .inl⟩
        rintro rfl
        exact (separable [] (by simp)).1 rfl
      have same : absolute '/' left = absolute '/' right ↔ left = right :=
        ⟨absolute_injective leftSeparable rightSeparable, congrArg _⟩
      simp only [pathsOverlap, Overlap, absolute_ne_everything, or_self, if_false, false_or, Bool.or_eq_true,
        decide_eq_true_eq, withoutTrailing_absolute, leftSeparable, rightSeparable, fields_absolute, root,
        List.isPrefixOf_iff_prefix, same]
      by_cases leftRoot : left = []
      · simp [leftRoot]
      · by_cases rightRoot : right = []
        · simp [rightRoot]
        · rw [absolute_prefix_iff leftSeparable rightSeparable leftRoot,
            absolute_prefix_iff rightSeparable leftSeparable rightRoot]
          by_cases equal : left = right
          · simp [equal]
          · simp [equal, Ne.symm equal, leftRoot, rightRoot, or_comm]

end VolumeAccessCoordinator

end AiryFS
