import AiryFS.Storage.Statements
import AiryFS.Foundation.Separated

/-! Path resolution of the direct adapter, and the worker's own normalization.

The adapter reads a path as its nonempty segments. Its resolution follows directory
entries from the root and never looks at the mode of what it passes through. The worker
resolves `.` and `..` before it hands a path on.
-/

set_option autoImplicit false

namespace AiryFS

open Foundation

namespace Auth

/-- One segment of the loop of `normalizePath`. -/
@[grind =]
def pushSegment (segments : List Text) (raw : Text) : List Text :=
  if raw = [] ∨ raw = ['.'] then segments
  else if raw = ['.', '.'] then segments.dropLast
  else segments ++ [raw]

def segments (path : Text) : List Text := (path.splitOn '/').foldl pushSegment []

def normalizePath (path : Text) : Text := absolute '/' (segments path)

theorem pushSegment_separable {segments : List Text} {raw : Text} (separable : Separable '/' segments)
    (piece : '/' ∉ raw) : Separable '/' (pushSegment segments raw) := by
  unfold pushSegment
  split
  · exact separable
  · rename_i kept
    split
    · exact fun name member => separable name (List.mem_of_mem_dropLast member)
    · intro name member
      rcases List.mem_append.mp member with earlier | last
      · exact separable name earlier
      · rw [List.mem_singleton.mp last]
        exact ⟨fun empty => kept (.inl empty), piece⟩

theorem segments_separable (path : Text) : Separable '/' (segments path) := by
  unfold segments
  -- Every piece of the split is free of separators, whatever was collected before it.
  suffices collected : ∀ pieces : List Text, (∀ piece ∈ pieces, '/' ∉ piece) → ∀ before,
      Separable '/' before → Separable '/' (pieces.foldl pushSegment before) from
    collected _ (fun _ member => mem_of_mem_splitOn member) [] (fun _ member => by cases member)
  intro pieces
  induction pieces with
  | nil => exact fun _ _ separable => separable
  | cons piece rest ih =>
    intro unseparated before separable
    apply ih (fun other member => unseparated other (List.mem_cons_of_mem _ member))
    exact pushSegment_separable separable (unseparated piece List.mem_cons_self)

@[simp] theorem fields_normalizePath (path : Text) : fields '/' (normalizePath path) = segments path :=
  fields_absolute (segments_separable path)

/-- A segment is a piece of the path that stands for itself. -/
theorem mem_segments {path name : Text} (member : name ∈ segments path) :
    name ∈ path.splitOn '/' ∧ ¬(name = [] ∨ name = ['.']) ∧ name ≠ ['.', '.'] := by
  unfold segments at member
  suffices collected : ∀ pieces before : List Text, name ∈ pieces.foldl pushSegment before →
      name ∈ before ∨ name ∈ pieces ∧ ¬(name = [] ∨ name = ['.']) ∧ name ≠ ['.', '.'] from
    (collected _ [] member).resolve_left List.not_mem_nil
  intro pieces
  induction pieces with
  | nil => exact fun _ listed => .inl listed
  | cons piece rest ih =>
    intro before listed
    rcases ih _ listed with pushed | ⟨later, own⟩
    · unfold pushSegment at pushed
      split at pushed
      · exact .inl pushed
      · rename_i kept
        split at pushed
        · exact .inl (List.mem_of_mem_dropLast pushed)
        · rename_i up
          rcases List.mem_append.mp pushed with earlier | last
          · exact .inl earlier
          · rw [List.mem_singleton.mp last]
            exact .inr ⟨List.mem_cons_self, kept, up⟩
    · exact .inr ⟨List.mem_cons_of_mem _ later, own⟩

/-- Plain segments are pushed one after the other. -/
theorem foldl_pushSegment {pieces : List Text} (before : List Text)
    (plain : ∀ piece ∈ pieces, piece = [] ∨ piece ≠ ['.'] ∧ piece ≠ ['.', '.']) :
    pieces.foldl pushSegment before = before ++ pieces.filter fun piece => !piece.isEmpty := by
  induction pieces generalizing before with
  | nil => exact (List.append_nil before).symm
  | cons piece pieces ih =>
    rw [List.foldl_cons, ih _ fun other member => plain other (List.mem_cons_of_mem _ member)]
    by_cases empty : piece = []
    · simp [empty, pushSegment]
    · obtain ⟨dot, dots⟩ := (plain piece List.mem_cons_self).resolve_left empty
      simp [empty, dot, dots, pushSegment]

/-- Nothing that normalization produces is normalized away. -/
theorem normalizePath_idem (path : Text) : normalizePath (normalizePath path) = normalizePath path := by
  have pieces : segments (normalizePath path) = fields '/' (normalizePath path) := by
    refine (foldl_pushSegment [] ?_).trans (List.nil_append _)
    intro name split
    by_cases empty : name = []
    · exact .inl empty
    · right
      have member : name ∈ segments path := by
        rw [← fields_normalizePath]
        exact List.mem_filter.mpr ⟨split, by simpa using empty⟩
      exact ⟨fun dot => (mem_segments member).2.1 (.inr dot), (mem_segments member).2.2⟩
  rw [normalizePath, pieces, fields_normalizePath, ← normalizePath]

/-- Normalization brings in no character but the slash. -/
theorem mem_normalizePath {path : Text} {character : Char} (member : character ∈ normalizePath path) :
    character = '/' ∨ character ∈ path := by
  rcases mem_absolute member with slash | ⟨name, listed, inside⟩
  · exact .inl slash
  · exact .inr (mem_of_mem_piece (mem_segments listed).1 inside)

end Auth

namespace AgentFS

/-- `path.replace(/\/+$/, '') || '/'`, made absolute. -/
def normalizePath (path : Text) : Text :=
  let trimmed := path.rdropWhile (· == '/')
  let normalized := if trimmed = [] then ['/'] else trimmed
  if normalized.head? = some '/' then normalized else '/' :: normalized

def splitPath (path : Text) : List Text :=
  let normalized := normalizePath path
  if normalized = ['/'] then [] else fields '/' normalized

/-- The loop of `resolvePath`. -/
@[grind =]
def walk (volume : Volume) : Int → List Text → Option Int
  | currentIno, [] => some currentIno
  | currentIno, name :: parts =>
    match volume.dentry? currentIno name with
    | none => none
    | some row => walk volume row.ino parts

def resolvePath (volume : Volume) (path : Text) : Option Int :=
  let normalized := normalizePath path
  if normalized = ['/'] then some ROOT_INO else walk volume ROOT_INO (splitPath normalized)

def resolveParent (volume : Volume) (path : Text) : Option (Int × Text) :=
  let normalized := normalizePath path
  if normalized = ['/'] then none
  else
    let parts := splitPath normalized
    match parts.getLast? with
    -- Only the root has no parts.
    | none => none
    | some name =>
      let parentPath := if parts.length = 1 then ['/'] else '/' :: ['/'].intercalate parts.dropLast
      match resolvePath volume parentPath with
      | none => none
      | some parentIno => some (parentIno, name)

def resolvePathOrThrow (volume : Volume) (path : Text) (syscall : String) : Except Failure (Text × Int) := do
  let normalizedPath := normalizePath path
  let ino ← required (resolvePath volume normalizedPath)
    (createFsError .ENOENT syscall normalizedPath "no such file or directory")
  return (normalizedPath, ino)

/-! ## Paths as segments -/

@[simp] theorem fields_normalizePath (path : Text) : fields '/' (normalizePath path) = fields '/' path := by
  unfold normalizePath
  rw [← @fields_trim Char _ '/' path]
  generalize path.rdropWhile (· == '/') = trimmed
  dsimp only
  by_cases blank : trimmed = []
  · subst blank
    simp
  · rw [if_neg blank]
    split
    · rfl
    · rw [fields_cons_sep]

theorem splitPath_eq (path : Text) : splitPath path = fields '/' path := by
  unfold splitPath
  dsimp only
  split
  · rename_i root
    rw [← fields_normalizePath, root]
    simp
  · rw [fields_normalizePath]

/-- A walk looks at nothing but the entries. -/
theorem walk_congr {first second : Volume} (same : first.dentry = second.dentry) : walk first = walk second := by
  funext start parts
  induction parts generalizing start with
  | nil => rfl
  | cons name parts ih =>
    rw [walk, walk, Volume.dentry?, Volume.dentry?, same]
    cases second.dentry.find? (start, name) with
    | none => rfl
    | some row => exact ih row.ino

theorem resolvePath_eq (volume : Volume) (path : Text) :
    resolvePath volume path = walk volume ROOT_INO (fields '/' path) := by
  unfold resolvePath
  dsimp only
  split
  · rename_i root
    rw [← fields_normalizePath, root]
    simp [walk]
  · rw [splitPath_eq, fields_normalizePath]

@[simp] theorem resolvePath_normalizePath (volume : Volume) (path : Text) :
    resolvePath volume (normalizePath path) = resolvePath volume path := by
  rw [resolvePath_eq, resolvePath_eq, fields_normalizePath]

theorem walk_append (volume : Volume) (start : Int) (first second : List Text) :
    walk volume start (first ++ second) = (walk volume start first).bind fun ino => walk volume ino second := by
  induction first generalizing start with
  | nil => rfl
  | cons name rest ih =>
    simp only [List.cons_append, walk]
    cases volume.dentry? start name with
    | none => rfl
    | some row => exact ih row.ino

theorem walk_single (volume : Volume) (ino : Int) (name : Text) :
    walk volume ino [name] = (volume.dentry? ino name).map (·.ino) := by
  unfold walk
  cases volume.dentry? ino name <;> rfl

/-- The parent of a path is what its segments but the last lead to. -/
theorem resolveParent_eq_some {volume : Volume} {path : Text} {parentIno : Int} {name : Text} :
    resolveParent volume path = some (parentIno, name) ↔
      ∃ parts, fields '/' path = parts ++ [name] ∧ walk volume ROOT_INO parts = some parentIno := by
  have pieces : fields '/' (normalizePath path) = fields '/' path := fields_normalizePath path
  unfold resolveParent
  dsimp only
  split
  · rename_i root
    rw [root] at pieces
    rw [← pieces]
    simp
  · rw [splitPath_eq, pieces]
    rcases List.eq_nil_or_concat (fields '/' path) with empty | ⟨parts, last, spelled⟩
    · rw [empty]
      simp
    · have separable : Separable '/' parts := by
        intro piece member
        refine fields_separable path piece ?_
        rw [spelled]
        simp [member]
      have parent : resolvePath volume
          (if (parts ++ [last]).length = 1 then ['/'] else '/' :: ['/'].intercalate parts) =
            walk volume ROOT_INO parts := by
        rw [resolvePath_eq]
        congr 1
        split
        · rename_i single
          have none : parts = [] := by simpa using single
          simp [none]
        · exact fields_absolute separable
      rw [List.concat_eq_append] at spelled
      rw [spelled, List.getLast?_concat, List.dropLast_concat]
      dsimp only
      rw [parent]
      cases reached : walk volume ROOT_INO parts with
      | none =>
        simp only [reduceCtorEq, false_iff]
        rintro ⟨other, same, found⟩
        obtain ⟨rfl, -⟩ := List.append_inj' same rfl
        rw [reached] at found
        cases found
      | some ino =>
        simp only [Option.some.injEq, Prod.mk.injEq]
        constructor
        · rintro ⟨rfl, rfl⟩
          exact ⟨parts, rfl, reached⟩
        · rintro ⟨other, same, found⟩
          obtain ⟨rfl, named⟩ := List.append_inj' same rfl
          rw [reached, Option.some.injEq] at found
          exact ⟨found, List.singleton_inj.mp named⟩

/-- A path resolves to what its own entry in the parent names. -/
theorem resolvePath_of_parent {volume : Volume} {path : Text} {parentIno : Int} {name : Text}
    (parent : resolveParent volume path = some (parentIno, name)) :
    resolvePath volume path = (volume.dentry? parentIno name).map (·.ino) := by
  obtain ⟨parts, spelled, reached⟩ := resolveParent_eq_some.mp parent
  rw [resolvePath_eq, spelled, walk_append, reached, Option.bind_some, walk_single]

@[simp] theorem resolveParent_normalizePath (volume : Volume) (path : Text) :
    resolveParent volume (normalizePath path) = resolveParent volume path := by
  apply Option.ext
  rintro ⟨parentIno, name⟩
  rw [resolveParent_eq_some, resolveParent_eq_some, fields_normalizePath]

theorem resolvePathOrThrow_of_resolved {volume : Volume} {path : Text} {ino : Int}
    (resolved : resolvePath volume path = some ino) (syscall : String) :
    resolvePathOrThrow volume path syscall = .ok (normalizePath path, ino) := by
  unfold resolvePathOrThrow
  dsimp only
  rw [resolvePath_normalizePath, resolved]
  rfl

theorem resolvePathOrThrow_ok {volume : Volume} {path normalizedPath : Text} {syscall : String} {ino : Int}
    (resolved : resolvePathOrThrow volume path syscall = .ok (normalizedPath, ino)) :
    normalizedPath = normalizePath path ∧ resolvePath volume path = some ino := by
  obtain ⟨found, reached, returned⟩ := bind_eq_ok.mp resolved
  rw [pure_eq_ok, Prod.mk.injEq] at returned
  rw [required_eq_ok, resolvePath_normalizePath] at reached
  exact ⟨returned.1.symm, by rw [reached, returned.2]⟩

end AgentFS

end AiryFS
