import AiryFS.Transfer.SubtreeImport
import AiryFS.Transfer.RootImport
import AiryFS.Namespace.TreeSafety

/-! Imports are all or nothing, but for the removals that nobody waits for. -/

set_option autoImplicit false

namespace AiryFS

open Foundation Attempt Relation

/-! ## Names of an archive -/

namespace PathTree

variable {tree : PathTree} {above rest path place : List Text} {node : TreeNode}

theorem names_of_withDirectories (known : tree.withDirectories above rest path ≠ none) :
    tree path ≠ none ∨ ∀ name ∈ path, name ∈ above ∨ name ∈ rest := by
  induction rest generalizing tree above with
  | nil => exact .inl known
  | cons first rest ih =>
    unfold withDirectories at known
    dsimp only at known
    rcases ih known with earlier | spelled
    · split at earlier
      · exact .inl earlier
      · rw [Function.update_apply] at earlier
        split at earlier
        · rename_i here
          right
          intro name member
          rw [here, List.mem_append, List.mem_singleton] at member
          exact member.imp id fun same => by rw [same]; exact List.mem_cons_self
        · exact .inl earlier
    · right
      intro name member
      rcases spelled name member with front | back
      · rw [List.mem_append, List.mem_singleton] at front
        exact front.imp id fun same => by rw [same]; exact List.mem_cons_self
      · exact .inr (List.mem_cons_of_mem _ back)

theorem names_of_plant (known : tree.plant place node path ≠ none) : tree path ≠ none ∨ ∀ name ∈ path, name ∈ place := by
  by_cases here : path = place
  · rw [here]
    exact .inr fun _ member => member
  · unfold plant at known
    split at known
    · rw [Function.update_of_ne here] at known
      refine (names_of_withDirectories known).imp id ?_
      intro spelled name member
      exact List.mem_of_mem_dropLast ((spelled name member).resolve_left List.not_mem_nil)
    · rw [Function.update_of_ne here] at known
      exact .inl known

/-- What an archive holds is spelled with the names of its entries. -/
theorem names_of_plantAll {entries : List (Text × TreeNode)} (known : tree.plantAll entries path ≠ none) :
    tree path ≠ none ∨ ∃ entry ∈ entries, ∀ name ∈ path, name ∈ fields '/' entry.1 := by
  induction entries generalizing tree with
  | nil => exact .inl known
  | cons entry entries ih =>
    rcases ih known with planted | ⟨other, member, spelled⟩
    · rcases names_of_plant planted with earlier | spelled
      · exact .inl earlier
      · exact .inr ⟨entry, List.mem_cons_self, spelled⟩
    · exact .inr ⟨other, List.mem_cons_of_mem _ member, spelled⟩

end PathTree

/-- A path of the tree is in the directory. -/
def Volume.ListsAt (volume : Volume) (chunkSize : Nat) (base : Int) (tree : PathTree) (path : List Text) : Prop :=
  match tree path with
  | none => AgentFS.walk volume base path = none
  | some node => ∃ ino, AgentFS.walk volume base path = some ino ∧ volume.Stored chunkSize ino node

namespace TreeImport

open Volume

/-- The target holds the tree, but for what is below hidden names of it. -/
def HoldsApart (volume : Volume) (chunkSize : Nat) (hidden : Text → Prop) (target : Text) (tree : PathTree) : Prop :=
  ∃ base, AgentFS.resolvePath volume target = some base ∧
    ∀ path, (∀ name, path.head? = some name → ¬hidden name) → volume.ListsAt chunkSize base tree path

def stagingPath (deps : Deps) (target : Text) : Text := siblingPath (parentOf target) deps.stagingName

def backupPath (deps : Deps) (target : Text) : Text := siblingPath (parentOf target) deps.backupName

/-- No staging or backup entry is there. -/
def Gone (deps : Deps) (target : Text) (volume : Volume) : Prop :=
  AgentFS.resolvePath volume (stagingPath deps target) = none ∧ AgentFS.resolvePath volume (backupPath deps target) = none

/-- The names from `uuid` have never been used. -/
structure Deps.Fresh (deps : Deps) (volume : Volume) (target : Text) (body : Option Archive.Stream) : Prop where
  plain : '/' ∉ deps.stagingId ∧ '/' ∉ deps.backupId
  unspelled : deps.stagingName ∉ fields '/' target ∧ deps.backupName ∉ fields '/' target
  unlisted : ∀ parent, volume.child parent deps.stagingName = none ∧ volume.child parent deps.backupName = none
  unarchived : ∀ stream entries, body = some stream → Archive.contents stream.chunks.flatten = .ok entries → ∀ entry ∈ entries,
    deps.stagingName ∉ fields '/' entry.1 ∧ deps.backupName ∉ fields '/' entry.1

variable {deps : Deps} {volume : Volume} {target path : Text} {body : Option Archive.Stream} {chunkSize : Nat} {disk : Disk}
  {options : Options} {stream : Archive.Stream}

theorem stagingName_eq (deps : Deps) :
    deps.stagingName = ['.', 'a', 'i', 'r', 'y', 'f', 's', '-', 'i', 'm', 'p', 'o', 'r', 't', '-'] ++ deps.stagingId := rfl

theorem backupName_eq (deps : Deps) :
    deps.backupName = ['.', 'a', 'i', 'r', 'y', 'f', 's', '-', 'b', 'a', 'c', 'k', 'u', 'p', '-'] ++ deps.backupId := rfl

theorem Deps.apart (deps : Deps) : deps.stagingName ≠ deps.backupName := by
  rw [stagingName_eq, backupName_eq]
  simp

theorem Deps.Fresh.hides (fresh : deps.Fresh volume target body) : Separable '/' [deps.stagingName] ∧ Separable '/' [deps.backupName] := by
  have plain := fresh.plain
  rw [stagingName_eq, backupName_eq]
  simp [Separable, plain]

/-- The archive has neither of the hidden names. -/
theorem Deps.Fresh.absent (fresh : deps.Fresh volume target (some stream)) {entries : List (Text × TreeNode)}
    (held : Archive.contents stream.chunks.flatten = .ok entries) :
    PathTree.empty.plantAll entries [deps.stagingName] = none ∧ PathTree.empty.plantAll entries [deps.backupName] = none := by
  have missing : ∀ name, (∀ entry ∈ entries, name ∉ fields '/' entry.1) → PathTree.empty.plantAll entries [name] = none := by
    intro name unused
    by_contra present
    rcases PathTree.names_of_plantAll present with start | ⟨entry, member, spelled⟩
    · exact start rfl
    · exact unused entry member (spelled name (List.mem_singleton_self name))
  have unused := fresh.unarchived stream entries rfl held
  exact ⟨missing _ fun entry member => (unused entry member).1, missing _ fun entry member => (unused entry member).2⟩

/-! ## The root -/

/-- What an import that returns leaves. -/
structure Completed (deps : Deps) (chunkSize : Nat) (target : Text) (tree : PathTree) (disk : Disk) : Prop where
  holds : HoldsApart disk.volume chunkSize
    (fun name => target = ['/'] ∧ (name = deps.stagingName ∨ name = deps.backupName)) target tree
  tidy : disk.abandoned = false → Archive.Holds disk.volume chunkSize target tree ∧ Gone deps target disk.volume

section Root

variable {prior before : Volume} {stagingName backupName : Text} {staged backup : Int} {tree : PathTree} {place : List Text}

/-- Below a name that leads to a staged entry, the root lists the tree. -/
theorem Replaced.listsAt (prepared : Prepared prior before chunkSize stagingName backupName staged backup tree)
    (replaced : Replaced before chunkSize stagingName backupName staged volume)
    (leads : ∀ name, place.head? = some name → volume.child ROOT_INO name = before.child staged name) :
    volume.ListsAt chunkSize ROOT_INO tree place := by
  obtain ⟨made, _, adds, growing⟩ := prepared.filled
  unfold ListsAt
  cases place with
  | nil =>
    rw [prepared.rooted]
    exact ⟨ROOT_INO, rfl, replaced.directory⟩
  | cons name rest =>
    have same : AgentFS.walk volume ROOT_INO (name :: rest) = AgentFS.walk before staged (name :: rest) := by
      rw [walk_cons, walk_cons, leads name rfl]
      cases found : before.child staged name with
      | none => rfl
      | some next =>
        exact replaced.carries.walk_eq Prepared.under_closed ⟨name, trivial, [], by rw [walk_cons, found]; rfl⟩ rest
    have listed := growing.lists (name :: rest)
    rw [same]
    cases known : tree (name :: rest) with
    | none =>
      rw [known] at listed
      exact listed
    | some node =>
      rw [known] at listed
      obtain ⟨number, walked, stored⟩ := listed
      exact ⟨number, walked, (replaced.carries.nodes number ⟨name, trivial, rest, walked⟩).stored stored⟩

/-- The root holds the tree once the hidden directories are gone, and before that what is beside them. -/
theorem Replaced.completed {deps : Deps} (prepared : Prepared prior before chunkSize deps.stagingName deps.backupName staged backup tree)
    (replaced : Replaced before chunkSize deps.stagingName deps.backupName staged disk.volume)
    (tidy : disk.abandoned = false →
      disk.volume.child ROOT_INO deps.stagingName = none ∧ disk.volume.child ROOT_INO deps.backupName = none) :
    Completed deps chunkSize ['/'] tree disk := by
  refine ⟨⟨ROOT_INO, rfl, ?_⟩, ?_⟩
  · intro path apart
    refine replaced.listsAt prepared ?_
    intro name first
    have plain := apart name first
    exact replaced.root name (fun same => plain ⟨rfl, .inl same⟩) fun same => plain ⟨rfl, .inr same⟩
  · intro calm
    obtain ⟨staging, backup⟩ := tidy calm
    refine ⟨⟨ROOT_INO, rfl, ?_⟩, ?_, ?_⟩
    · intro path
      refine replaced.listsAt prepared ?_
      intro name first
      by_cases one : name = deps.stagingName
      · rw [one, staging, prepared.unstaged.1]
      · by_cases other : name = deps.backupName
        · rw [other, backup, prepared.unstaged.2]
        · exact replaced.root name one other
    · exact (resolvePath_rootPath disk.volume prepared.hides.1).trans staging
    · exact (resolvePath_rootPath disk.volume prepared.hides.2).trans backup

end Root

/-- The archive has taken the place of everything that was below the root. -/
def Landed (deps : Deps) (chunkSize : Nat) (stream : Archive.Stream) (options : Options) (prior : Volume) (disk : Disk) : Prop :=
  stream.failure = none ∧ (options.replace = true ∨ ∀ name, prior.child ROOT_INO name = none) ∧
    ∃ entries, Archive.contents stream.chunks.flatten = .ok entries ∧
      Completed deps chunkSize ['/'] (PathTree.empty.plantAll entries) disk

theorem importTreeRoot_post (positive : 0 < chunkSize) (sound : disk.volume.Sound)
    (fresh : deps.Fresh disk.volume ['/'] (some stream)) :
    Post (importTreeRoot chunkSize stream options deps) disk
      (fun _ disk' => Landed deps chunkSize stream options disk.volume disk')
      (fun failure disk' => Restored disk.volume disk'.volume ∨
        deps.record = some (.error failure) ∧ Landed deps chunkSize stream options disk.volume disk') := by
  have sited : ∀ parent, AgentFS.walk disk.volume ROOT_INO [] = some parent →
      Site disk.volume [] parent deps.stagingName deps.backupName := fun parent reached =>
    ⟨sound, reached, (fresh.unlisted parent).1, (fresh.unlisted parent).2, deps.apart⟩
  unfold importTreeRoot
  rw [post_bind]
  refine (stage_post positive sound (fields_rootPath fresh.hides.1) sited).mono ?_ fun _ _ restored => .inl restored
  rintro summary before ⟨parent, made, staged, entries, site, filled⟩
  have root : parent = ROOT_INO := (Option.some.inj site.reached).symm
  subst root
  obtain ⟨place, growing⟩ := filled.growing
  have prepared : Prepared disk.volume before.volume chunkSize deps.stagingName deps.backupName staged
      (before.volume.inodeSequence + 1) (PathTree.empty.plantAll entries) :=
    ⟨site, ⟨made, place, filled.adds, growing⟩, filled.directory, rfl, fresh.hides, fresh.absent filled.contents⟩
  rw [post_bind]
  refine (swapChildren_post prepared rfl (.filled site.sound site.known filled.adds growing)).mono ?_ fun _ _ restored => .inl restored
  rintro _ swapped ⟨replacing, staging, accepted⟩
  have finish : ∀ final : Disk, Replaced before.volume chunkSize deps.stagingName deps.backupName staged final.volume →
      (final.abandoned = false → final.volume.child ROOT_INO deps.stagingName = none ∧
        final.volume.child ROOT_INO deps.backupName = none) →
      Post (deps.recorded >>= fun _ => return summary) final
        (fun _ disk' => Landed deps chunkSize stream options disk.volume disk')
        (fun failure disk' => Restored disk.volume disk'.volume ∨
          deps.record = some (.error failure) ∧ Landed deps chunkSize stream options disk.volume disk') := by
    intro final replaced tidy
    have landed : Landed deps chunkSize stream options disk.volume final :=
      ⟨filled.complete, accepted, entries, filled.contents, replaced.completed prepared tidy⟩
    rw [post_bind]
    unfold Deps.recorded
    cases journal : deps.record with
    | none => exact landed
    | some outcome =>
      rw [post_lift]
      exact ⟨fun _ _ => landed, fun failure failed => .inr ⟨by rw [failed], landed⟩⟩
  rw [post_bind]
  apply Disk.post_quietly
  · intro volume' discarded fault
    obtain ⟨replaced, backup, same⟩ := replacing.discards prepared discarded
    exact finish _ replaced fun calm => ⟨same.trans (staging calm), backup⟩
  · exact fun fault => finish _ replacing.replaced fun calm => by cases calm

/-! ## Every import -/

theorem Imported.completed {tree : PathTree} (imported : Imported chunkSize target (stagingPath deps target) (backupPath deps target) tree disk) :
    Completed deps chunkSize target tree disk := by
  obtain ⟨base, located, lists⟩ := imported.holds
  exact ⟨⟨base, located, fun path _ => lists path⟩, fun calm => ⟨imported.holds, imported.tidy calm⟩⟩

/-- Where the parent of the target is spelled, nothing has the hidden names yet. -/
theorem Deps.Fresh.gone (fresh : deps.Fresh volume target body) (above : List Text)
    (parent : fields '/' (parentOf target) = above) : Gone deps target volume := by
  have absent : ∀ name, Separable '/' [name] → (∀ parent, volume.child parent name = none) →
      AgentFS.resolvePath volume (siblingPath (parentOf target) name) = none := by
    intro name valid missing
    rw [AgentFS.resolvePath_eq, fields_siblingPath parent valid, AgentFS.walk_append]
    cases AgentFS.walk volume ROOT_INO above with
    | none => rfl
    | some ino =>
      rw [Option.bind_some, walk_cons, missing ino]
      rfl
  exact ⟨absent _ fresh.hides.1 fun parent => (fresh.unlisted parent).1, absent _ fresh.hides.2 fun parent => (fresh.unlisted parent).2⟩

/-- A restored volume is what an import that rejects promises. -/
theorem Restored.rejected {prior : Volume} (restored : Restored prior volume) (sound : prior.Sound)
    (fresh : deps.Fresh prior target body) : Unchanged prior volume target ∧ Gone deps target volume := by
  have gone := fresh.gone _ rfl
  exact ⟨restored.unchanged sound target, restored.absent sound gone.1, restored.absent sound gone.2⟩

/-- Every import would leave all or nothing, wherever one call fails. -/
def AllOrNothing : Prop :=
  ∀ (chunkSize : Nat) (path : Text) (body : Option Archive.Stream) (options : Options) (deps : Deps) (disk : Disk), 0 < chunkSize →
    disk.volume.Proper → deps.Fresh disk.volume (normalizeTreePath path) body →
    Post (importTree chunkSize path body options deps) disk
      (fun _ disk' => ∃ stream entries, body = some stream ∧ Archive.contents stream.chunks.flatten = .ok entries ∧
        Archive.Holds disk'.volume chunkSize (normalizeTreePath path) (PathTree.empty.plantAll entries) ∧
        Gone deps (normalizeTreePath path) disk'.volume)
      (fun _ disk' => Unchanged disk.volume disk'.volume (normalizeTreePath path) ∧ Gone deps (normalizeTreePath path) disk'.volume)

/-- The archive of an empty directory. -/
def emptyArchive : Archive.Stream where
  chunks := [Archive.MAGIC, [0, 0, 0, 16] ++ Archive.headerBytes ⟨.directory, [], none, none⟩, Archive.endMarker]
  failure := none

def someDeps : Deps := ⟨['1'], ['2'], none⟩

theorem proper_fresh : (Volume.fresh 0).Proper where
  tree := (Volume.TreeInvariant.fresh 0).tree
  numbered := Archive.target_fresh.numbered
  names := fun _ member => absurd member List.not_mem_nil

theorem contents_emptyArchive : (Archive.contents emptyArchive.chunks.flatten).toOption.map (List.map Prod.fst) = some [[]] := by
  decide +kernel

theorem fresh_someDeps : someDeps.Fresh (Volume.fresh 0) ['/'] (some emptyArchive) where
  plain := by decide
  unspelled := by decide
  unlisted := fun _ => ⟨rfl, rfl⟩
  unarchived := by
    intro stream entries same held
    have names := contents_emptyArchive
    rw [Option.some.inj same, held] at names
    have single : entries.map Prod.fst = [[]] := Option.some.inj names
    intro entry member
    have named : entry.1 ∈ entries.map Prod.fst := List.mem_map_of_mem member
    rw [single, List.mem_singleton] at named
    rw [named]
    exact ⟨List.not_mem_nil, List.not_mem_nil⟩

/-- An import that resolves and leaves the backup directory is not all or nothing. -/
theorem AllOrNothing.leaves_nothing (always : AllOrNothing) (proper : disk.volume.Proper) (root : normalizeTreePath path = ['/'])
    (fresh : deps.Fresh disk.volume ['/'] body) :
    Returns (importTree 4096 path body options deps) disk
      (fun _ disk' => (AgentFS.resolvePath disk'.volume (backupPath deps ['/'])).isSome) = false := by
  rw [Bool.eq_false_iff]
  intro returns
  have post := always 4096 path body options deps disk (by decide) proper (by rw [root]; exact fresh)
  obtain ⟨_, disk', left, _, _, _, _, _, gone⟩ := post.of_returns returns
  rw [root] at gone
  rw [gone.2] at left
  cases left

end TreeImport

end AiryFS
