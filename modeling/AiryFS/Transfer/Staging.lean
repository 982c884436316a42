import AiryFS.Transfer.Swapping

/-! An import before its swap: the hidden directory is filled, or gone again. -/

set_option autoImplicit false

namespace AiryFS

open Foundation Attempt Relation

/-! ## Calls whose failure is swallowed -/

namespace Disk

variable {disk : Disk} {operation : Volume → Except Failure Volume} {returned : Unit → Disk → Prop} {thrown : Failure → Disk → Prop}

theorem post_undo : Post (undo operation) disk returned thrown ↔
    returned () { disk with volume := settle disk.volume (operation disk.volume) } := Iff.rfl

theorem post_quietly (returns : ∀ volume', operation disk.volume = .ok volume' → ∀ fault, returned () { disk with volume := volume', fault })
    (fails : ∀ fault, returned () { disk with fault, abandoned := true }) : Post (quietly operation) disk returned thrown :=
  post_catch.mpr (post_mutate returns fun _ fault => fails fault)

end Disk

namespace TreeImport

open Volume

/-! ## Paths -/

variable {above : List Text} {path parent name other : Text}

theorem fields_siblingPath (spelled : fields '/' parent = above) (valid : Separable '/' [name]) :
    fields '/' (siblingPath parent name) = above ++ [name] := by
  have single : fields '/' name = [name] := by
    have joined := fields_intercalate valid
    simpa using joined
  unfold siblingPath
  rw [fields_append_sep, single]
  split
  · rename_i root
    rw [← spelled, root, fields_cons_sep]
  · rw [spelled]

theorem rdropWhile_name (front : Text) (unseparated : '/' ∉ name) :
    (front ++ '/' :: name).rdropWhile (· != '/') = front ++ ['/'] := by
  induction name using List.reverseRecOn with
  | nil => exact List.rdropWhile_concat_neg _ _ _ (by simp)
  | append_singleton name last ih =>
    rw [List.mem_append, not_or, List.mem_singleton] at unseparated
    rw [← List.cons_append, ← List.append_assoc, List.rdropWhile_concat_pos _ _ _ (by simp [Ne.symm unseparated.2])]
    exact ih unseparated.1

/-- A target below the root is a name in its parent. -/
theorem fields_normalizeTreePath (below : normalizeTreePath path ≠ ['/']) :
    ∃ above name, fields '/' (normalizeTreePath path) = above ++ [name] ∧
      fields '/' (parentOf (normalizeTreePath path)) = above ∧ Separable '/' [name] := by
  have separable := @fields_separable Char _ '/' path
  obtain ⟨above, name, spelled⟩ | empty := (List.eq_nil_or_concat (fields '/' path)).symm
  · have whole : fields '/' (normalizeTreePath path) = above ++ [name] := by
      rw [normalizeTreePath, fields_absolute separable, spelled, List.concat_eq_append]
    rw [spelled, List.concat_eq_append] at separable
    have front : Separable '/' above := fun piece member => separable piece (List.mem_append_left _ member)
    have last := separable name (by simp)
    refine ⟨above, name, whole, ?_, by simpa [Separable] using last⟩
    have shape : normalizeTreePath path = (if above = [] then [] else absolute '/' above) ++ '/' :: name := by
      rw [normalizeTreePath, spelled, List.concat_eq_append]
      split
      · rename_i top
        rw [top]
        simp [absolute]
      · rename_i started
        rw [absolute_append started (by simp)]
        simp [absolute]
    have cut : ((normalizeTreePath path).rdropWhile (· != '/')).dropLast = if above = [] then [] else absolute '/' above := by
      rw [shape, rdropWhile_name _ last.2, List.dropLast_concat]
    unfold parentOf
    dsimp only
    rw [cut]
    split
    · rename_i top
      rw [if_pos rfl, top]
      rfl
    · rw [if_neg (by simp [absolute]), fields_absolute front]
  · refine absurd ?_ below
    rw [normalizeTreePath, empty]
    rfl

/-- A rename leads into what is renamed only if the one path is an extension of the other. -/
theorem not_below {oldPath newPath : Text} (apart : ¬fields '/' oldPath <+: fields '/' newPath) :
    (AgentFS.normalizePath oldPath ++ ['/']).isPrefixOf (AgentFS.normalizePath newPath) = false := by
  rw [Bool.eq_false_iff]
  intro below
  obtain ⟨rest, spelled⟩ := List.isPrefixOf_iff_prefix.mp below
  refine apart ⟨fields '/' rest, ?_⟩
  rw [← AgentFS.fields_normalizePath newPath, ← spelled, List.append_assoc, List.singleton_append, fields_append_sep,
    AgentFS.fields_normalizePath]

theorem apart_siblings {oldPath newPath oldName newName : Text} (old : fields '/' oldPath = above ++ [oldName])
    (new : fields '/' newPath = above ++ [newName]) (apart : oldName ≠ newName) : ¬fields '/' oldPath <+: fields '/' newPath := by
  rintro ⟨rest, same⟩
  rw [old, new, List.append_assoc, List.append_cancel_left_eq, List.singleton_append, List.cons.injEq] at same
  exact apart same.1

theorem post_recorded {deps : Deps} {disk : Disk} {returned : Unit → Disk → Prop} {thrown : Failure → Disk → Prop}
    (records : ∀ failure, deps.record ≠ some (.error failure)) (done : returned () disk) : Post deps.recorded disk returned thrown := by
  unfold Deps.recorded
  split
  · exact done
  · rename_i outcome known
    rw [post_lift]
    refine ⟨fun _ _ => done, ?_⟩
    intro failure failed
    rw [failed] at known
    exact absurd known (records failure)

/-! ## The hidden directory -/

/-- The volume is as it was. -/
def Restored (prior volume : Volume) : Prop := Relists prior (prior.inodeSequence < ·) prior.child volume

/-- A directory, and two names that it does not list. -/
structure Site (prior : Volume) (above : List Text) (parent : Int) (stagingName backupName : Text) : Prop where
  sound : prior.Sound
  reached : AgentFS.walk prior ROOT_INO above = some parent
  staging : prior.child parent stagingName = none
  backup : prior.child parent backupName = none
  apart : stagingName ≠ backupName

variable {prior volume made : Volume} {parentIno staged : Int} {stagingName backupName : Text} {chunkSize : Nat} {tree : PathTree}

theorem Restored.refl (sound : prior.Sound) : Restored prior prior := by
  refine ⟨sound.numbered, sound.rooted, ?_, fun _ _ _ => rfl, fun ino _ => .refl ino prior⟩
  intro other label number new found
  have bound := (sound.child_le found).1
  omega

theorem Restored.unchanged (restored : Restored prior volume) (sound : prior.Sound) (path : Text) : Unchanged prior volume path :=
  Relists.unchanged restored sound (fun _ later => later) path

/-- What was not there is not there. -/
theorem Restored.absent (restored : Restored prior volume) (sound : prior.Sound) (missing : AgentFS.resolvePath prior path = none) :
    AgentFS.resolvePath volume path = none := by
  rw [AgentFS.resolvePath_eq] at missing ⊢
  rw [Relists.walk_eq restored sound (fun _ later => later) sound.rooted]
  exact missing

/-- An entry of the old part that leads into the new part goes, with everything in it. -/
theorem discards_entry {new : Int → Prop} {view : Int → Text → Option Int} (relists : Relists prior new view volume)
    (later : ∀ ino, new ino → prior.inodeSequence < ino) (located : AgentFS.resolveParent volume path = some (parentIno, name))
    (old : ¬new parentIno) (listed : view parentIno name = some staged) (made : new staged) (stored : volume.inode? staged ≠ none) :
    Relists prior new (relist view parentIno name none) (settle volume (discard path volume)) ∧
      ∀ ino, ¬new ino → SameNode ino volume (settle volume (discard path volume)) := by
  have entry : volume.child parentIno name = some staged := by rw [relists.children _ _ old, listed]
  obtain ⟨volume', removed, removes⟩ := AgentFS.rm_removes located entry stored relists.closed made
  unfold discard
  rw [removed]
  exact ⟨relists.removes removes later fun _ within => within, removes.nodes⟩

namespace Site

variable (site : Site prior above parentIno stagingName backupName)

include site

theorem known : parentIno ≤ prior.inodeSequence := site.sound.numbered.walk_le site.sound.rooted site.reached

/-- Whatever the directory itself lists, it is found where it was. -/
theorem found (same : ∀ other label, other ≠ parentIno → other ≤ prior.inodeSequence → volume.child other label = prior.child other label)
    (spelled : fields '/' path = above ++ [name]) : AgentFS.resolveParent volume path = some (parentIno, name) := by
  refine AgentFS.resolveParent_eq_some.mpr ⟨above, spelled, ?_⟩
  exact walk_to site.sound (fun other label apart bound _ => same other label apart bound) site.sound.rooted site.reached

/-- The staging directory goes, with everything in it. -/
theorem discards (spelled : fields '/' path = above ++ [stagingName]) (new : prior.inodeSequence < staged)
    (relists : Relists prior (prior.inodeSequence < ·) (relist prior.child parentIno stagingName (some staged)) volume)
    (stored : volume.inode? staged ≠ none) : Restored prior (settle volume (discard path volume)) := by
  have known := site.known
  have located : AgentFS.resolveParent volume path = some (parentIno, stagingName) := by
    refine site.found ?_ spelled
    intro other label apart bound
    rw [relists.children other label (by omega), relist, if_neg (by rintro ⟨rfl, _⟩; exact apart rfl)]
  refine (discards_entry relists (fun _ later => later) located (by omega) (by rw [relist, if_pos ⟨rfl, rfl⟩]) new stored).1.congr ?_
  intro other label _
  unfold relist
  split
  · rename_i here
    rw [here.1, here.2, site.staging]
  · rfl

end Site

/-! ## Filling it -/

/-- Everything of the archive is in the new directory. -/
structure Filled (prior : Volume) (chunkSize : Nat) (parent : Int) (name : Text) (stream : Archive.Stream) (made volume : Volume)
    (staged : Int) (entries : List (Text × TreeNode)) : Prop where
  complete : stream.failure = none
  contents : Archive.contents stream.chunks.flatten = .ok entries
  adds : Adds staged parent name prior made
  directory : volume.Stored chunkSize staged .directory
  growing : ∃ place, Growing made chunkSize place staged volume (PathTree.empty.plantAll entries)

/-- A directory that has just been made is empty. -/
theorem Site.initial (site : Site prior above parentIno stagingName backupName) (spelled : fields '/' path = above ++ [stagingName])
    (adds : Adds staged parentIno stagingName prior made) (stored : made.Stored chunkSize staged .directory) :
    Growing made chunkSize (fields '/' path) staged made PathTree.empty := by
  have fresh := adds.fresh
  refine .initial (adds.numbered site.sound.numbered site.known) ?_ (by rw [adds.sequence]) stored ?_
  · have front := walk_of_more (fun _ _ _ => adds.dentry?_of_some) site.reached
    rw [spelled, AgentFS.walk_append, front, Option.bind_some, walk_cons, adds.child, if_pos ⟨rfl, rfl⟩]
    rfl
  · unfold hasChildren
    rw [List.any_eq_false]
    intro entry listed
    have known := site.known
    rw [decide_eq_true_eq]
    rw [adds.entries, List.mem_append, List.mem_singleton] at listed
    rcases listed with old | rfl
    · have bound := (site.sound.numbered.entries entry old).2
      omega
    · dsimp only
      omega

theorem stage_post {disk : Disk} {stream : Archive.Stream} (positive : 0 < chunkSize) (sound : disk.volume.Sound)
    (spelled : fields '/' path = above ++ [stagingName])
    (sited : ∀ parent, AgentFS.walk disk.volume ROOT_INO above = some parent → Site disk.volume above parent stagingName backupName) :
    Post (stage chunkSize path stream) disk
      (fun _ disk' => ∃ parent made staged entries, Site disk.volume above parent stagingName backupName ∧
        Filled disk.volume chunkSize parent stagingName stream made disk'.volume staged entries)
      (fun _ disk' => Restored disk.volume disk'.volume) := by
  unfold stage
  rw [post_bind, post_catch]
  apply Disk.post_mutate
  · intro volume' created fault
    obtain ⟨parent, name, staged, located, adds, stored⟩ := @AgentFS.mkdir_adds _ _ chunkSize _ created
    obtain ⟨parts, same, walked⟩ := AgentFS.resolveParent_eq_some.mp located
    rw [spelled] at same
    obtain ⟨rfl, last⟩ := List.append_inj' same rfl
    rw [← List.singleton_inj.mp last] at adds
    have site := sited parent walked
    have growing := site.initial spelled adds stored
    rw [post_catch]
    refine (@Archive.extractTree_post chunkSize staged { disk with volume := volume', fault } positive path stream growing).mono ?_ ?_
    · rintro _ disk' ⟨complete, entries, contents, grown⟩
      exact ⟨parent, volume', staged, entries, site, complete, contents, adds, grown.directory stored, _, grown⟩
    · rintro failure disk' ⟨tree, grown⟩
      obtain ⟨row, found, _⟩ := grown.directory stored
      rw [post_bind, Disk.post_undo, post_throw]
      have fresh := adds.fresh
      exact site.discards spelled (by omega) (.filled sound site.known adds grown) (by rw [found]; simp)
  · intro failure fault
    exact .refl sound

end TreeImport

end AiryFS
