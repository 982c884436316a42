import AiryFS.Transfer.Staging
import AiryFS.Transfer.RoundTrip

/-! An import below the root, as two renames in one directory and a removal. -/

set_option autoImplicit false

namespace AiryFS

open Foundation Attempt Relation

namespace TreeImport

open Volume

variable {prior before volume volume' : Volume} {above : List Text} {target staging backup name stagingName backupName : Text}
  {parentIno staged : Int} {chunkSize : Nat} {tree : PathTree} {existed : Bool}

/-- The staged directory has the name of the target, and what had it before is the backup. -/
structure Published (prior before volume : Volume) (parent staged : Int) (name stagingName backupName : Text) (existed : Bool) :
    Prop where
  same : ∀ other label, other ≠ parent → other ≤ prior.inodeSequence → volume.child other label = prior.child other label
  placed : volume.child parent name = some staged
  gone : volume.child parent stagingName = none
  backup : volume.child parent backupName = if existed then prior.child parent name else none
  kept : existed = true → ∃ old, prior.child parent name = some old ∧ volume.inode? old ≠ none
  carries : Carries (prior.inodeSequence < ·) before volume

/-- The staged directory is at the target. -/
structure Settled (prior before volume : Volume) (above : List Text) (parent staged : Int) (name stagingName : Text) : Prop where
  reached : AgentFS.walk volume ROOT_INO above = some parent
  placed : volume.child parent name = some staged
  gone : volume.child parent stagingName = none
  carries : Carries (prior.inodeSequence < ·) before volume

theorem Published.settled (published : Published prior before volume parentIno staged name stagingName backupName existed)
    (site : Site prior above parentIno stagingName backupName) : Settled prior before volume above parentIno staged name stagingName :=
  ⟨walk_to site.sound (fun other label apart bound _ => published.same other label apart bound) site.sound.rooted site.reached,
    published.placed, published.gone, published.carries⟩

theorem Settled.holds (settled : Settled prior before volume above parentIno staged name stagingName)
    (spelled : fields '/' target = above ++ [name]) (closed : before.Closed (prior.inodeSequence < ·))
    (new : prior.inodeSequence < staged) (lists : before.Lists chunkSize staged tree) : Archive.Holds volume chunkSize target tree := by
  refine ⟨staged, ?_, settled.carries.lists closed new lists⟩
  rw [AgentFS.resolvePath_eq, spelled, AgentFS.walk_append, settled.reached, Option.bind_some, walk_cons, settled.placed]
  rfl

/-- The three paths of a swap. -/
structure Paths (above : List Text) (name stagingName backupName target staging backup : Text) : Prop where
  target : fields '/' target = above ++ [name]
  staging : fields '/' staging = above ++ [stagingName]
  backup : fields '/' backup = above ++ [backupName]
  apartStaging : name ≠ stagingName
  apartBackup : name ≠ backupName

/-! ## The swap -/

section Swap

variable (site : Site prior above parentIno stagingName backupName) (paths : Paths above name stagingName backupName target staging backup)

include site paths

/-- The staging directory takes the place of nothing that is new. -/
theorem publishes_free (relists : Relists prior (prior.inodeSequence < ·) (relist prior.child parentIno stagingName (some staged)) volume)
    (renamed : AgentFS.rename volume staging target = .ok volume') :
    Published prior volume volume' parentIno staged name stagingName backupName false := by
  have known := site.known
  have same : ∀ other label, other ≠ parentIno → other ≤ prior.inodeSequence → volume.child other label = prior.child other label := by
    intro other label apart bound
    rw [relists.children other label (by omega), relist, if_neg fun here => apart here.1]
  have here : ∀ label, volume.child parentIno label = if label = stagingName then some staged else prior.child parentIno label := by
    intro label
    rw [relists.children _ _ (by omega), relist]
    simp
  obtain ⟨ino, found, _, moves⟩ := AgentFS.rename_moves renamed (site.found same paths.staging) (site.found same paths.target)
    fun both => paths.apartStaging both.2.symm
  rw [here, if_pos rfl, Option.some.injEq] at found
  subst found
  refine ⟨?_, ?_, ?_, ?_, fun held => (Bool.false_ne_true held).elim, ?_⟩
  · intro other label apart bound
    rw [moves.elsewhere apart, same other label apart bound]
  · rw [moves.children, if_pos ⟨rfl, rfl⟩]
  · rw [moves.children, if_neg fun both => paths.apartStaging both.2.symm, if_pos ⟨rfl, rfl⟩]
  · rw [moves.children, if_neg fun both => paths.apartBackup both.2.symm, if_neg fun both => site.apart both.2.symm, here,
      if_neg site.apart.symm, site.backup]
    rfl
  · refine (Carries.refl _ volume).moves moves (by omega) (by omega) ?_
    intro other taken
    rw [here, if_neg paths.apartStaging] at taken
    have bound := (site.sound.child_le taken).2
    omega

/-- With the target moved away first, either it is replaced or it comes back. -/
theorem publishes_over {moved : Volume} (relists : Relists prior (prior.inodeSequence < ·) (relist prior.child parentIno stagingName (some staged)) volume)
    (away : AgentFS.rename volume target backup = .ok moved) :
    (∀ volume', AgentFS.rename moved staging target = .ok volume' →
        Published prior volume volume' parentIno staged name stagingName backupName true) ∧
      Relists prior (prior.inodeSequence < ·) (relist prior.child parentIno stagingName (some staged))
        (settle moved (AgentFS.rename moved backup target)) ∧
      SameNode staged volume (settle moved (AgentFS.rename moved backup target)) := by
  have known := site.known
  have same : ∀ other label, other ≠ parentIno → other ≤ prior.inodeSequence → volume.child other label = prior.child other label := by
    intro other label apart bound
    rw [relists.children other label (by omega), relist, if_neg fun here => apart here.1]
  have here : ∀ label, volume.child parentIno label = if label = stagingName then some staged else prior.child parentIno label := by
    intro label
    rw [relists.children _ _ (by omega), relist]
    simp
  obtain ⟨old, found, stored, moves⟩ := AgentFS.rename_moves away (site.found same paths.target) (site.found same paths.backup)
    fun both => paths.apartBackup both.2
  rw [here, if_neg paths.apartStaging] at found
  have bound := (site.sound.child_le found).2
  have unused : volume.child parentIno backupName = none := by rw [here, if_neg site.apart.symm, site.backup]
  have still : ∀ ino, SameNode ino volume moved := fun ino => moves.nodes ino (by rw [unused]; simp)
  have moved_relists := relists.moves moves (by omega) (by omega) (by rw [relist, if_neg fun both => site.apart both.2.symm, site.backup])
  have moved_same : ∀ other label, other ≠ parentIno → other ≤ prior.inodeSequence → moved.child other label = prior.child other label := by
    intro other label apart bound
    rw [moves.elsewhere apart, same other label apart bound]
  have vacated : moved.child parentIno name = none := by
    rw [moves.children, if_neg fun both => paths.apartBackup both.2, if_pos ⟨rfl, rfl⟩]
  have held : moved.child parentIno backupName = some old := by rw [moves.children, if_pos ⟨rfl, rfl⟩]
  constructor
  · intro volume' renamed
    obtain ⟨ino, source, _, last⟩ := AgentFS.rename_moves renamed (site.found moved_same paths.staging) (site.found moved_same paths.target)
      fun both => paths.apartStaging both.2.symm
    rw [moves.children, if_neg fun both => site.apart both.2, if_neg fun both => paths.apartStaging both.2.symm, here, if_pos rfl,
      Option.some.injEq] at source
    subst source
    refine ⟨?_, ?_, ?_, ?_, ?_, ?_⟩
    · intro other label apart bound
      rw [last.elsewhere apart, moved_same other label apart bound]
    · rw [last.children, if_pos ⟨rfl, rfl⟩]
    · rw [last.children, if_neg fun both => paths.apartStaging both.2.symm, if_pos ⟨rfl, rfl⟩]
    · rw [last.children, if_neg fun both => paths.apartBackup both.2.symm, if_neg fun both => site.apart both.2.symm, held, if_pos rfl, found]
    · exact fun _ => ⟨old, found, ((still old).trans (last.nodes old (by rw [vacated]; simp))).present stored⟩
    · have first := (Carries.refl (prior.inodeSequence < ·) volume).moves moves (by omega) (by omega) (by rw [unused]; simp)
      exact first.moves last (by omega) (by omega) (by rw [vacated]; simp)
  · obtain ⟨volume', renamed⟩ := AgentFS.rename_returns (site.found moved_same paths.backup) (site.found moved_same paths.target) held
      ((still old).present stored) vacated (not_below (apart_siblings paths.backup paths.target paths.apartBackup.symm))
    obtain ⟨ino, source, _, back⟩ := AgentFS.rename_moves renamed (site.found moved_same paths.backup) (site.found moved_same paths.target)
      fun both => paths.apartBackup both.2.symm
    rw [held, Option.some.injEq] at source
    subst source
    rw [renamed]
    have returned := moved_relists.moves back (by omega) (by omega) (by simp [relist, paths.apartBackup])
    rw [relist_returned (by rw [relist, if_neg fun both => paths.apartStaging both.2, found])
      (by rw [relist, if_neg fun both => site.apart both.2.symm, site.backup])] at returned
    exact ⟨returned, (still staged).trans (back.nodes staged (by rw [vacated]; simp))⟩

/-- The swap is done, or only the staging directory is left to remove. -/
theorem swap_post {disk : Disk} {options : Options} {deps : Deps} (records : ∀ failure, deps.record ≠ some (.error failure))
    (relists : Relists prior (prior.inodeSequence < ·) (relist prior.child parentIno stagingName (some staged)) disk.volume)
    (stored : disk.volume.inode? staged ≠ none) :
    Post (swap target staging backup options deps) disk
      (fun existed disk' => Published prior disk.volume disk'.volume parentIno staged name stagingName backupName existed)
      (fun _ disk' => Relists prior (prior.inodeSequence < ·) (relist prior.child parentIno stagingName (some staged)) disk'.volume ∧
        disk'.volume.inode? staged ≠ none) := by
  unfold swap
  rw [post_bind, post_catch, post_bind]
  apply Disk.post_inspect
  · intro row found fault
    rw [post_pure, post_bind, post_lift]
    refine ⟨?_, fun _ _ => ⟨relists, stored⟩⟩
    intro _ _
    rw [if_pos rfl, post_bind]
    apply Disk.post_mutate
    · intro moved away fault
      obtain ⟨publishes, restores, still⟩ := publishes_over site paths relists away
      rw [post_bind, post_catch]
      apply Disk.post_mutate
      · intro volume' renamed fault
        rw [post_bind]
        exact post_recorded records (publishes volume' renamed)
      · intro failure fault
        rw [if_pos rfl, post_bind, Disk.post_undo, post_throw]
        exact ⟨restores, still.present stored⟩
    · exact fun _ _ => ⟨relists, stored⟩
  · intro failure fault
    rw [post_pure, post_bind, post_lift]
    refine ⟨?_, fun _ _ => ⟨relists, stored⟩⟩
    intro _ _
    rw [if_neg Bool.false_ne_true, post_bind, post_catch]
    apply Disk.post_mutate
    · intro volume' renamed fault
      rw [post_bind]
      exact post_recorded records (publishes_free site paths relists renamed)
    · intro failure fault
      exact ⟨relists, stored⟩

/-- What was there before goes with what is below it, and no directory on the way to it is. -/
theorem discards_backup (published : Published prior before volume parentIno staged name stagingName backupName true)
    (discarded : discard backup volume = .ok volume') :
    Settled prior before volume' above parentIno staged name stagingName ∧ volume'.child parentIno backupName = none := by
  have known := site.known
  obtain ⟨old, found, stored⟩ := published.kept rfl
  have bound := (site.sound.child_le found).2
  have held := published.backup
  rw [if_pos rfl, found] at held
  have outside : ∀ other, ReflTransGen prior.Climbs parentIno other → ¬ReflTransGen prior.Climbs other old := by
    intro other way below
    exact site.sound.acyclic parentIno (TransGen.tail' (way.trans below) (climbs_of_child found))
  have closed : volume.Closed fun other => other ≤ prior.inodeSequence ∧ ReflTransGen prior.Climbs other old := by
    rintro other label ino ⟨within, below⟩ listed
    have apart : other ≠ parentIno := by
      rintro rfl
      exact outside other .refl below
    rw [published.same other label apart within] at listed
    exact ⟨(site.sound.child_le listed).2, below.head (climbs_of_child listed)⟩
  obtain ⟨removed, ran, removes⟩ := AgentFS.rm_removes (site.found published.same paths.backup) held stored closed ⟨bound, .refl⟩
  unfold discard at discarded
  rw [ran, Except.ok.injEq] at discarded
  subst discarded
  have here : ∀ label, label ≠ backupName → removed.child parentIno label = volume.child parentIno label := by
    intro label different
    rw [removes.children parentIno label fun inside => outside parentIno .refl inside.2, if_neg fun both => different both.2]
  refine ⟨⟨?_, ?_, ?_, ?_⟩, ?_⟩
  · refine walk_to site.sound ?_ site.sound.rooted site.reached
    intro other label apart within way
    rw [removes.children other label fun inside => outside other way inside.2, if_neg fun both => apart both.1]
    exact published.same other label apart within
  · rw [here name paths.apartBackup]
    exact published.placed
  · rw [here stagingName site.apart]
    exact published.gone
  · exact published.carries.removes removes (fun ino later inside => by omega) (by omega)
  · rw [removes.children parentIno backupName fun inside => outside parentIno .refl inside.2, if_pos ⟨rfl, rfl⟩]

end Swap

/-! ## The import -/

/-- What an import that returns leaves. -/
structure Imported (chunkSize : Nat) (target staging backup : Text) (tree : PathTree) (disk : Disk) : Prop where
  holds : Archive.Holds disk.volume chunkSize target tree
  tidy : disk.abandoned = false →
    AgentFS.resolvePath disk.volume staging = none ∧ AgentFS.resolvePath disk.volume backup = none

/-- Where the directory is found, its entries are what their paths lead to. -/
theorem resolvePath_of_child {above : List Text} {path : Text} (spelled : fields '/' path = above ++ [name])
    (reached : AgentFS.walk volume ROOT_INO above = some parentIno) (absent : volume.child parentIno name = none) :
    AgentFS.resolvePath volume path = none := by
  rw [AgentFS.resolvePath_eq, spelled, AgentFS.walk_append, reached, Option.bind_some, walk_cons, absent]
  rfl

theorem importBelow_post {disk : Disk} {stream : Archive.Stream} {options : Options} {deps : Deps} (positive : 0 < chunkSize)
    (sound : disk.volume.Sound) (records : ∀ failure, deps.record ≠ some (.error failure))
    (unlisted : ∀ parent, disk.volume.child parent deps.stagingName = none ∧ disk.volume.child parent deps.backupName = none)
    (apart : deps.stagingName ≠ deps.backupName)
    (paths : Paths above name deps.stagingName deps.backupName target (siblingPath (parentOf target) deps.stagingName)
      (siblingPath (parentOf target) deps.backupName)) :
    Post (importBelow chunkSize target stream options deps) disk
      (fun _ disk' => stream.failure = none ∧ ∃ entries, Archive.contents stream.chunks.flatten = .ok entries ∧
        Imported chunkSize target (siblingPath (parentOf target) deps.stagingName) (siblingPath (parentOf target) deps.backupName)
          (PathTree.empty.plantAll entries) disk')
      (fun _ disk' => Restored disk.volume disk'.volume) := by
  have sited : ∀ parent, AgentFS.walk disk.volume ROOT_INO above = some parent →
      Site disk.volume above parent deps.stagingName deps.backupName := fun parent reached =>
    ⟨sound, reached, (unlisted parent).1, (unlisted parent).2, apart⟩
  unfold importBelow
  dsimp only
  rw [post_bind]
  refine (stage_post positive sound paths.staging sited).mono ?_ fun _ _ => id
  rintro summary before ⟨parent, made, staged, entries, site, filled⟩
  have fresh := filled.adds.fresh
  have new : disk.volume.inodeSequence < staged := by omega
  obtain ⟨place, growing⟩ := filled.growing
  have relists := Relists.filled site.sound site.known filled.adds growing
  have stored : before.volume.inode? staged ≠ none := by
    obtain ⟨row, found, _⟩ := filled.directory
    rw [found]
    simp
  rw [post_bind, post_catch]
  refine (swap_post site paths records relists stored).mono ?_ ?_
  · intro existed swapped published
    have settled := published.settled site
    have holds := fun {volume : Volume} (settled : Settled disk.volume before.volume volume above parent staged name deps.stagingName) =>
      settled.holds paths.target relists.closed new growing.lists
    cases existed with
    | false =>
      refine ⟨filled.complete, entries, filled.contents, holds settled, fun _ => ?_⟩
      exact ⟨resolvePath_of_child paths.staging settled.reached settled.gone,
        resolvePath_of_child paths.backup settled.reached published.backup⟩
    | true =>
      rw [if_pos rfl, post_bind]
      apply Disk.post_quietly
      · intro volume' discarded fault
        obtain ⟨settled, gone⟩ := discards_backup site paths published discarded
        refine ⟨filled.complete, entries, filled.contents, holds settled, fun _ => ?_⟩
        exact ⟨resolvePath_of_child paths.staging settled.reached settled.gone, resolvePath_of_child paths.backup settled.reached gone⟩
      · intro fault
        exact ⟨filled.complete, entries, filled.contents, holds settled, fun calm => by cases calm⟩
  · rintro failure swapped ⟨relists, stored⟩
    rw [post_bind, Disk.post_undo]
    exact site.discards paths.staging new relists stored

end TreeImport

end AiryFS
