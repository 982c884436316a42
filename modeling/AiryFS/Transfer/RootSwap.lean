import AiryFS.Transfer.Staging
import AiryFS.Transfer.RoundTrip

/-! An import into the root: every child moves away, every staged child moves in.

How far the two loops have come is what the root and the two hidden directories list. Going
back through the loops lists it all again where it was.
-/

set_option autoImplicit false

namespace AiryFS

open Foundation Attempt Relation

namespace TreeImport

open Volume

/-! ## Paths below the root -/

section Paths

variable {volume : Volume} {name hidden : Text} {ino : Int}

theorem fields_rootPath (valid : Separable '/' [name]) : fields '/' (rootPath name) = [name] :=
  @fields_siblingPath [] ['/'] name (fields_cons_sep []) valid

theorem resolveParent_rootPath (volume : Volume) (valid : Separable '/' [name]) :
    AgentFS.resolveParent volume (rootPath name) = some (ROOT_INO, name) :=
  AgentFS.resolveParent_eq_some.mpr ⟨[], fields_rootPath valid, rfl⟩

/-- A name in one of the hidden directories. -/
theorem resolveParent_inside (hides : Separable '/' [hidden]) (valid : Separable '/' [name])
    (found : volume.child ROOT_INO hidden = some ino) :
    AgentFS.resolveParent volume (siblingPath (rootPath hidden) name) = some (ino, name) := by
  refine AgentFS.resolveParent_eq_some.mpr ⟨[hidden], fields_siblingPath (fields_rootPath hides) valid, ?_⟩
  rw [walk_cons, found]
  rfl

theorem resolvePath_rootPath (volume : Volume) (valid : Separable '/' [name]) :
    AgentFS.resolvePath volume (rootPath name) = volume.child ROOT_INO name := by
  rw [AgentFS.resolvePath_of_parent (resolveParent_rootPath volume valid)]
  rfl

end Paths

/-! ## What is listed -/

section Listings

variable (prior before : Volume) (stagingName backupName : Text) (staged backup : Int)

/-- The root with the two hidden directories. -/
def prepared : Int → Text → Option Int :=
  relist (relist prior.child ROOT_INO stagingName (some staged)) ROOT_INO backupName (some backup)

/-- Some entries of the root have moved away. -/
def away (moved : List Text) : Int → Text → Option Int := fun ino label =>
  if ino = ROOT_INO ∧ label ∈ moved then none
  else if ino = backup ∧ label ∈ moved then prior.child ROOT_INO label
  else prepared prior stagingName backupName staged backup ino label

/-- And some staged entries have moved in. -/
def arrived (moved published : List Text) : Int → Text → Option Int := fun ino label =>
  if ino = ROOT_INO ∧ label ∈ published then before.child staged label
  else away prior stagingName backupName staged backup moved ino label

/-- What lies below such entries of the staging directory. -/
def Under (such : Text → Prop) (ino : Int) : Prop :=
  ∃ label, such label ∧ ∃ rest, AgentFS.walk before staged (label :: rest) = some ino

end Listings

/-- The archive is in the staging directory, and the next inode is the backup directory. -/
structure Prepared (prior before : Volume) (chunkSize : Nat) (stagingName backupName : Text) (staged backup : Int) (tree : PathTree) :
    Prop where
  site : Site prior [] ROOT_INO stagingName backupName
  filled : ∃ made place, Adds staged ROOT_INO stagingName prior made ∧ Growing made chunkSize place staged before tree
  directory : before.Stored chunkSize staged .directory
  next : backup = before.inodeSequence + 1
  hides : Separable '/' [stagingName] ∧ Separable '/' [backupName]
  unarchived : tree [stagingName] = none ∧ tree [backupName] = none

/-- Everything from the staging directory on, without the backup directory. -/
def Staged (prior before : Volume) (ino : Int) : Prop := prior.inodeSequence < ino ∧ ino ≤ before.inodeSequence

variable {prior before volume volume' : Volume} {chunkSize : Nat} {stagingName backupName name : Text} {staged backup ino : Int}
  {tree : PathTree} {moved published : List Text} {such : Text → Prop}

namespace Prepared

variable (prepared : Prepared prior before chunkSize stagingName backupName staged backup tree)

include prepared

theorem bounds : ROOT_INO ≤ prior.inodeSequence ∧ prior.inodeSequence < staged ∧ staged ≤ before.inodeSequence ∧
    before.inodeSequence < backup := by
  obtain ⟨made, place, adds, growing⟩ := prepared.filled
  have fresh := adds.fresh
  have ordered := growing.extended.sequence
  have next := prepared.next
  rw [adds.sequence] at ordered
  exact ⟨prepared.site.sound.rooted, by omega, by omega, by omega⟩

theorem under_bounds (under : Under before staged such ino) : staged < ino ∧ ino ≤ before.inodeSequence := by
  obtain ⟨made, place, adds, growing⟩ := prepared.filled
  obtain ⟨label, _, rest, walked⟩ := under
  have above := growing.fresh _ _ (by simp) walked
  rw [adds.sequence] at above
  exact ⟨above, growing.numbered.walk_le prepared.bounds.2.2.1 walked⟩

omit prepared in
theorem under_closed : before.Closed (Under before staged such) := by
  rintro parent label ino ⟨first, chosen, rest, walked⟩ found
  refine ⟨first, chosen, rest ++ [label], ?_⟩
  rw [← List.cons_append, AgentFS.walk_append, walked, Option.bind_some, walk_cons, found]
  rfl

/-- No two entries of the staging directory share anything. -/
theorem under_apart {other : Text → Prop} (apart : ∀ label, such label → ¬other label) (under : Under before staged such ino) :
    ¬Under before staged other ino := by
  obtain ⟨made, place, adds, growing⟩ := prepared.filled
  rintro ⟨label, chosen, rest, walked⟩
  obtain ⟨label', chosen', rest', walked'⟩ := under
  have same := growing.apart _ _ _ walked walked'
  rw [List.cons.injEq] at same
  rw [same.1] at chosen
  exact apart label' chosen' chosen

/-- An entry of the staging directory is a node of the archive. -/
theorem present (found : before.child staged name = some ino) : before.inode? ino ≠ none ∧ Separable '/' [name] := by
  obtain ⟨made, place, adds, growing⟩ := prepared.filled
  have walked : AgentFS.walk before staged [name] = some ino := by
    rw [walk_cons, found]
    rfl
  have listed := growing.walk_isSome [name]
  rw [walked] at listed
  obtain ⟨node, known⟩ := Option.isSome_iff_exists.mp listed.symm
  obtain ⟨number, reached, stored⟩ := growing.listed known
  rw [walked, Option.some.injEq] at reached
  rw [reached]
  exact ⟨stored.present, growing.named [name] (by rw [known]; simp)⟩

/-- The archive's own root is a directory. -/
theorem rooted : tree [] = some .directory := by
  obtain ⟨made, place, adds, growing⟩ := prepared.filled
  obtain ⟨row, found, kind⟩ := prepared.directory
  have listed := growing.walk_isSome []
  obtain ⟨node, known⟩ := Option.isSome_iff_exists.mp (listed.symm.trans rfl)
  obtain ⟨number, reached, stored⟩ := growing.listed known
  have here : number = staged := (Option.some.inj reached).symm
  rw [here] at stored
  cases node with
  | directory => exact known
  | file content =>
    obtain ⟨_, other, found', regular⟩ := stored
    rw [found, Option.some.injEq] at found'
    rw [← found'] at regular
    rw [isDirectory, beq_iff_eq] at kind
    rw [isRegular, beq_iff_eq, kind] at regular
    exact absurd regular (by decide)
  | symlink target =>
    obtain ⟨⟨other, found', link⟩, _⟩ := stored
    rw [found, Option.some.injEq] at found'
    rw [← found'] at link
    rw [isDirectory, beq_iff_eq] at kind
    rw [isSymlink, beq_iff_eq, kind] at link
    exact absurd link (by decide)

theorem unstaged : before.child staged stagingName = none ∧ before.child staged backupName = none := by
  obtain ⟨made, place, adds, growing⟩ := prepared.filled
  have missing : ∀ name, tree [name] = none → before.child staged name = none := by
    intro name absent
    have listed := growing.walk_isSome [name]
    rw [absent, walk_cons] at listed
    cases found : before.child staged name with
    | none => rfl
    | some next =>
      rw [found] at listed
      cases listed
  exact ⟨missing _ prepared.unarchived.1, missing _ prepared.unarchived.2⟩

/-! ### Listings -/

omit prepared in
theorem away_held (kept : name ∉ moved) (plain : name ≠ stagingName ∧ name ≠ backupName) :
    away prior stagingName backupName staged backup moved ROOT_INO name = prior.child ROOT_INO name := by
  simp [away, TreeImport.prepared, relist, kept, plain]

/-- The backup directory lists only what has moved. -/
theorem away_free (kept : name ∉ moved) : away prior stagingName backupName staged backup moved backup name = none := by
  have bounds := prepared.bounds
  have apart : backup ≠ ROOT_INO := by omega
  have nothing : prior.child backup name = none := by
    rw [Option.eq_none_iff_forall_ne_some]
    intro other found
    have bound := (prepared.site.sound.child_le found).1
    omega
  simp [away, TreeImport.prepared, relist, kept, apart, nothing]

theorem away_concat (found : prior.child ROOT_INO name = some ino) :
    away prior stagingName backupName staged backup (moved ++ [name]) =
      relist (relist (away prior stagingName backupName staged backup moved) ROOT_INO name none) backup name (some ino) := by
  have bounds := prepared.bounds
  have apart : backup ≠ ROOT_INO := by omega
  funext other label
  simp only [away, relist, List.mem_append, List.mem_singleton]
  by_cases here : label = name
  · subst here
    by_cases root : other = ROOT_INO
    · simp [root, apart.symm]
    · by_cases aside : other = backup
      · simp [aside, apart, found]
      · simp [root, aside]
  · simp [here]

omit prepared in
theorem arrived_nil : arrived prior before stagingName backupName staged backup moved [] =
    away prior stagingName backupName staged backup moved := by
  funext other label
  simp [arrived]

omit prepared in
theorem arrived_concat : arrived prior before stagingName backupName staged backup moved (published ++ [name]) =
    relist (arrived prior before stagingName backupName staged backup moved published) ROOT_INO name (before.child staged name) := by
  funext other label
  simp only [arrived, relist, List.mem_append, List.mem_singleton]
  by_cases here : label = name
  · subst here
    by_cases root : other = ROOT_INO
    · simp [root]
    · simp [root]
  · simp [here]

omit prepared in
theorem arrived_tail (single : name ∉ published)
    (vacant : away prior stagingName backupName staged backup moved ROOT_INO name = none) :
    relist (arrived prior before stagingName backupName staged backup moved (name :: published)) ROOT_INO name none =
      arrived prior before stagingName backupName staged backup moved published := by
  funext other label
  simp only [arrived, relist, List.mem_cons]
  by_cases here : label = name
  · subst here
    by_cases root : other = ROOT_INO
    · simp [root, single, vacant]
    · simp [root]
  · simp [here]

end Prepared

/-! ## How far the swap has come -/

/-- The tables list what has moved. -/
structure Along (prior before : Volume) (stagingName backupName : Text) (staged backup : Int) (moved published : List Text)
    (volume : Volume) : Prop where
  relists : Relists prior (Staged prior before) (arrived prior before stagingName backupName staged backup moved published) volume
  stagingStored : volume.inode? staged ≠ none
  backupStored : volume.inode? backup ≠ none
  held : ∀ name ∈ moved, ∃ ino, prior.child ROOT_INO name = some ino ∧ prior.inode? ino ≠ none
  taken : ∀ name ∈ published, before.child staged name ≠ none ∧
    away prior stagingName backupName staged backup moved ROOT_INO name = none
  separate : moved.Nodup
  single : published.Nodup

section Along

variable (prepared : Prepared prior before chunkSize stagingName backupName staged backup tree)
  (along : Along prior before stagingName backupName staged backup moved published volume)

include prepared along

omit prepared in
theorem Along.outside (outside : ino ≤ prior.inodeSequence ∨ before.inodeSequence < ino) (label : Text) :
    volume.child ino label = arrived prior before stagingName backupName staged backup moved published ino label := by
  refine along.relists.children ino label ?_
  rintro ⟨above, below⟩
  omega

/-- The hidden directories are where they were. -/
theorem Along.hidden : volume.child ROOT_INO stagingName = some staged ∧ volume.child ROOT_INO backupName = some backup := by
  have bounds := prepared.bounds
  have apart : backup ≠ ROOT_INO := by omega
  have kept : ∀ name, prior.child ROOT_INO name = none → name ∉ moved := by
    intro name absent listed
    obtain ⟨ino, found, _⟩ := along.held name listed
    rw [absent] at found
    cases found
  have unpublished : ∀ name, before.child staged name = none → name ∉ published := fun name absent listed =>
    (along.taken name listed).1 absent
  have staging := kept stagingName prepared.site.staging
  have backup := kept backupName prepared.site.backup
  have staging' := unpublished stagingName prepared.unstaged.1
  have backup' := unpublished backupName prepared.unstaged.2
  rw [along.outside (.inl bounds.1), along.outside (.inl bounds.1)]
  simp [arrived, away, TreeImport.prepared, relist, staging, backup, staging', backup', prepared.site.apart]

/-- What has moved away can be named. -/
theorem Along.named (listed : name ∈ moved) : Separable '/' [name] ∧ name ≠ stagingName ∧ name ≠ backupName := by
  obtain ⟨ino, found, _⟩ := along.held name listed
  obtain ⟨entry, member, _, rfl, _⟩ := mem_of_child found
  refine ⟨by simpa [Separable] using prepared.site.sound.names entry member, ?_, ?_⟩
  · intro same
    rw [same, prepared.site.staging] at found
    cases found
  · intro same
    rw [same, prepared.site.backup] at found
    cases found

omit prepared in
/-- What a move of one entry leaves of the rest, when the name it takes is free. -/
theorem Along.stays {parent newParent : Int} {newName : Text} (moves : Moves parent name newParent newName ino volume volume')
    (free : volume.child newParent newName = none) : volume'.inode? staged ≠ none ∧ volume'.inode? backup ≠ none := by
  have same := fun other => moves.nodes other (by rw [free]; simp)
  exact ⟨(same staged).present along.stagingStored, (same backup).present along.backupStored⟩

end Along

/-- The loops are going forward: the rest of the staged entries are still in the staging directory. -/
structure Midway (prior before : Volume) (stagingName backupName : Text) (staged backup : Int) (moved published : List Text)
    (volume : Volume) : Prop where
  along : Along prior before stagingName backupName staged backup moved published volume
  children : ∀ label, volume.child staged label = if label ∈ published then none else before.child staged label
  carries : Carries (Under before staged fun _ => True) before volume

section Steps

variable (prepared : Prepared prior before chunkSize stagingName backupName staged backup tree)

include prepared

theorem Midway.moveAway (midway : Midway prior before stagingName backupName staged backup moved [] volume)
    (renamed : AgentFS.rename volume (rootPath name) (backedUpPath backupName name) = .ok volume') (valid : Separable '/' [name])
    (plain : name ≠ stagingName ∧ name ≠ backupName) (fresh : name ∉ moved) :
    Midway prior before stagingName backupName staged backup (moved ++ [name]) [] volume' := by
  have bounds := prepared.bounds
  have along := midway.along
  have hidden := along.hidden prepared
  obtain ⟨ino, found, stored, moves⟩ := AgentFS.rename_moves renamed (resolveParent_rootPath volume valid)
    (resolveParent_inside prepared.hides.2 valid hidden.2) (by omega)
  have listed := found
  rw [along.outside (.inl bounds.1), Prepared.arrived_nil, Prepared.away_held fresh plain] at listed
  have vacant := prepared.away_free fresh
  have free : volume.child backup name = none := by
    rw [along.outside (.inr bounds.2.2.2), Prepared.arrived_nil, vacant]
  have old : ¬Staged prior before ROOT_INO := fun within => by have above := within.1; omega
  have beyond : ¬Staged prior before backup := fun within => by have below := within.2; omega
  have relists := along.relists.moves moves old beyond (by rw [Prepared.arrived_nil, vacant])
  rw [Prepared.arrived_nil, ← prepared.away_concat listed, ← @Prepared.arrived_nil prior before] at relists
  have still := along.stays moves free
  refine ⟨⟨relists, still.1, still.2, ?_, fun _ listed => absurd listed List.not_mem_nil, ?_, List.nodup_nil⟩, ?_, ?_⟩
  · intro other member
    rcases List.mem_append.mp member with earlier | last
    · exact along.held other earlier
    · rw [List.mem_singleton.mp last]
      exact ⟨ino, listed, (along.relists.nodes ino (prepared.site.sound.child_le listed).2).symm.present stored⟩
  · rw [List.nodup_append]
    exact ⟨along.separate, List.nodup_singleton _, fun first member second last => by rw [List.mem_singleton.mp last]; rintro rfl; exact fresh member⟩
  · intro label
    rw [moves.children, if_neg (by omega), if_neg (by omega), midway.children]
  · refine midway.carries.moves moves ?_ ?_ (by rw [free]; simp)
    · intro under
      have above := (prepared.under_bounds under).1
      omega
    · intro under
      have below := (prepared.under_bounds under).2
      omega

theorem Midway.publish (midway : Midway prior before stagingName backupName staged backup moved published volume)
    (renamed : AgentFS.rename volume (stagedPath stagingName name) (rootPath name) = .ok volume') (fresh : name ∉ published)
    (listed : before.child staged name ≠ none)
    (vacant : away prior stagingName backupName staged backup moved ROOT_INO name = none) :
    Midway prior before stagingName backupName staged backup moved (published ++ [name]) volume' := by
  have bounds := prepared.bounds
  have along := midway.along
  have hidden := along.hidden prepared
  obtain ⟨number, known⟩ := Option.ne_none_iff_exists'.mp listed
  have valid := (prepared.present known).2
  obtain ⟨ino, found, stored, moves⟩ := AgentFS.rename_moves renamed (resolveParent_inside prepared.hides.1 valid hidden.1)
    (resolveParent_rootPath volume valid) (by omega)
  rw [midway.children, if_neg fresh] at found
  have none : arrived prior before stagingName backupName staged backup moved published ROOT_INO name = none := by
    rw [arrived, if_neg fun both => fresh both.2, vacant]
  have free : volume.child ROOT_INO name = Option.none := by rw [along.outside (.inl bounds.1), none]
  have old : ¬Staged prior before ROOT_INO := fun within => by have above := within.1; omega
  have relists := along.relists.emerges moves ⟨bounds.2.1, bounds.2.2.1⟩ old none
  rw [← found, ← Prepared.arrived_concat] at relists
  have still := along.stays moves free
  refine ⟨⟨relists, still.1, still.2, along.held, ?_, along.separate, ?_⟩, ?_, ?_⟩
  · intro other member
    rcases List.mem_append.mp member with earlier | last
    · exact along.taken other earlier
    · rw [List.mem_singleton.mp last]
      exact ⟨listed, vacant⟩
  · rw [List.nodup_append]
    exact ⟨along.single, List.nodup_singleton _, fun first member second last => by rw [List.mem_singleton.mp last]; rintro rfl; exact fresh member⟩
  · intro label
    rw [moves.children, if_neg (by omega), midway.children]
    by_cases here : label = name
    · simp [here]
    · simp [here]
  · refine midway.carries.moves moves ?_ ?_ (by rw [free]; simp)
    · intro under
      have above := (prepared.under_bounds under).1
      omega
    · intro under
      have above := (prepared.under_bounds under).1
      omega

/-! ### The beginning -/

/-- With the backup directory made, nothing has moved yet. -/
theorem Prepared.midway {made : Volume}
    (relists : Relists prior (prior.inodeSequence < ·) (relist prior.child ROOT_INO stagingName (some staged)) before)
    (adds : Adds backup ROOT_INO backupName before made) (stored : made.inode? backup ≠ none) :
    Midway prior before stagingName backupName staged backup [] [] made := by
  have bounds := prepared.bounds
  have nothing : ∀ ino label, before.inodeSequence < ino → relist prior.child ROOT_INO stagingName (some staged) ino label = none := by
    intro ino label beyond
    rw [relist, if_neg (by omega), Option.eq_none_iff_forall_ne_some]
    intro number found
    have bound := (prepared.site.sound.child_le found).1
    omega
  have same : ∀ ino, ino ≠ backup → SameNode ino before made := fun ino different =>
    ⟨by rw [adds.inodes ino different], adds.chunks ino different, adds.symlinks ino different⟩
  have listing : relist (relist prior.child ROOT_INO stagingName (some staged)) ROOT_INO backupName (some backup) =
      arrived prior before stagingName backupName staged backup [] [] := by
    funext ino label
    simp [arrived, away, TreeImport.prepared]
  have lists := (relists.narrow nothing).adds adds (by omega) (fun within => by have above := within.1; omega) (by omega)
  rw [listing] at lists
  refine ⟨⟨lists, (same staged (by omega)).present prepared.directory.present, stored, fun _ listed => absurd listed List.not_mem_nil,
    fun _ listed => absurd listed List.not_mem_nil, List.nodup_nil, List.nodup_nil⟩, ?_, ?_, ?_⟩
  · intro label
    rw [adds.child, if_neg (by omega)]
    rfl
  · intro ino label under
    have above := (prepared.under_bounds under).1
    rw [adds.child, if_neg (by omega)]
  · intro ino under
    have below := (prepared.under_bounds under).2
    exact same ino (by omega)

/-! ### Back again -/

/-- A published entry goes with what is below it, and the other published ones stay. -/
theorem Along.discards (along : Along prior before stagingName backupName staged backup moved (name :: published) volume)
    (carries : Carries (Under before staged (· ∈ name :: published)) before volume) :
    Along prior before stagingName backupName staged backup moved published (settle volume (discard (rootPath name) volume)) ∧
      Carries (Under before staged (· ∈ published)) before (settle volume (discard (rootPath name) volume)) := by
  have bounds := prepared.bounds
  obtain ⟨listed, vacant⟩ := along.taken name List.mem_cons_self
  obtain ⟨ino, found⟩ := Option.ne_none_iff_exists'.mp listed
  obtain ⟨stored, valid⟩ := prepared.present found
  have single := List.nodup_cons.mp along.single
  have within : Under before staged (· = name) ino := ⟨name, rfl, [], by rw [walk_cons, found]; rfl⟩
  have among : ∀ other, Under before staged (· = name) other → Under before staged (· ∈ name :: published) other := by
    rintro other ⟨label, rfl, rest, walked⟩
    exact ⟨label, List.mem_cons_self, rest, walked⟩
  have entry : volume.child ROOT_INO name = some ino := by
    rw [along.outside (.inl bounds.1), arrived, if_pos ⟨rfl, List.mem_cons_self⟩, found]
  have closed : volume.Closed (Under before staged (· = name)) := by
    intro parent label number inside reached
    rw [carries.children parent label (among parent inside)] at reached
    exact Prepared.under_closed parent label number inside reached
  obtain ⟨removed, ran, removes⟩ := AgentFS.rm_removes (resolveParent_rootPath volume valid) entry
    ((carries.nodes ino (among ino within)).present stored) closed within
  unfold discard
  rw [ran]
  have relists := along.relists.removes removes (fun other new => new.1) fun other inside => by
    have range := prepared.under_bounds inside
    exact ⟨by omega, range.2⟩
  rw [Prepared.arrived_tail single.1 vacant] at relists
  have spared : ∀ other, ¬Under before staged (· = name) other → SameNode other volume removed := removes.nodes
  refine ⟨⟨relists, (spared staged ?_).present along.stagingStored, (spared backup ?_).present along.backupStored, along.held,
    fun other member => along.taken other (List.mem_cons_of_mem _ member), along.separate, single.2⟩, ?_⟩
  · intro inside
    have above := (prepared.under_bounds inside).1
    omega
  · intro inside
    have below := (prepared.under_bounds inside).2
    omega
  · refine (carries.mono ?_).removes removes (fun other inside => prepared.under_apart ?_ inside) ?_
    · rintro other ⟨label, member, rest, walked⟩
      exact ⟨label, List.mem_cons_of_mem _ member, rest, walked⟩
    · rintro label member rfl
      exact single.1 member
    · intro inside
      have above := (prepared.under_bounds inside).1
      omega

/-- What moved away last comes back. -/
theorem Along.returns (along : Along prior before stagingName backupName staged backup (moved ++ [name]) [] volume) :
    Along prior before stagingName backupName staged backup moved []
      (settle volume (AgentFS.rename volume (backedUpPath backupName name) (rootPath name))) := by
  have bounds := prepared.bounds
  have hidden := along.hidden prepared
  obtain ⟨valid, plain⟩ := along.named prepared (List.mem_append_right _ (List.mem_singleton_self name))
  obtain ⟨ino, found, stored⟩ := along.held name (List.mem_append_right _ (List.mem_singleton_self name))
  have separate := List.nodup_append.mp along.separate
  have fresh : name ∉ moved := fun member => separate.2.2 name member name (List.mem_singleton_self name) rfl
  have held : volume.child backup name = some ino := by
    rw [along.outside (.inr bounds.2.2.2), Prepared.arrived_nil, prepared.away_concat found, relist, if_pos ⟨rfl, rfl⟩]
  have vacated : volume.child ROOT_INO name = none := by
    rw [along.outside (.inl bounds.1), Prepared.arrived_nil, prepared.away_concat found, relist, if_neg (by omega), relist,
      if_pos ⟨rfl, rfl⟩]
  have source : AgentFS.resolveParent volume (backedUpPath backupName name) = some (backup, name) :=
    resolveParent_inside prepared.hides.2 valid hidden.2
  have target := resolveParent_rootPath volume valid
  have apart : ¬fields '/' (backedUpPath backupName name) <+: fields '/' (rootPath name) := by
    intro extending
    have longer := extending.length_le
    rw [fields_rootPath valid, backedUpPath, fields_siblingPath (fields_rootPath prepared.hides.2) valid] at longer
    simp at longer
  obtain ⟨volume', renamed⟩ := AgentFS.rename_returns source target held
    ((along.relists.nodes ino (prepared.site.sound.child_le found).2).present stored) vacated (not_below apart)
  obtain ⟨number, same, _, moves⟩ := AgentFS.rename_moves renamed source target (by omega)
  rw [held, Option.some.injEq] at same
  subst same
  rw [renamed]
  have old : ¬Staged prior before ROOT_INO := fun within => by have above := within.1; omega
  have beyond : ¬Staged prior before backup := fun within => by have below := within.2; omega
  have relists := along.relists.moves moves beyond old (by
    rw [Prepared.arrived_nil, prepared.away_concat found, relist, if_neg (by omega), relist, if_pos ⟨rfl, rfl⟩])
  rw [Prepared.arrived_nil, prepared.away_concat found,
    relist_returned ((Prepared.away_held fresh plain).trans found) (prepared.away_free fresh),
    ← @Prepared.arrived_nil prior before] at relists
  have still := along.stays moves vacated
  exact ⟨relists, still.1, still.2, fun other member => along.held other (List.mem_append_left _ member),
    fun _ listed => absurd listed List.not_mem_nil, separate.1, List.nodup_nil⟩

end Steps

end TreeImport

end AiryFS
