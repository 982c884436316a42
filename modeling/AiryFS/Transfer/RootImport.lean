import AiryFS.Transfer.RootSwap

/-! An import into the root: what its loops leave, whichever way they end. -/

set_option autoImplicit false

namespace AiryFS

open Foundation Attempt Relation

namespace TreeImport

open Volume

variable {prior before volume volume' : Volume} {chunkSize : Nat} {stagingName backupName name : Text} {staged backup ino : Int}
  {tree : PathTree} {moved published existing names : List Text} {disk : Disk}

section Loops

variable (prepared : Prepared prior before chunkSize stagingName backupName staged backup tree)

include prepared

/-! ## Rolling back -/

theorem discardAll_post {returned : Unit → Disk → Prop} {thrown : Failure → Disk → Prop}
    (along : Along prior before stagingName backupName staged backup moved published disk.volume)
    (carries : Carries (Under before staged (· ∈ published)) before disk.volume)
    (done : ∀ disk', Along prior before stagingName backupName staged backup moved [] disk'.volume → returned () disk') :
    Post (published.forM fun name => Disk.undo (discard (rootPath name))) disk returned thrown := by
  induction published generalizing disk with
  | nil => exact done disk along
  | cons name published ih =>
    rw [post_forM_cons, Disk.post_undo]
    obtain ⟨along, carries⟩ := along.discards prepared carries
    exact ih along carries

/-- The last that moved away comes back first. -/
theorem returnAll_post {returned : Unit → Disk → Prop} {thrown : Failure → Disk → Prop}
    (along : Along prior before stagingName backupName staged backup moved [] disk.volume)
    (done : ∀ disk', Along prior before stagingName backupName staged backup [] [] disk'.volume → returned () disk') :
    Post (moved.reverse.forM fun name => Disk.undo fun volume =>
      AgentFS.rename volume (backedUpPath backupName name) (rootPath name)) disk returned thrown := by
  induction moved using List.reverseRecOn generalizing disk with
  | nil => exact done disk along
  | append_singleton moved name ih =>
    rw [List.reverse_append, List.reverse_singleton, List.singleton_append, post_forM_cons, Disk.post_undo]
    exact ih (along.returns prepared)

theorem rollBack_post {returned : Unit → Disk → Prop} {thrown : Failure → Disk → Prop}
    (along : Along prior before stagingName backupName staged backup moved published disk.volume)
    (carries : Carries (Under before staged (· ∈ published)) before disk.volume)
    (done : ∀ disk', Along prior before stagingName backupName staged backup [] [] disk'.volume → returned () disk') :
    Post (rollBack backupName published moved) disk returned thrown := by
  unfold rollBack
  rw [post_bind]
  exact discardAll_post prepared along carries fun disk' along => returnAll_post prepared along done

/-- A call of the loops that fails has changed nothing, and what was done before it is undone. -/
theorem guarded_post {α : Type} {call : Transfer α} {returned : α → Disk → Prop}
    (midway : Midway prior before stagingName backupName staged backup moved published disk.volume)
    (calls : Post call disk returned fun _ disk' => disk'.volume = disk.volume) :
    Post (guarded backupName published moved call) disk returned
      fun _ disk' => Along prior before stagingName backupName staged backup [] [] disk'.volume := by
  unfold guarded
  rw [post_catch]
  refine calls.mono (fun _ _ => id) ?_
  intro failure disk' same
  rw [post_bind]
  refine rollBack_post prepared (by rw [same]; exact midway.along) ?_ fun _ done => done
  rw [same]
  refine midway.carries.mono ?_
  rintro ino ⟨label, _, rest, walked⟩
  exact ⟨label, trivial, rest, walked⟩

/-- Both hidden directories go, the backup directory because it is empty again. -/
theorem cleanUp_post {returned : Unit → Disk → Prop} {thrown : Failure → Disk → Prop}
    (along : Along prior before stagingName backupName staged backup [] [] disk.volume)
    (done : ∀ disk', Restored prior disk'.volume → returned () disk') :
    Post (cleanUp stagingName backupName true) disk returned thrown := by
  have bounds := prepared.bounds
  have relists := along.relists
  have old : ¬Staged prior before ROOT_INO := fun within => by have above := within.1; omega
  have beyond : ¬Staged prior before backup := fun within => by have below := within.2; omega
  have hidden := along.hidden prepared
  have listed := along.outside (.inl bounds.1) stagingName
  rw [hidden.1] at listed
  obtain ⟨relists, spared⟩ := discards_entry relists (fun _ new => new.1)
    (resolveParent_rootPath disk.volume prepared.hides.1) old listed.symm ⟨bounds.2.1, bounds.2.2.1⟩ along.stagingStored
  have stored := (spared backup beyond).present along.backupStored
  have view : relist (arrived prior before stagingName backupName staged backup [] []) ROOT_INO stagingName none =
      relist prior.child ROOT_INO backupName (some backup) := by
    funext ino label
    have unlisted := prepared.site.staging
    have apart := prepared.site.apart
    unfold relist
    by_cases here : ino = ROOT_INO ∧ label = stagingName
    · rw [if_pos here, if_neg fun both => apart (here.2.symm.trans both.2), here.1, here.2, unlisted]
    · rw [if_neg here]
      simp [arrived, away, TreeImport.prepared, relist, here]
  rw [view] at relists
  unfold cleanUp
  rw [post_bind, Disk.post_undo, if_pos rfl, Disk.post_undo]
  dsimp only
  generalize settle disk.volume (discard (rootPath stagingName) disk.volume) = volume at relists spared stored ⊢
  have nothing : ∀ ino label, prior.inodeSequence < ino → relist prior.child ROOT_INO backupName (some backup) ino label = none := by
    intro ino label new
    rw [relist, if_neg (by omega), Option.eq_none_iff_forall_ne_some]
    intro number found
    have bound := (prepared.site.sound.child_le found).1
    omega
  have entry : volume.child ROOT_INO backupName = some backup := by
    rw [relists.children _ _ old, relist, if_pos ⟨rfl, rfl⟩]
  have discards : discardEmpty (rootPath backupName) volume = discard (rootPath backupName) volume := by
    unfold discardEmpty
    split
    · rename_i first rest reads
      have resolved := (resolvePath_rootPath volume prepared.hides.2).trans entry
      have lists := ((AgentFS.mem_readdir reads resolved).1 first).mp List.mem_cons_self
      rw [relists.children _ _ beyond, nothing backup first (by omega)] at lists
      exact absurd rfl lists
    · rfl
  rw [discards]
  refine done _ ?_
  have wide := relists.widen (fun _ new => new.1) fun ino label new _ => nothing ino label new
  refine (discards_entry wide (fun _ later => later) (resolveParent_rootPath volume prepared.hides.2) (by omega)
    (by rw [relist, if_pos ⟨rfl, rfl⟩]) (by omega) stored).1.congr ?_
  intro ino label _
  have unlisted := prepared.site.backup
  unfold relist
  split
  · rename_i here
    rw [here.1, here.2, unlisted]
  · rfl

/-! ## The loops -/

theorem moveAway_post (midway : Midway prior before stagingName backupName staged backup moved [] disk.volume)
    (whole : existing = moved ++ names) (single : existing.Nodup)
    (plain : ∀ name ∈ existing, Separable '/' [name] ∧ name ≠ stagingName ∧ name ≠ backupName) :
    Post (moveAway backupName moved names) disk
      (fun moved disk' => moved = existing ∧ Midway prior before stagingName backupName staged backup existing [] disk'.volume)
      (fun _ disk' => Along prior before stagingName backupName staged backup [] [] disk'.volume) := by
  induction names generalizing moved disk with
  | nil =>
    rw [List.append_nil] at whole
    rw [moveAway, post_pure, whole]
    exact ⟨rfl, midway⟩
  | cons name names ih =>
    rw [moveAway, post_bind]
    apply guarded_post prepared midway
    apply Disk.post_mutate
    · intro volume' renamed fault
      have member : name ∈ existing := by
        rw [whole]
        exact List.mem_append_right _ List.mem_cons_self
      rw [whole, List.nodup_append] at single
      have fresh : name ∉ moved := fun earlier => single.2.2 name earlier name List.mem_cons_self rfl
      have next := midway.moveAway prepared renamed (plain name member).1 (plain name member).2 fresh
      exact ih next (by rw [whole, List.append_assoc, List.singleton_append])
    · exact fun _ _ => rfl

theorem publish_post (midway : Midway prior before stagingName backupName staged backup moved published disk.volume)
    (whole : existing = published ++ names) (single : existing.Nodup)
    (listed : ∀ name ∈ existing, before.child staged name ≠ none ∧
      away prior stagingName backupName staged backup moved ROOT_INO name = none) :
    Post (publish stagingName backupName moved published names) disk
      (fun _ disk' => Midway prior before stagingName backupName staged backup moved existing disk'.volume)
      (fun _ disk' => Along prior before stagingName backupName staged backup [] [] disk'.volume) := by
  induction names generalizing published disk with
  | nil =>
    rw [List.append_nil] at whole
    rw [publish, post_pure, whole]
    exact midway
  | cons name names ih =>
    rw [publish, post_bind]
    apply guarded_post prepared midway
    apply Disk.post_mutate
    · intro volume' renamed fault
      have member : name ∈ existing := by
        rw [whole]
        exact List.mem_append_right _ List.mem_cons_self
      rw [whole, List.nodup_append] at single
      have fresh : name ∉ published := fun earlier => single.2.2 name earlier name List.mem_cons_self rfl
      have next := midway.publish prepared renamed fresh (listed name member).1 (listed name member).2
      exact ih next (by rw [whole, List.append_assoc, List.singleton_append])
    · exact fun _ _ => rfl

end Loops

/-! ## The new root -/

/-- Apart from the two hidden names, the root lists what the staging directory listed. -/
structure Replaced (before : Volume) (chunkSize : Nat) (stagingName backupName : Text) (staged : Int) (volume : Volume) : Prop where
  carries : Carries (Under before staged fun _ => True) before volume
  root : ∀ label, label ≠ stagingName → label ≠ backupName → volume.child ROOT_INO label = before.child staged label
  directory : volume.Stored chunkSize ROOT_INO .directory

/-- What was below the root, and the backup directory above it. -/
def Aside (prior : Volume) (backup ino : Int) : Prop := ino = backup ∨ ino ≤ prior.inodeSequence ∧ ino ≠ ROOT_INO

structure Replacing (prior before : Volume) (chunkSize : Nat) (stagingName backupName : Text) (staged backup : Int) (volume : Volume) :
    Prop where
  replaced : Replaced before chunkSize stagingName backupName staged volume
  entry : volume.child ROOT_INO backupName = some backup
  stored : volume.inode? backup ≠ none
  aside : volume.Closed (Aside prior backup)

theorem Replaced.removes {inside : Int → Prop} {hidden : Text} (replaced : Replaced before chunkSize stagingName backupName staged volume)
    (removes : Removes inside ROOT_INO hidden volume volume') (named : hidden = stagingName ∨ hidden = backupName)
    (apart : ∀ ino, Under before staged (fun _ => True) ino → ¬inside ino) (root : ¬inside ROOT_INO)
    (below : ¬Under before staged (fun _ => True) ROOT_INO) : Replaced before chunkSize stagingName backupName staged volume' := by
  refine ⟨replaced.carries.removes removes apart below, ?_, (removes.nodes ROOT_INO root).stored replaced.directory⟩
  intro label first second
  rw [removes.children ROOT_INO label root, if_neg, replaced.root label first second]
  rintro ⟨_, rfl⟩
  rcases named with same | same
  · exact first same
  · exact second same

section Ending

variable (prepared : Prepared prior before chunkSize stagingName backupName staged backup tree)

include prepared

theorem Midway.replacing (midway : Midway prior before stagingName backupName staged backup existing published volume)
    (every : ∀ name, prior.child ROOT_INO name ≠ none → name ∈ existing)
    (all : ∀ name, before.child staged name ≠ none → name ∈ published) :
    Replacing prior before chunkSize stagingName backupName staged backup volume := by
  have bounds := prepared.bounds
  have along := midway.along
  refine ⟨⟨midway.carries, ?_, (along.relists.nodes ROOT_INO bounds.1).stored prepared.site.sound.directory⟩,
    (along.hidden prepared).2, along.backupStored, ?_⟩
  · intro label first second
    rw [along.outside (.inl bounds.1), arrived]
    by_cases listed : label ∈ published
    · rw [if_pos ⟨rfl, listed⟩]
    · have unstaged : before.child staged label = none := by
        by_contra present
        exact listed (all label present)
      rw [if_neg fun both => listed both.2, unstaged]
      by_cases old : label ∈ existing
      · rw [away, if_pos ⟨rfl, old⟩]
      · rw [Prepared.away_held old ⟨first, second⟩]
        by_contra present
        exact old (every label present)
  · have fromPrior : ∀ {parent : Int} {label : Text} {number : Int}, prior.child parent label = some number → Aside prior backup number :=
      fun found => .inr ⟨(prepared.site.sound.child_le found).2, prepared.site.sound.child_ne_root found⟩
    intro parent label number within found
    rcases within with rfl | ⟨old, below⟩
    · rw [along.outside (.inr bounds.2.2.2), arrived, if_neg fun both => by omega] at found
      by_cases listed : label ∈ existing
      · rw [away, if_neg fun both => by omega, if_pos ⟨rfl, listed⟩] at found
        exact fromPrior found
      · rw [prepared.away_free listed] at found
        cases found
    · have apart : parent ≠ backup := by omega
      rw [along.outside (.inl old), arrived, if_neg fun both => below both.1, away, if_neg fun both => below both.1,
        if_neg fun both => apart both.1, TreeImport.prepared, relist, if_neg fun both => below both.1, relist,
        if_neg fun both => below both.1] at found
      exact fromPrior found

/-- The staging directory goes, and it is empty. -/
theorem Midway.discards (midway : Midway prior before stagingName backupName staged backup existing published volume)
    (replacing : Replacing prior before chunkSize stagingName backupName staged backup volume)
    (all : ∀ name, before.child staged name ≠ none → name ∈ published)
    (discarded : discard (rootPath stagingName) volume = .ok volume') :
    Replacing prior before chunkSize stagingName backupName staged backup volume' ∧ volume'.child ROOT_INO stagingName = none := by
  have bounds := prepared.bounds
  have along := midway.along
  have empty : ∀ label, volume.child staged label = none := by
    intro label
    rw [midway.children]
    split
    · rfl
    · rename_i unlisted
      by_contra present
      exact unlisted (all label present)
  have closed : volume.Closed (· = staged) := by
    rintro parent label number rfl found
    rw [empty] at found
    cases found
  obtain ⟨removed, ran, removes⟩ := AgentFS.rm_removes (resolveParent_rootPath volume prepared.hides.1) (along.hidden prepared).1
    along.stagingStored closed rfl
  unfold discard at discarded
  rw [ran, Except.ok.injEq] at discarded
  subst discarded
  have root : ROOT_INO ≠ staged := by omega
  have apart : backup ≠ staged := by omega
  refine ⟨⟨replacing.replaced.removes removes (.inl rfl) ?_ root ?_, ?_, (removes.nodes backup apart).present replacing.stored, ?_⟩, ?_⟩
  · intro ino under
    have above := (prepared.under_bounds under).1
    omega
  · intro under
    have above := (prepared.under_bounds under).1
    omega
  · rw [removes.children ROOT_INO backupName root, if_neg fun both => prepared.site.apart both.2.symm]
    exact replacing.entry
  · exact fun parent label number within found => replacing.aside parent label number within (removes.fewer parent label number found)
  · rw [removes.children ROOT_INO stagingName root, if_pos ⟨rfl, rfl⟩]

/-- The backup directory goes, with everything that was below the root. -/
theorem Replacing.discards (replacing : Replacing prior before chunkSize stagingName backupName staged backup volume)
    (discarded : discard (rootPath backupName) volume = .ok volume') :
    Replaced before chunkSize stagingName backupName staged volume' ∧ volume'.child ROOT_INO backupName = none ∧
      volume'.child ROOT_INO stagingName = volume.child ROOT_INO stagingName := by
  have bounds := prepared.bounds
  obtain ⟨removed, ran, removes⟩ := AgentFS.rm_removes (resolveParent_rootPath volume prepared.hides.2) replacing.entry
    replacing.stored replacing.aside (.inl rfl)
  unfold discard at discarded
  rw [ran, Except.ok.injEq] at discarded
  subst discarded
  have root : ¬Aside prior backup ROOT_INO := by
    rintro (same | ⟨_, below⟩)
    · omega
    · exact below rfl
  refine ⟨replacing.replaced.removes removes (.inr rfl) ?_ root ?_, ?_, ?_⟩
  · intro ino under inside
    have range := prepared.under_bounds under
    rcases inside with same | ⟨old, _⟩
    · omega
    · omega
  · intro under
    have above := (prepared.under_bounds under).1
    omega
  · rw [removes.children ROOT_INO backupName root, if_pos ⟨rfl, rfl⟩]
  · rw [removes.children ROOT_INO stagingName root, if_neg fun both => prepared.site.apart both.2]

/-! ## The swap -/

/-- The root is listed and the backup directory is made, or nothing has changed. -/
theorem prepareBackup_post {options : Options} (same : disk.volume = before)
    (relists : Relists prior (prior.inodeSequence < ·) (relist prior.child ROOT_INO stagingName (some staged)) before) :
    Post (prepareBackup stagingName backupName options) disk
      (fun existing disk' => Midway prior before stagingName backupName staged backup [] [] disk'.volume ∧
        (∀ name, name ∈ existing ↔ prior.child ROOT_INO name ≠ none) ∧ existing.Nodup ∧
        (options.replace = true ∨ ∀ name, prior.child ROOT_INO name = none))
      (fun _ disk' => disk'.volume = before) := by
  have bounds := prepared.bounds
  unfold prepareBackup
  rw [post_bind]
  apply Disk.post_inspect
  · intro listed reads fault
    obtain ⟨names, single⟩ := AgentFS.mem_readdir reads (AgentFS.resolvePath_eq disk.volume ['/'])
    dsimp only
    rw [post_bind, post_lift]
    refine ⟨?_, fun _ _ => same⟩
    intro _ accepted
    rw [post_bind]
    apply Disk.post_mutate
    · intro volume' created fault
      obtain ⟨parent, name, number, located, adds, stored⟩ := @AgentFS.mkdir_adds _ _ chunkSize _ created
      rw [resolveParent_rootPath _ prepared.hides.2, Option.some.injEq, Prod.mk.injEq] at located
      have fresh := adds.fresh
      rw [same, ← prepared.next] at fresh
      rw [← located.1, ← located.2, fresh, same] at adds
      rw [fresh] at stored
      have every : ∀ name, name ∈ listed.filter (fun name => name ≠ stagingName && name ≠ backupName) ↔
          prior.child ROOT_INO name ≠ none := by
        intro name
        have view := relists.children ROOT_INO name (by omega)
        rw [List.mem_filter, names, same, view]
        unfold relist
        have staging := prepared.site.staging
        have backup := prepared.site.backup
        by_cases first : name = stagingName
        · simp [first, staging]
        · by_cases second : name = backupName
          · simp [second, backup]
          · simp [first, second]
      refine ⟨prepared.midway relists adds stored.present, every, single.filter _, ?_⟩
      by_cases replaced : options.replace = true
      · exact .inl replaced
      · right
        have none : listed.filter (fun name => name ≠ stagingName && name ≠ backupName) = [] := by
          by_contra some
          exact refuse_eq_ok.mp accepted ⟨some, Bool.eq_false_iff.mpr replaced⟩
        intro name
        by_contra present
        have member := (every name).mpr present
        rw [none] at member
        cases member
    · exact fun _ _ => same
  · exact fun _ _ => same

/-- Every child has moved, or the root is as it was before the loops. -/
theorem exchange_post (midway : Midway prior before stagingName backupName staged backup [] [] disk.volume)
    (every : ∀ name, name ∈ existing ↔ prior.child ROOT_INO name ≠ none) (single : existing.Nodup) :
    Post (exchange stagingName backupName existing) disk
      (fun _ disk' => Replacing prior before chunkSize stagingName backupName staged backup disk'.volume ∧
        (disk'.abandoned = false → disk'.volume.child ROOT_INO stagingName = none))
      (fun _ disk' => Along prior before stagingName backupName staged backup [] [] disk'.volume) := by
  have bounds := prepared.bounds
  have plain : ∀ name ∈ existing, Separable '/' [name] ∧ name ≠ stagingName ∧ name ≠ backupName := by
    intro name listed
    have present := (every name).mp listed
    obtain ⟨ino, found⟩ := Option.ne_none_iff_exists'.mp present
    obtain ⟨entry, member, _, rfl, _⟩ := mem_of_child found
    refine ⟨by simpa [Separable] using prepared.site.sound.names entry member, ?_, ?_⟩
    · intro same
      rw [same] at present
      exact present prepared.site.staging
    · intro same
      rw [same] at present
      exact present prepared.site.backup
  unfold exchange
  rw [post_bind]
  refine (moveAway_post prepared midway (List.nil_append existing).symm single plain).mono ?_ fun _ _ => id
  rintro moved disk' ⟨whole, midway⟩
  rw [whole]
  rw [post_bind]
  apply guarded_post prepared midway
  apply Disk.post_inspect
  · intro names reads fault
    have resolved := (resolvePath_rootPath disk'.volume prepared.hides.1).trans (midway.along.hidden prepared).1
    obtain ⟨listed, once⟩ := AgentFS.mem_readdir reads resolved
    have staged_iff : ∀ name, name ∈ names ↔ before.child staged name ≠ none := by
      intro name
      rw [listed, midway.children, if_neg List.not_mem_nil]
    have vacant : ∀ name ∈ names, before.child staged name ≠ none ∧
        away prior stagingName backupName staged backup existing ROOT_INO name = none := by
      intro name member
      have present := (staged_iff name).mp member
      refine ⟨present, ?_⟩
      by_cases old : name ∈ existing
      · rw [away, if_pos ⟨rfl, old⟩]
      · rw [Prepared.away_held old ⟨?_, ?_⟩]
        · by_contra still
          exact old ((every name).mpr still)
        · rintro rfl
          exact present prepared.unstaged.1
        · rintro rfl
          exact present prepared.unstaged.2
    rw [post_bind]
    have forward : Midway prior before stagingName backupName staged backup existing [] ({ disk' with fault } : Disk).volume := midway
    refine (publish_post prepared forward (List.nil_append names).symm once vacant).mono ?_ fun _ _ => id
    intro _ disk'' midway
    have all := fun name => (staged_iff name).mpr
    have replacing := midway.replacing prepared (fun name => (every name).mpr) all
    apply Disk.post_quietly
    · intro volume' discarded fault
      obtain ⟨replacing, gone⟩ := midway.discards prepared replacing all discarded
      exact ⟨replacing, fun _ => gone⟩
    · exact fun fault => ⟨replacing, fun calm => by cases calm⟩
  · exact fun _ _ => rfl

theorem swapChildren_post {options : Options} (same : disk.volume = before)
    (relists : Relists prior (prior.inodeSequence < ·) (relist prior.child ROOT_INO stagingName (some staged)) before) :
    Post (swapChildren stagingName backupName options) disk
      (fun _ disk' => Replacing prior before chunkSize stagingName backupName staged backup disk'.volume ∧
        (disk'.abandoned = false → disk'.volume.child ROOT_INO stagingName = none) ∧
        (options.replace = true ∨ ∀ name, prior.child ROOT_INO name = none))
      (fun _ disk' => Restored prior disk'.volume) := by
  unfold swapChildren cleanly
  rw [post_bind, post_catch]
  refine (prepareBackup_post prepared same relists).mono ?_ ?_
  · rintro existing disk' ⟨midway, every, single, accepted⟩
    rw [post_catch]
    refine (exchange_post prepared midway every single).mono (fun _ _ swapped => ⟨swapped.1, swapped.2, accepted⟩) ?_
    intro failure disk'' along
    rw [post_bind]
    exact cleanUp_post prepared along fun _ restored => restored
  · intro failure disk' untouched
    have gone := prepared.site.discards (fields_rootPath prepared.hides.1) prepared.bounds.2.1 relists prepared.directory.present
    unfold cleanUp
    rw [post_bind, post_bind, Disk.post_undo, untouched]
    exact gone

end Ending

end TreeImport

end AiryFS
