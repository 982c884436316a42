import AiryFS.Assets.AssetSafety
import AiryFS.Foundation.Runs

/-! Any number of calls of `putAsset`, in whatever order they go on and whatever fails.

No two calls hold the lock of one asset, so the call that publishes an asset does so where there is none.
-/

set_option autoImplicit false

namespace AiryFS

open Foundation Sites Volume

variable {sha256 : Bytes → Text} {chunkSize : Nat} {volume before after : Volume}

theorem VolumeAccessCoordinator.pathsOverlap_self (path : Text) : pathsOverlap path path = true := by
  unfold pathsOverlap
  split
  · rfl
  · simp

namespace AssetPhase

/-- Whether the call holds the lock of its asset. -/
def locks : AssetPhase → Bool
  | .checking _ | .dropping | .measuring | .publishing _ => true
  | _ => false

theorem locks_fail (failure : Failure) (phase : AssetPhase) : (phase.fail failure).locks = false := by
  cases phase with
  | writing phase made => cases phase <;> rfl
  | _ => rfl

theorem isSettled_fail {failure : Failure} {phase : AssetPhase} (going : (phase.fail failure).isSettled = false) :
    phase.isSettled = false := by
  cases phase with
  | resolved info => exact going
  | rejected earlier => exact going
  | _ => rfl

theorem locks_ofStream (phase : StreamPhase) (made : Option Int) : (ofStream phase made).locks = false := by
  cases phase <;> rfl

end AssetPhase

namespace AssetCall

variable {call call' : AssetCall} {phase : AssetPhase} {abandoned : Bool}

theorem isSettled_next (going : (call.next sha256 chunkSize volume phase).2.isSettled = false) : phase.isSettled = false := by
  cases phase with
  | resolved info => exact going
  | rejected failure => exact going
  | _ => rfl

theorem locks_hashed (rest : Serving Hashed) : (call.hashed sha256 rest).locks = false := by
  unfold hashed
  cases rest with
  | returned hashed => dsimp only; split <;> rfl
  | thrown failure => rfl
  | ask question rest => rfl

/-- The lock is got from `locking` only. -/
theorem locks_next (locked : (call.next sha256 chunkSize volume phase).2.locks = true) :
    phase.locks = true ∨ ∃ actual, phase = .locking actual := by
  have unlocked {next : AssetPhase} (free : next.locks = false) (same : (call.next sha256 chunkSize volume phase).2 = next) : False := by
    rw [same, free] at locked
    cases locked
  cases phase with
  | locking actual => exact .inr ⟨actual, rfl⟩
  | checking actual => exact .inl rfl
  | dropping => exact .inl rfl
  | measuring => exact .inl rfl
  | publishing actual => exact .inl rfl
  | making directories =>
    cases directories with
    | nil => cases locked
    | cons directory directories =>
      rw [next_making] at locked
      split at locked
      · cases locked
      · split at locked <;> cases locked
  | looking =>
    rw [next_looking] at locked
    split at locked
    · cases locked
    · exact (Bool.eq_false_iff.mp (AssetPhase.locks_ofStream _ _) locked).elim
    · cases locked
  | known =>
    rw [next_known] at locked
    split at locked <;> cases locked
  | writing phase made => exact (unlocked (AssetPhase.locks_ofStream _ _) rfl).elim
  | lockingHash =>
    change (call.hashed sha256 (sha256Path call.temporary)).locks = true at locked
    rw [locks_hashed] at locked
    cases locked
  | hashing rest =>
    obtain ⟨rest', same⟩ : ∃ rest', (call.next sha256 chunkSize volume (.hashing rest)).2 = call.hashed sha256 rest' := by
      cases rest with
      | ask question rest => exact ⟨rest (answer chunkSize volume question), rfl⟩
      | returned hashed => exact ⟨.returned hashed, rfl⟩
      | thrown failure => exact ⟨.thrown failure, rfl⟩
    exact (unlocked (locks_hashed rest') same).elim
  | cleanUp failure => cases locked
  | resolved info => cases locked
  | rejected failure => cases locked

/-! ## Calls apart -/

theorem own_apart {label : Text} (uuid : call.uuid ≠ call'.uuid) (streamUuid : call.streamUuid ≠ call'.streamUuid)
    (own : call.Own label) : ¬call'.Own label := by
  rintro (same | same)
  · rcases own with rfl | rfl
    · exact streamUuid (List.append_cancel_left same)
    · exact names_apart same.symm
  · rcases own with rfl | rfl
    · exact names_apart same
    · exact uuid (List.append_cancel_left same)

theorem own_unadded {label : Text} (valid : phase.isSettled = false → isHash call'.checksum = true) (own : call.Own label) :
    ¬call'.Adds phase label := by
  rintro (part | ⟨rfl, actual, rfl⟩)
  · exact own_parts own part
  · exact (plain_of_isHash (valid rfl)).2.2.1 (own_dot own)

/-- A name of a call leads nowhere or to its file alone. -/
theorem Knows.leaves (knows : call.Knows sha256 chunkSize volume abandoned phase) {label : Text} (own : call.Own label) :
    volume.Absent label ∨ ∃ ino, volume.Sits label ino := by
  have placed {label : Text} (leaves : Leaves chunkSize volume label) : volume.Absent label ∨ ∃ ino, volume.Sits label ino :=
    leaves.imp_right fun ⟨ino, _, keeps⟩ => ⟨ino, keeps.1⟩
  have both (first : volume.Absent call.stream.uploadName ∨ ∃ ino, volume.Sits call.stream.uploadName ino)
      (second : volume.Absent call.uploadName ∨ ∃ ino, volume.Sits call.uploadName ino) :
      volume.Absent label ∨ ∃ ino, volume.Sits label ino := by
    rcases own with rfl | rfl
    · exact first
    · exact second
  cases phase with
  | making directories => exact both (.inl knows.2.1) (.inl knows.2.2)
  | looking => exact both (.inl knows.1) (.inl knows.2)
  | known => exact both (.inl knows.1) (.inl knows.2)
  | measuring => exact both (.inl knows.1) (.inl knows.2)
  | resolved info => exact both (.inl knows.1) (.inl knows.2)
  | writing phase made => exact both (placed (leaves_of_writes knows.1)) (.inl knows.2)
  | lockingHash =>
    obtain ⟨absent, ino, content, keeps⟩ := knows
    exact both (.inl absent) (.inr ⟨ino, keeps.1⟩)
  | dropping =>
    obtain ⟨absent, ino, content, keeps⟩ := knows
    exact both (.inl absent) (.inr ⟨ino, keeps.1⟩)
  | hashing rest =>
    obtain ⟨absent, ino, content, keeps, -⟩ := knows
    exact both (.inl absent) (.inr ⟨ino, keeps.1⟩)
  | locking actual =>
    obtain ⟨absent, ino, content, keeps, -⟩ := knows
    exact both (.inl absent) (.inr ⟨ino, keeps.1⟩)
  | checking actual =>
    obtain ⟨absent, ino, content, keeps, -⟩ := knows
    exact both (.inl absent) (.inr ⟨ino, keeps.1⟩)
  | publishing actual =>
    obtain ⟨⟨absent, ino, content, keeps, -⟩, -⟩ := knows
    exact both (.inl absent) (.inr ⟨ino, keeps.1⟩)
  | cleanUp failure => exact both (placed knows.1) (placed knows.2.1)
  | rejected failure => exact both (placed knows.1) (placed knows.2.1)

/-- What is awaited fails, and the files stay where they are. -/
theorem Knows.fail (failure : Failure) (knows : call.Knows sha256 chunkSize volume abandoned phase) :
    call.Knows sha256 chunkSize volume (abandoned || phase.abandons) (phase.fail failure) := by
  have rejects (absent : volume.Absent call.stream.uploadName) (absent' : volume.Absent call.uploadName) :
      call.Knows sha256 chunkSize volume (abandoned || false) (.rejected failure) := ⟨.inl absent, .inl absent', fun _ => ⟨absent, absent'⟩⟩
  have cleans (absent : volume.Absent call.stream.uploadName) (leaves : Leaves chunkSize volume call.uploadName) :
      call.Knows sha256 chunkSize volume (abandoned || false) (.cleanUp failure) := ⟨.inl absent, leaves, fun _ => absent⟩
  have abandons {claim : Prop} : (abandoned || true) = false → claim := fun done => by
    rw [Bool.or_true] at done
    cases done
  cases phase with
  | making directories => exact rejects knows.2.1 knows.2.2
  | looking => exact rejects knows.1 knows.2
  | known => exact rejects knows.1 knows.2
  | measuring => exact cleans knows.1 (.inl knows.2)
  | resolved info => exact knows
  | writing streamPhase made =>
    have going (unfinished : (StreamSystem.mk volume streamPhase made).finished = false) :
        Writes chunkSize call volume (.cleanUp failure) made := by
      obtain ⟨⟨sound, _⟩, placed, _⟩ := knows.1
      exact ⟨⟨(sound.fails failure).sound rfl, rfl⟩, placed, fun creating => by cases creating⟩
    cases streamPhase with
    | cleanUp earlier => exact ⟨leaves_of_writes knows.1, .inl knows.2, abandons⟩
    | _ => exact ⟨going knows.1.1.2, knows.2⟩
  | lockingHash =>
    obtain ⟨absent, ino, content, keeps⟩ := knows
    exact cleans absent (.inr ⟨ino, content, keeps⟩)
  | dropping =>
    obtain ⟨absent, ino, content, keeps⟩ := knows
    exact cleans absent (.inr ⟨ino, content, keeps⟩)
  | hashing rest =>
    obtain ⟨absent, ino, content, keeps, -⟩ := knows
    exact cleans absent (.inr ⟨ino, content, keeps⟩)
  | locking actual =>
    obtain ⟨absent, ino, content, keeps, -⟩ := knows
    exact cleans absent (.inr ⟨ino, content, keeps⟩)
  | checking actual =>
    obtain ⟨absent, ino, content, keeps, -⟩ := knows
    exact cleans absent (.inr ⟨ino, content, keeps⟩)
  | publishing actual =>
    obtain ⟨⟨absent, ino, content, keeps, -⟩, -⟩ := knows
    exact cleans absent (.inr ⟨ino, content, keeps⟩)
  | cleanUp earlier => exact ⟨knows.1, knows.2.1, abandons⟩
  | rejected earlier =>
    obtain ⟨first, second, clean⟩ := knows
    exact ⟨first, second, fun done => clean (Bool.or_eq_false_iff.mp done).1⟩

end AssetCall

/-- Every asset is where it was, as it was. -/
def AssetsKept (before after : Volume) : Prop :=
  ∀ hash ino, isHash hash = true → AgentFS.resolvePath before (assetPath hash) = some ino →
    AgentFS.resolvePath after (assetPath hash) = some ino ∧ SameNode ino before after

theorem AssetsKept.refl (volume : Volume) : AssetsKept volume volume := fun _ ino _ found => ⟨found, .refl ino volume⟩

theorem AssetsKept.trans {middle : Volume} (first : AssetsKept before middle) (second : AssetsKept middle after) :
    AssetsKept before after := by
  intro hash ino valid found
  obtain ⟨there, same⟩ := first hash ino valid found
  obtain ⟨there', same'⟩ := second hash ino valid there
  exact ⟨there', same.trans same'⟩

namespace AssetSystem

variable {n : Nat} {calls : Fin n → AssetCall} {system : AssetSystem n}

/-- The identifiers of the calls are different. -/
structure Apart (calls : Fin n → AssetCall) : Prop where
  plain : ∀ i, (calls i).Plain
  uuid : ∀ i j, i ≠ j → (calls i).uuid ≠ (calls j).uuid
  streamUuid : ∀ i j, i ≠ j → (calls i).streamUuid ≠ (calls j).streamUuid

structure Invariant (calls : Fin n → AssetCall) (sha256 : Bytes → Text) (chunkSize : Nat) (system : AssetSystem n) : Prop where
  tree : system.volume.DirectoryTree
  vouched : Vouched sha256 chunkSize system.volume
  knows : ∀ i, (calls i).Knows sha256 chunkSize system.volume (system.abandoned i) (system.phase i)
  valid : ∀ i, (system.phase i).isSettled = false → isHash (calls i).checksum = true
  alone : ∀ i j, i ≠ j → (system.phase i).locks = true → (system.phase j).locks = true → (calls i).checksum ≠ (calls j).checksum

/-- A call that is to get the lock of its asset waits for one that has it. -/
theorem blocked_of_locks {i j : Fin n} {actual : ChecksumResult} (different : i ≠ j) (waits : system.phase i = .locking actual)
    (locked : (system.phase j).locks = true) (same : (calls i).checksum = (calls j).checksum) : system.blocked calls i = true := by
  have target : (calls i).target = (calls j).target := by rw [AssetCall.target, same, AssetCall.target]
  have held : (calls j).target ∈ (calls j).held system.volume (system.phase j) := by
    cases phase : system.phase j with
    | checking actual => simp [AssetCall.held]
    | dropping => simp [AssetCall.held]
    | measuring => simp [AssetCall.held]
    | publishing actual => simp [AssetCall.held]
    | _ =>
      rw [phase] at locked
      cases locked
  refine decide_eq_true ⟨j, different.symm, List.any_eq_true.mpr ⟨(calls i).target, ?_, List.any_eq_true.mpr ⟨_, held, ?_⟩⟩⟩
  · rw [waits]
    simp [AssetCall.wanted]
  · rw [target]
    exact VolumeAccessCoordinator.pathsOverlap_self _

variable (invariant : Invariant calls sha256 chunkSize system) (positive : 0 < chunkSize) (apart : Apart calls)
include invariant positive apart

theorem goes (i : Fin n) : AssetCall.Goes sha256 chunkSize (calls i) (system.abandoned i) system.volume (system.phase i)
    ((calls i).next sha256 chunkSize system.volume (system.phase i)) :=
  AssetCall.goes_next (apart.plain i) invariant.tree positive (invariant.valid i) invariant.vouched (invariant.knows i)

theorem step_next (i : Fin n) : Invariant calls sha256 chunkSize (system.step calls sha256 chunkSize (.next i)) := by
  unfold step
  dsimp only
  split
  · exact invariant
  · rename_i free
    have going := goes invariant positive apart i
    have alone : ∀ j, j ≠ i → ((calls i).next sha256 chunkSize system.volume (system.phase i)).2.locks = true →
        (system.phase j).locks = true → (calls i).checksum ≠ (calls j).checksum := by
      intro j different locked locked' same
      rcases AssetCall.locks_next locked with already | ⟨actual, waits⟩
      · exact invariant.alone i j different.symm already locked' same
      · exact free (blocked_of_locks different.symm waits locked' same)
    refine ⟨going.effect.tree, going.vouched invariant.vouched, fun j => ?_, fun j going' => ?_, fun j k different locked locked' => ?_⟩
    · dsimp only
      by_cases mine : j = i
      · subst mine
        rw [Function.update_self]
        exact going.knows
      · rw [Function.update_of_ne mine]
        refine (invariant.knows j).spared going.effect (fun label member own => AssetCall.own_parts own member) ?_ ?_
        · intro label own
          exact ⟨AssetCall.own_apart (apart.uuid j i mine) (apart.streamUuid j i mine) own, AssetCall.own_unadded (invariant.valid i) own⟩
        · -- Only a call that holds the lock of the asset publishes it.
          intro actual publishing
          have knows := invariant.knows j
          rw [publishing] at knows
          obtain ⟨⟨-, ino, content, keeps, -⟩, free'⟩ := knows
          obtain ⟨directory, reached, -, -⟩ := keeps.1.entry
          have named := plain_of_isHash (invariant.valid j (by rw [publishing]; rfl))
          refine going.effect.free (fun label member own => AssetCall.own_parts own member)
            (fun own => named.2.2.1 (AssetCall.own_dot own)) ?_ reached free'
          rintro (part | ⟨same, actual', publishing'⟩)
          · exact named.2.2.2 part
          · exact invariant.alone j i mine (by rw [publishing]; rfl) (by rw [publishing']; rfl) same
    · dsimp only at going'
      by_cases mine : j = i
      · subst mine
        rw [Function.update_self] at going'
        exact invariant.valid j (AssetCall.isSettled_next going')
      · rw [Function.update_of_ne mine] at going'
        exact invariant.valid j going'
    · dsimp only at locked locked'
      by_cases mine : j = i
      · subst mine
        rw [Function.update_self] at locked
        rw [Function.update_of_ne different.symm] at locked'
        exact alone k different.symm locked locked'
      · rw [Function.update_of_ne mine] at locked
        by_cases mine' : k = i
        · subst mine'
          rw [Function.update_self] at locked'
          exact fun same => alone j mine locked' locked same.symm
        · rw [Function.update_of_ne mine'] at locked'
          exact invariant.alone j k different locked locked'

omit positive apart in
theorem step_fail (i : Fin n) (failure : Failure) : Invariant calls sha256 chunkSize (system.step calls sha256 chunkSize (.fail i failure)) := by
  refine ⟨invariant.tree, invariant.vouched, fun j => ?_, fun j going => ?_, fun j k different locked locked' => ?_⟩
  · by_cases mine : j = i
    · subst mine
      have failed := (invariant.knows j).fail failure
      unfold step
      dsimp only
      rw [Function.update_self, Function.update_self]
      exact failed
    · unfold step
      dsimp only
      rw [Function.update_of_ne mine, Function.update_of_ne mine]
      exact invariant.knows j
  · by_cases mine : j = i
    · subst mine
      unfold step at going
      dsimp only at going
      rw [Function.update_self] at going
      exact invariant.valid j (AssetPhase.isSettled_fail going)
    · unfold step at going
      dsimp only at going
      rw [Function.update_of_ne mine] at going
      exact invariant.valid j going
  · unfold step at locked locked'
    dsimp only at locked locked'
    have unlocked : ∀ j, (Function.update system.phase i ((system.phase i).fail failure) j).locks = true → (system.phase j).locks = true := by
      intro j locked
      by_cases mine : j = i
      · subst mine
        rw [Function.update_self, AssetPhase.locks_fail] at locked
        cases locked
      · rwa [Function.update_of_ne mine] at locked
    exact invariant.alone j k different (unlocked j locked) (unlocked k locked')

theorem step_invariant (action : Action n) : Invariant calls sha256 chunkSize (system.step calls sha256 chunkSize action) := by
  cases action with
  | next i => exact step_next invariant positive apart i
  | fail i failure => exact step_fail invariant i failure

/-- An asset is not changed. -/
theorem step_kept (action : Action n) : AssetsKept system.volume (system.step calls sha256 chunkSize action).volume := by
  cases action with
  | fail i failure => exact .refl system.volume
  | next i =>
    unfold step
    dsimp only
    split
    · exact .refl system.volume
    · have effect := (goes invariant positive apart i).effect
      intro hash ino valid found
      have other {label : Text} (own : (calls i).Own label) (same : label = hash) : False :=
        (plain_of_isHash valid).2.2.1 (same ▸ AssetCall.own_dot own)
      have within := invariant.tree.walk_le (by rw [← AgentFS.resolvePath_eq]; exact found)
      rw [resolvePath_assetPath valid] at found ⊢
      refine ⟨effect.inAssets (fun label member own => AssetCall.own_parts own member) (fun own => other own rfl) found, ?_⟩
      refine effect.nodes ino within fun parent label led own => ?_
      obtain ⟨directory, -, here⟩ := Option.bind_eq_some_iff.mp found
      exact other own ((AssetCall.alone_of ((invariant.knows i).leaves own) parent ino led) directory hash here).1.symm

omit invariant positive apart in
theorem start_invariant (tree : volume.DirectoryTree) (vouched : Vouched sha256 chunkSize volume)
    (unused : ∀ i, volume.Absent (calls i).stream.uploadName ∧ volume.Absent (calls i).uploadName) :
    Invariant calls sha256 chunkSize (.start calls volume) := by
  have begun (i : Fin n) : (isHash (calls i).checksum = true ∧ (calls i).start = .making assetDirectories) ∨
      ∃ failure, (calls i).start = .rejected failure := by
    unfold AssetCall.start
    cases validated : validateAssetHash (calls i).rawHash with
    | error failure => exact .inr ⟨failure, rfl⟩
    | ok hash =>
      unfold validateAssetHash at validated
      dsimp only at validated
      obtain ⟨_, passed, -⟩ := bind_eq_ok.mp validated
      exact .inl ⟨by simpa [AssetCall.checksum] using refuse_eq_ok.mp passed, rfl⟩
  refine ⟨tree, vouched, fun i => ?_, fun i going => ?_, fun i j different locked => ?_⟩
  · change (calls i).Knows sha256 chunkSize volume false (calls i).start
    rcases begun i with ⟨-, same⟩ | ⟨failure, same⟩
    · rw [same]
      exact ⟨fun _ member => member, unused i⟩
    · rw [same]
      exact ⟨.inl (unused i).1, .inl (unused i).2, fun _ => unused i⟩
  · rcases begun i with ⟨valid, -⟩ | ⟨failure, same⟩
    · exact valid
    · rw [show (AssetSystem.start calls volume).phase i = .rejected failure from same] at going
      cases going
  · change (calls i).start.locks = true at locked
    rcases begun i with ⟨-, same⟩ | ⟨failure, same⟩
    · rw [same] at locked
      cases locked
    · rw [same] at locked
      cases locked

/-- What a run keeps, from any state of the calls that is kept. -/
theorem run_kept (actions : List (Action n)) :
    Invariant calls sha256 chunkSize (run (step calls sha256 chunkSize) system actions) ∧
      AssetsKept system.volume (run (step calls sha256 chunkSize) system actions).volume := by
  induction actions generalizing system with
  | nil => exact ⟨invariant, .refl system.volume⟩
  | cons action actions ih =>
    obtain ⟨invariant', kept⟩ := ih (step_invariant invariant positive apart action)
    exact ⟨invariant', (step_kept invariant positive apart action).trans kept⟩

omit invariant in
/-- In whatever order the calls go on and whatever fails, every asset has the digest that is its name, no asset is
changed, and a call that has settled leaves no temporary file, unless its removal has failed. -/
theorem putAsset_correct (tree : volume.DirectoryTree) (vouched : Vouched sha256 chunkSize volume)
    (unused : ∀ i, volume.Absent (calls i).stream.uploadName ∧ volume.Absent (calls i).uploadName) (actions more : List (Action n)) :
    let reached := run (step calls sha256 chunkSize) (start calls volume) actions
    Vouched sha256 chunkSize reached.volume ∧
      AssetsKept reached.volume (run (step calls sha256 chunkSize) reached more).volume ∧
      ∀ i, (reached.phase i).isSettled = true → reached.abandoned i = false →
        reached.volume.Absent (calls i).stream.uploadName ∧ reached.volume.Absent (calls i).uploadName := by
  have invariant := (run_kept (start_invariant tree vouched unused) positive apart actions).1
  refine ⟨invariant.vouched, (run_kept invariant positive apart more).2, fun i settled clean => ?_⟩
  have knows := invariant.knows i
  cases phase : (run (step calls sha256 chunkSize) (start calls volume) actions).phase i with
  | resolved info =>
    rw [phase] at knows
    exact knows
  | rejected failure =>
    rw [phase] at knows
    exact knows.2.2 clean
  | _ =>
    rw [phase] at settled
    cases settled

end AssetSystem

/-! Two calls put one asset, turn by turn. -/

def sampleAsset (uuid : Text) : AssetCall where
  rawHash := List.replicate 64 'a'
  body := some ⟨[[1]], none⟩
  uuid := uuid
  streamUuid := uuid

def sampleDigest (_ : Bytes) : Text := List.replicate 64 'a'

def samplePair (i : Fin 2) : AssetCall := sampleAsset (if i = 0 then ['0'] else ['1'])

def pairActions : List (AssetSystem.Action 2) := (List.replicate 24 [.next 0, .next 1]).flatten

theorem samplePair_apart : AssetSystem.Apart samplePair where
  plain := Fin.forall_fin_two.mpr ⟨⟨by decide, by decide⟩, ⟨by decide, by decide⟩⟩
  uuid := by decide
  streamUuid := by decide

theorem fresh_vouched : Vouched sampleDigest 4 (Volume.fresh 0) := by
  intro hash ino valid found
  rw [resolvePath_assetPath valid] at found
  cases found

theorem freshTree : (Volume.fresh 0).DirectoryTree :=
  .of_entries (by decide) (by decide) (by decide) (by decide) (by decide) (by decide) (by decide)

theorem putAsset_correct_pair :
    let reached := run (AssetSystem.step samplePair sampleDigest 4) (.start samplePair (Volume.fresh 0)) pairActions
    (∀ i, (reached.phase i).isSettled = true) ∧
      ∀ i, reached.volume.Absent (samplePair i).stream.uploadName ∧ reached.volume.Absent (samplePair i).uploadName := by
  have final : ∀ i, ((run (AssetSystem.step samplePair sampleDigest 4) (.start samplePair (Volume.fresh 0)) pairActions).phase i).isSettled = true ∧
      (run (AssetSystem.step samplePair sampleDigest 4) (.start samplePair (Volume.fresh 0)) pairActions).abandoned i = false := by
    decide +kernel
  exact ⟨fun i => (final i).1, fun i => (AssetSystem.putAsset_correct (by decide) samplePair_apart freshTree fresh_vouched
    (fun _ => ⟨fun _ => rfl, fun _ => rfl⟩) pairActions []).2.2 i (final i).1 (final i).2⟩

/-- The stream of a call breaks off, and the removal of its temporary file fails. -/
def brokenActions : List (AssetSystem.Action 1) :=
  List.replicate 8 (.next 0) ++ [.fail 0 (.error "stream failed"), .fail 0 (.error "rm failed"), .next 0]

theorem putAsset_leaves_file : ¬∀ (sha256 : Bytes → Text) (chunkSize n : Nat) (calls : Fin n → AssetCall) (volume : Volume)
    (actions : List (AssetSystem.Action n)), 0 < chunkSize → AssetSystem.Apart calls → volume.DirectoryTree →
    Vouched sha256 chunkSize volume →
    (∀ i, volume.Absent (calls i).stream.uploadName ∧ volume.Absent (calls i).uploadName) →
    (∀ i, ((run (AssetSystem.step calls sha256 chunkSize) (.start calls volume) actions).phase i).isSettled = true) →
    ∀ i, (run (AssetSystem.step calls sha256 chunkSize) (.start calls volume) actions).volume.Absent (calls i).stream.uploadName ∧
      (run (AssetSystem.step calls sha256 chunkSize) (.start calls volume) actions).volume.Absent (calls i).uploadName := by
  intro claim
  have absent := claim sampleDigest 4 1 (fun _ => sampleAsset ['0']) (Volume.fresh 0) brokenActions (by decide)
    ⟨fun _ => ⟨by decide, by decide⟩, fun i j different => (different (Subsingleton.elim i j)).elim,
      fun i j different => (different (Subsingleton.elim i j)).elim⟩
    freshTree fresh_vouched (fun _ => ⟨fun _ => rfl, fun _ => rfl⟩) (by decide) 0
  have left : (run (AssetSystem.step (fun _ : Fin 1 => sampleAsset ['0']) sampleDigest 4)
      (.start (fun _ => sampleAsset ['0']) (Volume.fresh 0)) brokenActions).volume.child 4 (sampleAsset ['0']).stream.uploadName = some 5 := by
    decide
  cases (absent.1 4).symm.trans left

end AiryFS
