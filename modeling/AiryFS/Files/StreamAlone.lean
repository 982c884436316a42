import AiryFS.Files.ReplaceText
import AiryFS.Files.StreamSafety

/-! A file that is written by `writeFileStream` while nobody else does anything.

The path leads to a new inode then, with the mode and the owners of every new file. Whatever led to
the old inode beside the path still does.
-/

set_option autoImplicit false

namespace AiryFS

open Foundation

/-! ## What the rename leaves of the file it replaces -/

namespace AgentFS

variable {volume volume' : Volume} {ino newParentIno : Int} {newName oldPath newPath : Text}

theorem clearDestination_chunks {oldIsDir : Bool} (parent : resolveParent volume newPath = some (newParentIno, newName))
    (found : volume.child newParentIno newName = some ino) (linked : 2 ≤ getLinkCount volume ino)
    (cleared : clearDestination volume newPath newParentIno newName oldIsDir = .ok volume') : volume'.chunk? = volume.chunk? := by
  unfold clearDestination at cleared
  split at cleared
  · rw [← pure_eq_ok.mp cleared]
  · rename_i newIno resolved
    split at cleared
    · rw [← pure_eq_ok.mp cleared]
    · rename_i mode known
      obtain ⟨_, _, cleared⟩ := bind_eq_ok.mp cleared
      obtain ⟨_, _, cleared⟩ := bind_eq_ok.mp cleared
      obtain ⟨_, _, cleared⟩ := bind_eq_ok.mp cleared
      rw [resolvePath_of_parent parent] at resolved
      obtain rfl : newIno = ino := Option.some.inj (resolved.symm.trans found)
      obtain ⟨feed, erased⟩ := volume.deleteDentry_eq newParentIno newName
      rw [← pure_eq_ok.mp cleared]
      unfold removeDentryAndMaybeInode
      rw [erased]
      dsimp only
      rw [if_neg]
      · rfl
      · -- One link is left, at least.
        rintro ⟨none_, _⟩
        rw [getInodeMode, Option.map_eq_some_iff] at known
        obtain ⟨row, stored, _⟩ := known
        have numbered : row.ino = newIno := volume.inode.find?_key stored
        rw [getLinkCount, stored] at linked
        have here : Volume.inode? { volume with dentry := volume.dentry.erase (newParentIno, newName), feed } newIno = some row := stored
        rw [getLinkCount, Volume.inode?_updateInode, here, Option.map_some, Volume.changeRow, if_pos numbered] at none_
        dsimp only at linked none_
        omega

theorem rename_spares (renamed : rename volume oldPath newPath = .ok volume')
    (target : resolveParent volume newPath = some (newParentIno, newName))
    (found : volume.child newParentIno newName = some ino) (linked : 2 ≤ getLinkCount volume ino) :
    volume'.chunk? ino = volume.chunk? ino := by
  unfold rename at renamed
  dsimp only at renamed
  split at renamed
  · rw [← pure_eq_ok.mp renamed]
  · obtain ⟨_, _, renamed⟩ := bind_eq_ok.mp renamed
    obtain ⟨old, _, renamed⟩ := bind_eq_ok.mp renamed
    obtain ⟨new, newParent, renamed⟩ := bind_eq_ok.mp renamed
    rw [required_eq_ok, resolveParent_normalizePath, target, Option.some.injEq] at newParent
    rw [← newParent] at renamed
    obtain ⟨⟨_, moving⟩, _, renamed⟩ := bind_eq_ok.mp renamed
    obtain ⟨mode, _, renamed⟩ := bind_eq_ok.mp renamed
    obtain ⟨_, _, renamed⟩ := bind_eq_ok.mp renamed
    obtain ⟨middle, cleared, renamed⟩ := bind_eq_ok.mp renamed
    obtain ⟨moved, ran, renamed⟩ := bind_eq_ok.mp renamed
    have kept := clearDestination_chunks (by rw [resolveParent_normalizePath]; exact target) found linked cleared
    obtain ⟨table, feed, _, rfl⟩ := Volume.moveDentry_ok middle ran
    dsimp only at renamed
    split at renamed <;>
      · rw [← pure_eq_ok.mp renamed]
        simp only [Volume.chunk?_modifyInode]
        exact congrFun kept ino

end AgentFS

namespace StreamSystem

open Volume

variable {stream : FileStream} {chunkSize : Nat} {state : StreamSystem} {origin volume' : Volume} {directory : Int} {name : Text}

/-! ## The end of the call -/

/-- An upper bound of the steps ahead. -/
def ahead (stream : FileStream) (state : StreamSystem) : Nat :=
  match state.phase with
  | .queueTemp => stream.pieces.length + 9
  | .stat => stream.pieces.length + 8
  | .create => stream.pieces.length + 7
  | .opening => stream.pieces.length + 6
  | .writing _ _ remaining => remaining.length + 5
  | .validate => 4
  | .queuePath => 3
  | .rename => 2
  | .cleanUp _ => 1
  | .resolved | .rejected _ => 0

theorem next_ahead (busy : state.finished = false) : (state.next stream chunkSize).ahead stream < state.ahead stream := by
  unfold next
  cases phase : state.phase with
  | queueTemp => simp [ahead, phase]
  | stat =>
    dsimp only
    split
    · simp [ahead, phase]
    · split <;> simp [ahead, phase]
  | create =>
    dsimp only
    split
    · simp [ahead, phase]
    · cases stream.body.isSome <;> simp [ahead, phase]
  | opening =>
    dsimp only
    split <;> simp [ahead, phase]
  | writing handle offset remaining =>
    cases remaining with
    | nil =>
      dsimp only
      split <;> simp [ahead, phase]
    | cons piece remaining =>
      dsimp only
      split <;> simp [ahead, phase]
  | validate =>
    dsimp only
    split <;> simp [ahead, phase]
  | queuePath => simp [ahead, phase]
  | rename =>
    dsimp only
    split <;> simp [ahead, phase]
  | cleanUp failure => simp [ahead, phase]
  | resolved =>
    rw [finished, phase] at busy
    cases busy
  | rejected failure =>
    rw [finished, phase] at busy
    cases busy

/-- A call that nobody interrupts comes to its end. -/
theorem alone_finished (stream : FileStream) (chunkSize : Nat) (volume : Volume) : (alone stream chunkSize volume).finished = true := by
  have ends : ∀ count (state : StreamSystem), state.ahead stream ≤ count →
      (state.run stream chunkSize (List.replicate count .next)).finished = true := by
    intro count
    induction count with
    | zero =>
      intro state few
      cases busy : state.finished with
      | true => exact busy
      | false =>
        have less := @next_ahead stream chunkSize state busy
        omega
    | succ count ih =>
      intro state few
      rw [List.replicate_succ]
      refine ih (state.next stream chunkSize) ?_
      cases busy : state.finished with
      | true =>
        rw [next_finished busy]
        have still := few
        unfold finished at busy
        unfold ahead
        split at busy
        · rename_i phase
          rw [phase]
          exact Nat.zero_le _
        · rename_i phase
          rw [phase]
          exact Nat.zero_le _
        · cases busy
      | false =>
        have less := @next_ahead stream chunkSize state busy
        omega
  refine ends _ _ ?_
  unfold start
  split
  · exact Nat.zero_le _
  · exact le_refl _

/-! ## The volume on the way -/

/-- Only the file of the call is new. -/
structure Alone (origin : Volume) (stream : FileStream) (chunkSize : Nat) (state : StreamSystem) : Prop where
  sound : state.Sound stream chunkSize
  fresh : state.made = none → state.volume = origin
  placed : ∀ ino, state.made = some ino → AgentFS.resolvePath state.volume stream.temp = some ino
  owned : ∀ ino, state.made = some ino → origin.inodeSequence < ino ∧
    (state.volume.inode? ino).map InodeRow.access = some (DEFAULT_FILE_MODE, 0, 0)
  children : ∀ parent label, label ≠ stream.uploadName → state.volume.child parent label = origin.child parent label
  nodes : ∀ other ≤ origin.inodeSequence, Untouched other origin state.volume

/-- The path leads to the new file, in place of another entry. -/
structure Replaced (origin : Volume) (stream : FileStream) (chunkSize : Nat) (directory : Int) (name : Text) (after : Volume)
    (ino : Int) : Prop where
  reached : AgentFS.resolvePath after stream.path = some ino
  fresh : origin.inodeSequence < ino
  stored : after.Stored chunkSize ino (.file stream.content)
  access : (after.inode? ino).map InodeRow.access = some (DEFAULT_FILE_MODE, 0, 0)
  children : ∀ parent label, label ≠ stream.uploadName →
    after.child parent label = if parent = directory ∧ label = name then some ino else origin.child parent label
  nodes : ∀ other ≤ origin.inodeSequence, origin.child directory name ≠ some other → SameNode other origin after
  spared : ∀ other, origin.child directory name = some other → 2 ≤ AgentFS.getLinkCount origin other →
    after.chunk? other = origin.chunk? other

namespace Alone

variable (alone : Alone origin stream chunkSize state) (missing : AgentFS.resolvePath origin stream.temp = none)

include alone

omit missing in
/-- Steps that only read. -/
theorem quiet {phase : StreamPhase} (sound : Sound stream chunkSize { state with phase }) :
    Alone origin stream chunkSize { state with phase } :=
  ⟨sound, alone.fresh, alone.placed, alone.owned, alone.children, alone.nodes⟩

include missing

theorem placed_ : state.Placed stream := by
  unfold Placed
  cases made : state.made with
  | none =>
    dsimp only
    rw [alone.fresh made]
    exact missing
  | some ino => exact .inl (alone.placed ino made)

theorem ready (going : ∀ failure, state.phase ≠ .cleanUp failure) : state.Ready stream := by
  have placed := alone.placed_ missing
  unfold Ready
  split
  · exact placed
  · exact placed
  · exact placed
  · rename_i failure phase
    exact absurd phase (going failure)
  · trivial

/-- The new file comes up with what every new file has. -/
theorem creates (unguessed : stream.Unguessed) (above : AgentFS.resolveParent origin stream.path = some (directory, name))
    (creating : state.phase = .create) (written : AgentFS.writeFile state.volume chunkSize stream.temp [] = .ok volume')
    (sound : Sound stream chunkSize {
      volume := volume'
      phase := if stream.body.isSome then .opening else .validate
      made := AgentFS.resolvePath volume' stream.temp }) : Alone origin stream chunkSize {
        volume := volume'
        phase := if stream.body.isSome then .opening else .validate
        made := AgentFS.resolvePath volume' stream.temp } := by
  have none_ : state.made = none := by
    cases made : state.made with
    | none => rfl
    | some ino =>
      obtain ⟨_, label, parent, _, _, found⟩ := named_of_resolve (alone.placed ino made) (alone.sound.known ino made).1.ne'
      obtain ⟨_, _, held⟩ := alone.sound.filled ino made ⟨parent, label, found⟩
      rw [Filled, creating] at held
      exact held.elim
  have same := alone.fresh none_
  rw [same] at written
  obtain ⟨parts, spelled, walked⟩ := AgentFS.resolveParent_eq_some.mp above
  -- The directory of the path is that of the hidden name.
  have beside : fields '/' stream.parent = parts := by
    rcases FileStream.fields_path alone.sound.valid with root | ⟨label, shape⟩
    · rw [spelled] at root
      simp at root
    · rw [spelled] at shape
      exact (List.append_inj' shape rfl).1.symm
  have place := unguessed.fields_temp
  rw [beside] at place
  have source : AgentFS.resolveParent origin stream.temp = some (directory, stream.uploadName) :=
    AgentFS.resolveParent_eq_some.mpr ⟨parts, place, walked⟩
  have free : origin.child directory stream.uploadName = none := by
    rw [AgentFS.resolvePath_of_parent source] at missing
    exact missing
  obtain ⟨ino, adds, _, access⟩ := writeFile_adds source free written
  have children : ∀ parent label, label ≠ stream.uploadName → volume'.child parent label = origin.child parent label := by
    intro parent label other
    rw [adds.child, if_neg fun here => other here.2]
  have apart : stream.uploadName ∉ parts := fun member => unguessed.apart (by rw [spelled]; exact List.mem_append_left _ member)
  have made : AgentFS.resolvePath volume' stream.temp = some ino := by
    rw [AgentFS.resolvePath_eq, place, walk_concat, walk_of_label children apart, walked, Option.bind_some, adds.child,
      if_pos ⟨rfl, rfl⟩]
  have fresh := adds.fresh
  refine ⟨sound, fun other => ?_, fun other found => found, fun other found => ?_, children, adds.untouched⟩
  · rw [made] at other
    cases other
  · obtain rfl := Option.some.inj (made.symm.trans found)
    exact ⟨by omega, access⟩

omit missing in
/-- A write changes nothing but the new file. -/
theorem writes {handle : AgentFSFile} {offset : Nat} {piece : Bytes} {remaining : List Bytes}
    (writing : state.phase = .writing handle offset (piece :: remaining)) (written : handle.pwrite state.volume offset piece = .ok volume')
    (sound : Sound stream chunkSize { state with volume := volume', phase := .writing handle (offset + piece.length) remaining }) :
    Alone origin stream chunkSize { state with volume := volume', phase := .writing handle (offset + piece.length) remaining } := by
  obtain ⟨made, _⟩ := alone.sound.handle _ _ _ writing
  obtain ⟨touches, _⟩ := AgentFSFile.pwrite_touches written
  obtain ⟨late, access⟩ := alone.owned _ made
  have children := child_congr touches.dentry
  refine ⟨sound, fun none_ => ?_, fun ino same => ?_, fun ino same => ?_, fun parent label other => ?_, fun other old => ?_⟩
  · exact absurd (made.symm.trans none_) nofun
  · rw [AgentFS.resolvePath_eq, touches.walks, ← AgentFS.resolvePath_eq]
    exact alone.placed ino same
  · obtain rfl := Option.some.inj (made.symm.trans same)
    exact ⟨late, (AgentFSFile.pwrite_kept (fun _ _ _ => rfl) written).trans access⟩
  · dsimp only
    rw [children]
    exact alone.children parent label other
  · exact (alone.nodes other old).trans (touches.untouched (by omega))

/-- The rename puts the new file in place of the old one. -/
theorem exchanges (unguessed : stream.Unguessed) (tree : origin.DirectoryTree)
    (above : AgentFS.resolveParent origin stream.path = some (directory, name)) (moving : state.phase = .rename)
    (renamed : AgentFS.rename state.volume stream.temp stream.path = .ok volume') :
    ∃ ino, Replaced origin stream chunkSize directory name volume' ino := by
  obtain ⟨ino, parent, newParent, label, pieces, made, shape, reached, apart, other, unlike, stored, moves⟩ :=
    alone.sound.exchanges unguessed moving (alone.placed_ missing) renamed
  obtain ⟨parts, spelled, walked⟩ := AgentFS.resolveParent_eq_some.mp above
  obtain ⟨rfl, same⟩ := List.append_inj' (shape.symm.trans spelled) rfl
  obtain rfl := List.singleton_inj.mp same
  have target : newParent = directory := by
    rw [walk_of_label alone.children apart, walked] at reached
    exact (Option.some.inj reached).symm
  subst target
  obtain ⟨late, access⟩ := alone.owned ino made
  have led := alone.children newParent label other
  have within : ∀ number, origin.child newParent label = some number → number ≤ origin.inodeSequence := by
    intro number found
    exact tree.walk_le (by rw [walk_concat, walked, Option.bind_some, found])
  refine ⟨ino, ?_, late, (moves.nodes ino unlike).stored stored, ?_, ?_, ?_, ?_⟩
  · rw [AgentFS.resolvePath_eq, shape, walk_concat, walk_moved alone.sound.tree moves apart reached pieces List.prefix_rfl, reached,
      Option.bind_some, moves.children, if_pos ⟨rfl, rfl⟩]
  · have rows := congrArg (Option.map InodeRow.access) (moves.nodes ino unlike).row
    rw [Option.map_map, Option.map_map] at rows
    exact rows.trans access
  · intro holder entry different
    rw [moves.children, if_neg (show ¬(holder = parent ∧ entry = stream.uploadName) from fun here => different here.2),
      alone.children holder entry different]
  · intro number old elsewhere
    exact (alone.nodes number old).same.trans (moves.nodes number (by rw [led]; exact elsewhere))
  · intro number found linked
    have untouched := alone.nodes number (within number found)
    rw [← untouched.chunks]
    refine AgentFS.rename_spares renamed (AgentFS.resolveParent_eq_some.mpr ⟨pieces, shape, reached⟩) (led.trans found) ?_
    rw [AgentFS.getLinkCount, untouched.inode]
    exact linked

end Alone

/-! ## The run -/

/-- What is so of every state of the call. -/
def Going (origin : Volume) (stream : FileStream) (chunkSize : Nat) (directory : Int) (name : Text) (state : StreamSystem) : Prop :=
  match state.phase with
  | .cleanUp _ | .rejected _ => True
  | .resolved => ∃ ino, Replaced origin stream chunkSize directory name state.volume ino
  | _ => Alone origin stream chunkSize state

section Run

variable (positive : 0 < chunkSize) (unguessed : stream.Unguessed) (tree : origin.DirectoryTree)
  (above : AgentFS.resolveParent origin stream.path = some (directory, name))
  (missing : AgentFS.resolvePath origin stream.temp = none)

include positive unguessed tree above missing

omit tree above in
theorem next_sound (alone : Alone origin stream chunkSize state) (busy : state.finished = false)
    (going : ∀ failure, state.phase ≠ .cleanUp failure) (later : (state.next stream chunkSize).finished = false) :
    (state.next stream chunkSize).Sound stream chunkSize :=
  (alone.sound.progress positive unguessed busy (alone.ready missing going)).sound later

theorem next_going (going : Going origin stream chunkSize directory name state) :
    Going origin stream chunkSize directory name (state.next stream chunkSize) := by
  have sound := fun alone busy going later => @next_sound stream chunkSize state origin positive unguessed missing
    alone busy going later
  unfold next at sound ⊢
  unfold Going at going
  cases phase : state.phase with
  | queueTemp =>
    rw [phase] at going sound
    exact going.quiet (sound going (by rw [finished, phase]) (fun _ same => by cases same) rfl)
  | stat =>
    rw [phase] at going sound
    dsimp only at sound ⊢
    split at sound
    · trivial
    · split at sound
      · rename_i kind
        rw [if_pos kind]
        exact going.quiet (sound going (by rw [finished, phase]) (fun _ same => by cases same) rfl)
      · rename_i other
        rw [if_neg other]
        trivial
  | create =>
    rw [phase] at going sound
    dsimp only at sound ⊢
    split at sound
    · trivial
    · rename_i volume written
      have made := going.creates missing unguessed above phase written
        (sound going (by rw [finished, phase]) (fun _ same => by cases same) (by unfold finished; cases stream.body.isSome <;> rfl))
      unfold Going
      dsimp only at made ⊢
      cases body : stream.body.isSome <;>
        · rw [body] at made
          exact made
  | opening =>
    rw [phase] at going sound
    dsimp only at sound ⊢
    split at sound
    · trivial
    · exact going.quiet (sound going (by rw [finished, phase]) (fun _ same => by cases same) rfl)
  | writing handle offset remaining =>
    rw [phase] at going sound
    cases remaining with
    | nil =>
      dsimp only at sound ⊢
      split at sound
      · trivial
      · exact going.quiet (sound going (by rw [finished, phase]) (fun _ same => by cases same) rfl)
    | cons piece remaining =>
      dsimp only at sound ⊢
      split at sound
      · trivial
      · rename_i volume written
        exact going.writes phase written (sound going (by rw [finished, phase]) (fun _ same => by cases same) rfl)
  | validate =>
    rw [phase] at going sound
    dsimp only at sound ⊢
    split at sound
    · trivial
    · exact going.quiet (sound going (by rw [finished, phase]) (fun _ same => by cases same) rfl)
  | queuePath =>
    rw [phase] at going sound
    exact going.quiet (sound going (by rw [finished, phase]) (fun _ same => by cases same) rfl)
  | rename =>
    rw [phase] at going sound
    dsimp only at sound ⊢
    split at sound
    · trivial
    · rename_i volume renamed
      exact going.exchanges missing unguessed tree above phase renamed
  | cleanUp failure => trivial
  | resolved =>
    rw [phase] at going
    unfold Going
    dsimp only
    rw [phase]
    exact going
  | rejected failure =>
    unfold Going
    dsimp only
    rw [phase]
    trivial

theorem run_going (count : Nat) (going : Going origin stream chunkSize directory name state) :
    Going origin stream chunkSize directory name (state.run stream chunkSize (List.replicate count .next)) := by
  induction count generalizing state with
  | zero => exact going
  | succ count ih =>
    rw [List.replicate_succ]
    exact ih (next_going positive unguessed tree above missing going)

/-- A call that resolves has put its file in place of what the path led to. -/
theorem alone_replaces (resolved : (alone stream chunkSize origin).phase = .resolved) :
    ∃ ino, Replaced origin stream chunkSize directory name (alone stream chunkSize origin).volume ino := by
  have started : Going origin stream chunkSize directory name (start stream origin) := by
    cases valid : stream.temporaryPath with
    | error failure =>
      unfold start Going
      rw [valid]
      trivial
    | ok temp =>
      have sound := @start_sound stream chunkSize origin tree (by unfold start; rw [valid]; rfl)
      unfold start at sound ⊢
      rw [valid] at sound ⊢
      exact ⟨sound, fun _ => rfl, nofun, nofun, fun _ _ _ => rfl, fun other _ => .refl other origin⟩
  have going : Going origin stream chunkSize directory name (alone stream chunkSize origin) :=
    run_going positive unguessed tree above missing (stream.pieces.length + 9) started
  unfold Going at going
  rw [resolved] at going
  exact going

end Run

end StreamSystem

end AiryFS
