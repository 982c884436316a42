import AiryFS.Files.WriteRequests
import AiryFS.Contents.FileBytes

/-! Sessions replayed one by one, in the order in which they opened their files.

Where only the last session on an inode may still write, what the sessions did between each
other is what they do when each of them writes all its pieces before the next one begins.
-/

set_option autoImplicit false

namespace AiryFS

open Foundation

namespace FileBytes

variable {file : AgentFSFile} {bytes : FileBytes}

/-- Buffers written one behind the other. -/
def writeAll (file : AgentFSFile) : FileBytes → Nat → List Bytes → FileBytes
  | bytes, _, [] => bytes
  | bytes, position, piece :: pieces => writeAll file (bytes.pwrite file position piece) (position + piece.length) pieces

theorem writeAll_concat (file : AgentFSFile) (bytes : FileBytes) (position : Nat) (pieces : List Bytes) (piece : Bytes) :
    writeAll file bytes position (pieces ++ [piece]) =
      (writeAll file bytes position pieces).pwrite file (position + pieces.flatten.length) piece := by
  induction pieces generalizing bytes position with
  | nil => rfl
  | cons first pieces ih =>
    rw [List.cons_append, writeAll, ih, writeAll, List.flatten_cons, List.length_append, Nat.add_assoc]

theorem size_pwrite (bytes : FileBytes) (offset : Nat) (data : Bytes) :
    bytes.size.getD 0 ≤ (bytes.pwrite file offset data).size.getD 0 := by
  unfold pwrite
  split
  · exact le_refl _
  · cases bytes.size with
    | none => exact le_refl _
    | some size => exact Nat.le_max_left _ _

theorem size_writeAll (bytes : FileBytes) (position : Nat) (pieces : List Bytes) :
    bytes.size.getD 0 ≤ (writeAll file bytes position pieces).size.getD 0 := by
  induction pieces generalizing bytes position with
  | nil => exact le_refl _
  | cons piece pieces ih => exact le_trans (bytes.size_pwrite position piece) (ih _ _)

end FileBytes

namespace WriteSession

/-- The pieces that the session has written, written again from where they belong. -/
def replay (session : WriteSession) (files : Int → FileBytes) : Int → FileBytes :=
  let bytes := files session.file.ino
  Function.update files session.file.ino (bytes.writeAll session.file (session.request.offset (bytes.size.getD 0))
    (session.request.pieces.take session.written))

/-- How far a session is, given the file as the sessions before it left it. -/
structure Progress (session : WriteSession) (bytes : FileBytes) : Prop where
  opened : session.phase = .opened → session.written = 0
  writing : ∀ position remaining, session.phase = .writing position remaining →
    remaining = session.request.pieces.drop session.written ∧
      position = session.start + (session.request.pieces.take session.written).flatten.length
  started : 0 < session.written ∨ (∃ position remaining, session.phase = .writing position remaining) →
    session.start = session.request.offset (bytes.size.getD 0) ∧
      ∀ path data, session.request = .append path data → bytes.size = some session.start
  complete : session.phase = .finished true → session.request.pieces.length ≤ session.written

/-- An append whose data was written. -/
def Appended (session : WriteSession) (data : Bytes) : Prop :=
  (∃ path, session.request = .append path data) ∧ 0 < session.written

end WriteSession

def replayAll (files : Int → FileBytes) (sessions : List WriteSession) : Int → FileBytes :=
  sessions.foldl (fun files session => session.replay files) files

/-- Every session is as far as its predecessors allow. -/
def Traced : (Int → FileBytes) → List WriteSession → Prop
  | _, [] => True
  | files, session :: sessions => session.Progress (files session.file.ino) ∧ Traced (session.replay files) sessions

section Replay

variable {files : Int → FileBytes}

theorem replayAll_append (files : Int → FileBytes) (first second : List WriteSession) :
    replayAll files (first ++ second) = replayAll (replayAll files first) second := List.foldl_append

theorem traced_append {first second : List WriteSession} :
    Traced files (first ++ second) ↔ Traced files first ∧ Traced (replayAll files first) second := by
  induction first generalizing files with
  | nil => simp [Traced, replayAll]
  | cons session sessions ih =>
    rw [List.cons_append, Traced, Traced, ih, and_assoc]
    rfl

theorem replay_self (session : WriteSession) (files : Int → FileBytes) : session.replay files session.file.ino =
    (files session.file.ino).writeAll session.file (session.request.offset ((files session.file.ino).size.getD 0))
      (session.request.pieces.take session.written) := Function.update_self ..

theorem replay_of_ne {session : WriteSession} {ino : Int} (different : ino ≠ session.file.ino) :
    session.replay files ino = files ino := Function.update_of_ne different ..

/-- A session on another inode does not see a change. -/
theorem replay_update {session : WriteSession} {ino : Int} (apart : session.file.ino ≠ ino) (bytes : FileBytes) :
    session.replay (Function.update files ino bytes) = Function.update (session.replay files) ino bytes := by
  unfold WriteSession.replay
  dsimp only
  rw [Function.update_of_ne apart, Function.update_comm apart]

theorem replayAll_update {sessions : List WriteSession} {ino : Int} (apart : ∀ session ∈ sessions, session.file.ino ≠ ino)
    (bytes : FileBytes) : replayAll (Function.update files ino bytes) sessions =
      Function.update (replayAll files sessions) ino bytes := by
  induction sessions generalizing files with
  | nil => rfl
  | cons session sessions ih =>
    change replayAll (session.replay _) sessions = Function.update (replayAll (session.replay files) sessions) ino bytes
    rw [replay_update (apart session List.mem_cons_self), ih fun other member => apart other (List.mem_cons_of_mem _ member)]

theorem traced_update {sessions : List WriteSession} {ino : Int} (apart : ∀ session ∈ sessions, session.file.ino ≠ ino)
    (bytes : FileBytes) : Traced (Function.update files ino bytes) sessions ↔ Traced files sessions := by
  induction sessions generalizing files with
  | nil => exact Iff.rfl
  | cons session sessions ih =>
    have different := apart session List.mem_cons_self
    rw [Traced, Traced, Function.update_of_ne different, replay_update different,
      ih fun other member => apart other (List.mem_cons_of_mem _ member)]

theorem replay_of_none {session : WriteSession} (nothing : session.written = 0) : session.replay files = files := by
  unfold WriteSession.replay
  dsimp only
  rw [nothing, List.take_zero]
  exact Function.update_eq_self _ _

/-- An append that was written ends at the size that it leaves. -/
theorem size_replay_appended {session : WriteSession} {data : Bytes} (appended : session.Appended data)
    (progress : session.Progress (files session.file.ino)) :
    (files session.file.ino).size = some session.start ∧
      session.start + data.length ≤ (session.replay files session.file.ino).size.getD 0 := by
  obtain ⟨⟨path, request⟩, written⟩ := appended
  have size := (progress.started (.inl written)).2 path data request
  refine ⟨size, ?_⟩
  rw [replay_self, request, size]
  change _ ≤ (FileBytes.writeAll session.file _ session.start (List.take _ (if data.length = 0 then [] else [data]))).size.getD 0
  split
  · rename_i empty
    rw [List.take_nil, FileBytes.writeAll, size, empty]
    exact le_refl _
  · rename_i filled
    rw [List.take_of_length_le written, FileBytes.writeAll, FileBytes.writeAll, FileBytes.pwrite, if_neg filled, size]
    exact Nat.le_max_right _ _

theorem size_replayAll (files : Int → FileBytes) (sessions : List WriteSession) (ino : Int) :
    (files ino).size.getD 0 ≤ (replayAll files sessions ino).size.getD 0 := by
  induction sessions generalizing files with
  | nil => exact le_refl _
  | cons session sessions ih =>
    refine le_trans ?_ (ih (session.replay files))
    by_cases same : ino = session.file.ino
    · rw [same, replay_self]
      exact FileBytes.size_writeAll _ _ _
    · rw [replay_of_ne same]

end Replay

/-- The sessions account for the volume, and only the last one on an inode may still write. -/
structure Replayed (start volume : Volume) (sessions : List WriteSession) : Prop where
  bytes : volume.fileBytes = replayAll start.fileBytes sessions
  traced : Traced start.fileBytes sessions
  alone : sessions.Pairwise fun earlier later => earlier.file.ino = later.file.ino → earlier.busy = false

/-- Of two appends to a file the later one begins at or after the end of the earlier one. -/
theorem appended_apart {files : Int → FileBytes} {sessions : List WriteSession} (traced : Traced files sessions) :
    sessions.Pairwise fun earlier later => earlier.file.ino = later.file.ino → ∀ first second,
      earlier.Appended first → later.Appended second → earlier.start + first.length ≤ later.start := by
  induction sessions generalizing files with
  | nil => exact List.Pairwise.nil
  | cons session sessions ih =>
    refine List.pairwise_cons.mpr ⟨?_, ih traced.2⟩
    intro later member same first second written again
    obtain ⟨before, after, spelled⟩ := List.append_of_mem member
    have rest := traced.2
    rw [spelled] at rest
    have progress := (traced_append.mp rest).2.1
    have begins := (size_replay_appended again progress).1
    have ends := (size_replay_appended written traced.1).2
    have grows := size_replayAll (session.replay files) before later.file.ino
    rw [begins, ← same] at grows
    exact le_trans ends grows

namespace Replayed

variable {start volume volume' : Volume} {sessions before after : List WriteSession} {session session' : WriteSession}

/-- One more session, which has written nothing yet. -/
theorem append (replayed : Replayed start volume sessions) (nothing : session.written = 0)
    (progress : session.Progress (volume.fileBytes session.file.ino))
    (alone : ∀ other ∈ sessions, other.file.ino = session.file.ino → other.busy = false) :
    Replayed start volume (sessions ++ [session]) := by
  refine ⟨?_, ?_, ?_⟩
  · rw [replayAll_append, ← replayed.bytes]
    exact (replay_of_none nothing).symm
  · rw [traced_append, ← replayed.bytes]
    exact ⟨replayed.traced, progress, trivial⟩
  · refine List.pairwise_append.mpr ⟨replayed.alone, List.pairwise_singleton _ _, ?_⟩
    intro other member last same
    rw [List.mem_singleton.mp same]
    exact alone other member

/-- While a session is not finished, no later one is on its inode. -/
theorem last (replayed : Replayed start volume (before ++ session :: after)) (unfinished : session.busy = true) :
    ∀ other ∈ after, other.file.ino ≠ session.file.ino := by
  intro other member same
  have later := (List.pairwise_cons.mp (List.pairwise_append.mp replayed.alone).2.1).1 other member
  rw [later same.symm] at unfinished
  cases unfinished

/-- So its file is as it left it. -/
theorem current (replayed : Replayed start volume (before ++ session :: after)) (unfinished : session.busy = true) :
    volume.fileBytes session.file.ino = session.replay (replayAll start.fileBytes before) session.file.ino := by
  have apart := replayed.last unfinished
  have own : session.replay (replayAll start.fileBytes before) = Function.update (replayAll start.fileBytes before)
      session.file.ino (session.replay (replayAll start.fileBytes before) session.file.ino) := by
    unfold WriteSession.replay
    dsimp only
    rw [Function.update_self]
  rw [replayed.bytes, replayAll_append]
  change replayAll (session.replay (replayAll start.fileBytes before)) after _ = _
  rw [own, replayAll_update apart, Function.update_self, Function.update_self]

theorem progress (replayed : Replayed start volume (before ++ session :: after)) :
    session.Progress (replayAll start.fileBytes before session.file.ino) :=
  (traced_append.mp replayed.traced).2.1

/-- The unfinished session makes a step, and only its own file follows it. -/
theorem step (replayed : Replayed start volume (before ++ session :: after)) (unfinished : session.busy = true)
    (sameFile : session'.file = session.file)
    (others : ∀ ino, ino ≠ session.file.ino → volume'.fileBytes ino = volume.fileBytes ino)
    (own : volume'.fileBytes session.file.ino = session'.replay (replayAll start.fileBytes before) session.file.ino)
    (progress : session'.Progress (replayAll start.fileBytes before session.file.ino)) :
    Replayed start volume' (before ++ session' :: after) := by
  have apart := replayed.last unfinished
  -- What follows was traced from another state of the file, and does not look at it.
  have changed : ∀ some : WriteSession, some.file = session.file → some.replay (replayAll start.fileBytes before) =
      Function.update (replayAll start.fileBytes before) session.file.ino
        (some.replay (replayAll start.fileBytes before) session.file.ino) := by
    intro some same
    unfold WriteSession.replay
    dsimp only
    rw [same, Function.update_self]
  have traced := traced_append.mp replayed.traced
  refine ⟨?_, ?_, ?_⟩
  · funext ino
    rw [replayAll_append]
    change _ = replayAll (session'.replay (replayAll start.fileBytes before)) after ino
    rw [changed session' sameFile, replayAll_update apart]
    by_cases same : ino = session.file.ino
    · rw [same, Function.update_self, own]
    · rw [Function.update_of_ne same, others ino same, replayed.bytes, replayAll_append]
      change replayAll (session.replay (replayAll start.fileBytes before)) after ino = _
      rw [changed session rfl, replayAll_update apart, Function.update_of_ne same]
  · refine traced_append.mpr ⟨traced.1, ?_, ?_⟩
    · rw [sameFile]
      exact progress
    · have rest := traced.2.2
      rw [changed session rfl, traced_update apart] at rest
      rw [changed session' sameFile, traced_update apart]
      exact rest
  · have ordered := List.pairwise_append.mp replayed.alone
    have tail := List.pairwise_cons.mp ordered.2.1
    refine List.pairwise_append.mpr ⟨ordered.1, List.pairwise_cons.mpr ⟨?_, tail.2⟩, ?_⟩
    · intro other member same
      exact absurd (by rw [← sameFile]; exact same.symm) (apart other member)
    · intro earlier member later latest
      rcases List.mem_cons.mp latest with rfl | after
      · rw [sameFile]
        exact ordered.2.2 earlier member session List.mem_cons_self
      · exact ordered.2.2 earlier member later (List.mem_cons_of_mem _ after)

end Replayed

end AiryFS
