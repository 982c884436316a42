import AiryFS.Files.Replay
import AiryFS.Files.FairLock

/-! Write requests happen one after the other, in the order in which they open their files.

The lock is on paths and the bytes belong to inodes. As long as no request opens an inode
that another one has open under a path that does not overlap its own, at most one request is
writing into each inode, and the volume is the one that replaying the sessions gives.
-/

set_option autoImplicit false

namespace AiryFS

open Foundation VolumeAccessCoordinator

namespace WriteRequest

/-- What the request queues with. -/
def waiter (request : WriteRequest) (id : Nat) : LockWaiter := ⟨id, .write, [normalizeLockPath request.path]⟩

theorem conflict_waiter {first second : WriteRequest} (id number : Nat) (overlap : Overlap first.path second.path) :
    Conflict (first.waiter id) (second.waiter number) := by
  refine ⟨.inl rfl, _, List.mem_singleton_self _, _, List.mem_singleton_self _, ?_⟩
  exact (overlap_normalizeLockPath _ _).mpr overlap

end WriteRequest

namespace WriteSession.Progress

variable {session : WriteSession} {bytes : FileBytes}

theorem fail (progress : session.Progress bytes) : Progress { session with phase := .finished false } bytes := by
  refine ⟨nofun, nofun, ?_, nofun⟩
  intro started
  apply progress.started
  rcases started with written | ⟨_, _, writing⟩
  · exact .inl written
  · cases writing

theorem succeed {position : Nat} (progress : session.Progress bytes) (writing : session.phase = .writing position []) :
    Progress { session with phase := .finished true } bytes := by
  refine ⟨nofun, nofun, fun _ => progress.started (.inr ⟨_, _, writing⟩), fun _ => ?_⟩
  exact List.drop_eq_nil_iff.mp (progress.writing _ _ writing).1.symm

theorem begin {size : Nat} (progress : session.Progress bytes) (opened : session.phase = .opened)
    (stored : bytes.size = some size) : Progress { session with
      phase := .writing (session.request.offset size) session.request.pieces
      start := session.request.offset size } bytes := by
  have nothing := progress.opened opened
  refine ⟨nofun, ?_, fun _ => ⟨by rw [stored]; rfl, ?_⟩, nofun⟩
  · intro position remaining writing
    cases writing
    refine ⟨?_, ?_⟩
    · change _ = session.request.pieces.drop session.written
      rw [nothing, List.drop_zero]
    · change _ = session.request.offset size + (session.request.pieces.take session.written).flatten.length
      rw [nothing]
      rfl
  · intro path data request
    change session.request = _ at request
    rw [stored, request]
    rfl

theorem write {position : Nat} {piece : Bytes} {remaining : List Bytes} (progress : session.Progress bytes)
    (writing : session.phase = .writing position (piece :: remaining)) : Progress { session with
      phase := .writing (position + piece.length) remaining
      written := session.written + 1 } bytes := by
  obtain ⟨rest, reached⟩ := progress.writing _ _ writing
  have next : session.request.pieces[session.written]? = some piece := by
    rw [← List.head?_drop, ← rest]
    rfl
  refine ⟨nofun, ?_, fun _ => progress.started (.inr ⟨_, _, writing⟩), nofun⟩
  intro _ _ now
  cases now
  refine ⟨?_, ?_⟩
  · change remaining = session.request.pieces.drop (session.written + 1)
    rw [← List.tail_drop, ← rest]
    rfl
  · change position + piece.length = session.start + (session.request.pieces.take (session.written + 1)).flatten.length
    rw [List.take_add_one, next, reached]
    simp [Nat.add_assoc]

end WriteSession.Progress

/-- The piece that a session writes is the next one of its replay. -/
theorem WriteSession.replay_write {session : WriteSession} {files : Int → FileBytes} {position : Nat} {piece : Bytes}
    {remaining : List Bytes} (progress : session.Progress (files session.file.ino))
    (writing : session.phase = .writing position (piece :: remaining)) :
    (session.replay files session.file.ino).pwrite session.file position piece =
      replay { session with
        phase := .writing (position + piece.length) remaining
        written := session.written + 1 } files session.file.ino := by
  obtain ⟨rest, reached⟩ := progress.writing _ _ writing
  have start := (progress.started (.inr ⟨_, _, writing⟩)).1
  have next : session.request.pieces[session.written]? = some piece := by
    rw [← List.head?_drop, ← rest]
    rfl
  change _ = Function.update files session.file.ino _ session.file.ino
  rw [Function.update_self, replay_self, List.take_add_one, next, Option.toList_some, FileBytes.writeAll_concat, ← start,
    ← reached]

namespace WriteSystem

variable {state : WriteSystem} {chunkSize : Nat}

/-- The numbers of all requests. -/
def ids (state : WriteSystem) : List Nat := state.calls.map (·.id) ++ state.sessions.map (·.id)

/-- Every request is queued, and holds its lock while it has its file open. -/
structure Locked (state : WriteSystem) : Prop where
  consistent : state.access.Consistent
  settled : state.access.queue.Settled Conflict
  waiting : ∀ call ∈ state.calls, call.request.waiter call.id ∈ state.access.pending
  holding : ∀ session ∈ state.sessions, session.busy = true → session.request.waiter session.id ∈ state.access.active
  numbered : state.ids.Nodup
  recent : ∀ id ∈ state.ids, id < state.access.requests

namespace Locked

/-- Two requests that hold locks at once have paths that do not overlap. -/
theorem apart (locked : state.Locked) {first second : WriteRequest} {id number : Nat} (different : id ≠ number)
    (holds : first.waiter id ∈ state.access.active) (beside : second.waiter number ∈ state.access.active) :
    ¬Overlap first.path second.path := by
  intro overlap
  have symmetric : Std.Symm fun first second => ¬Conflict first second :=
    ⟨fun _ _ apart conflict => apart (conflict_symm conflict)⟩
  refine List.Pairwise.forall locked.consistent.exclusive holds beside ?_ (WriteRequest.conflict_waiter id number overlap)
  intro same
  exact different (congrArg LockWaiter.id same)

/-- A request whose number holds, holds with its own path. -/
theorem granted (locked : state.Locked) {call : WriteCall} (called : call ∈ state.calls)
    (grant : state.access.active.any (fun waiter => waiter.id = call.id) = true) :
    call.request.waiter call.id ∈ state.access.active := by
  obtain ⟨holder, holds, same⟩ := List.any_eq_true.mp grant
  have queued := locked.waiting call called
  have equal : holder = call.request.waiter call.id :=
    List.inj_on_of_nodup_map locked.consistent.distinct (List.mem_append_left _ holds) queued (of_decide_eq_true same)
  rw [← equal]
  exact holds

theorem call_sessions (locked : state.Locked) {call : WriteCall} (called : call ∈ state.calls) {session : WriteSession}
    (open' : session ∈ state.sessions) : session.id ≠ call.id := by
  have disjoint := (List.nodup_append.mp locked.numbered).2.2
  exact (disjoint _ (List.mem_map_of_mem called) _ (List.mem_map_of_mem open')).symm

theorem erase_calls (locked : state.Locked) {call other : WriteCall} (called : call ∈ state.calls)
    (kept : other ∈ state.calls.erase call) : other ∈ state.calls ∧ other.id ≠ call.id := by
  have numbered := (List.nodup_append.mp locked.numbered).1
  have member := List.mem_of_mem_erase kept
  refine ⟨member, fun same => ?_⟩
  rw [List.inj_on_of_nodup_map numbered member called same] at kept
  exact List.Nodup.not_mem_erase (List.Nodup.of_map _ numbered) kept

end Locked

/-- What an operation of the lock leaves queued and held for the others. -/
theorem release_others {access : VolumeAccessCoordinator} (consistent : access.Consistent) {holder : LockWaiter}
    (holds : holder ∈ access.active) {other : LockWaiter} (different : other.id ≠ holder.id) :
    (other ∈ access.active → other ∈ (access.release holder.id).active) ∧
      (other ∈ access.pending → other ∈ (access.release holder.id).pending) := by
  obtain ⟨active, pending, _⟩ := release_keeps consistent holds
  have kept : ∀ {waiters : List LockWaiter}, other ∈ waiters → other ∈ waiters.erase holder := by
    intro waiters member
    refine (List.mem_erase_of_ne ?_).mpr member
    intro same
    exact different (congrArg LockWaiter.id same)
  refine ⟨fun member => active (kept member), fun member => pending.symm.subset ?_⟩
  rcases List.mem_append.mp member with held | waits
  · exact List.mem_append_left _ (kept held)
  · exact List.mem_append_right _ waits

/-! ## Replacing a session -/

theorem sessions_replace {before after : List WriteSession} {session session' : WriteSession}
    (spelled : state.sessions = before ++ session :: after) (numbered : state.ids.Nodup)
    (same : session'.id = session.id) : (state.replace session').sessions = before ++ session' :: after := by
  have distinct := (List.nodup_append.mp numbered).2.1
  rw [spelled, List.map_append, List.map_cons] at distinct
  obtain ⟨_, tail, across⟩ := List.nodup_append.mp distinct
  have others : ∀ part : List WriteSession, (∀ other ∈ part, other.id ≠ session.id) →
      part.map (fun other => if other.id = session'.id then session' else other) = part := by
    intro part apart
    rw [← List.map_id part, List.map_map]
    apply List.map_congr_left
    intro other member
    rw [Function.comp_apply, id_eq, same]
    exact if_neg (apart other member)
  change state.sessions.map _ = _
  rw [spelled, List.map_append, List.map_cons, if_pos same.symm, others before, others after]
  · intro other member equal
    exact (List.nodup_cons.mp tail).1 (by rw [← equal]; exact List.mem_map_of_mem member)
  · intro other member equal
    exact across _ (List.mem_map_of_mem member) _ List.mem_cons_self equal

theorem mem_replace {session' other : WriteSession} (member : other ∈ (state.replace session').sessions) :
    other = session' ∨ other ∈ state.sessions ∧ other.id ≠ session'.id := by
  obtain ⟨old, stored, result⟩ := List.mem_map.mp member
  split at result
  · exact .inl result.symm
  · rename_i different
    rw [← result]
    exact .inr ⟨stored, different⟩

theorem ids_replace (session' : WriteSession) : (state.replace session').ids = state.ids := by
  change state.calls.map _ ++ (state.sessions.map _).map _ = _
  rw [List.map_map, ids]
  congr 1
  apply List.map_congr_left
  intro other _
  rw [Function.comp_apply]
  split
  · rename_i same
    exact same.symm
  · rfl

/-- A session that goes on holds what it held. -/
theorem Locked.replace (locked : state.Locked) {session session' : WriteSession} (open' : session ∈ state.sessions)
    (busy : session.busy = true) (same : session'.id = session.id) (request : session'.request = session.request) :
    (state.replace session').Locked := by
  refine ⟨locked.consistent, locked.settled, locked.waiting, ?_, ?_, ?_⟩
  · intro other member still
    rcases mem_replace member with rfl | ⟨stored, _⟩
    · rw [request, same]
      exact locked.holding session open' busy
    · exact locked.holding other stored still
  · rw [ids_replace]
    exact locked.numbered
  · rw [ids_replace]
    exact locked.recent

theorem Locked.rewritten (locked : state.Locked) (volume : Volume) : Locked { state with volume } :=
  ⟨locked.consistent, locked.settled, locked.waiting, locked.holding, locked.numbered, locked.recent⟩

/-- One that ends gives back its lock. -/
theorem Locked.finish (locked : state.Locked) {session : WriteSession} (open' : session ∈ state.sessions)
    (busy : session.busy = true) (succeeded : Bool) : (state.finish session succeeded).Locked := by
  have holds := locked.holding session open' busy
  have next := step_fair (.release session.id) locked.consistent locked.settled
  refine ⟨next.1, next.2.1, ?_, ?_, ?_, ?_⟩
  · intro call called
    exact (release_others locked.consistent holds (locked.call_sessions called open').symm).2 (locked.waiting call called)
  · intro other member still
    rcases mem_replace member with rfl | ⟨stored, different⟩
    · cases still
    · exact (release_others locked.consistent holds different).1 (locked.holding other stored still)
  · rw [WriteSystem.finish, ids_replace]
    exact locked.numbered
  · rw [WriteSystem.finish, ids_replace]
    intro id member
    have kept : (state.access.release session.id).requests = state.access.requests := (release_keeps locked.consistent holds).2.2
    change id < (state.access.release session.id).requests
    rw [kept]
    exact locked.recent id member

/-! ## Calling and opening -/

theorem Locked.call (locked : state.Locked) (request : WriteRequest) : (state.call request).Locked := by
  unfold WriteSystem.call
  split
  · obtain ⟨active, pending, requests⟩ := acquire_keeps locked.consistent .write [request.path]
    have next := step_fair (.acquire .write [request.path]) locked.consistent locked.settled
    have fresh : ∀ id ∈ state.ids, id ≠ state.access.requests := fun id member => Nat.ne_of_lt (locked.recent id member)
    have numbers : ids { state with calls := state.calls ++ [⟨state.access.requests, request⟩] } =
        state.calls.map (·.id) ++ state.access.requests :: state.sessions.map (·.id) := by
      rw [ids, List.map_append, List.append_assoc]
      rfl
    refine ⟨next.1, next.2.1, ?_, ?_, ?_, ?_⟩
    · intro call called
      rcases List.mem_append.mp called with old | new
      · exact pending.symm.subset (List.mem_cons_of_mem _ (locked.waiting call old))
      · rw [List.mem_singleton.mp new]
        exact pending.symm.subset List.mem_cons_self
    · exact fun session open' busy => active (locked.holding session open' busy)
    · change (ids { state with calls := _ }).Nodup
      rw [numbers, List.perm_middle.nodup_iff, List.nodup_cons]
      exact ⟨fun member => fresh _ member rfl, locked.numbered⟩
    · intro id member
      change id ∈ ids { state with calls := _ } at member
      change id < (state.access.acquire .write [request.path]).requests
      rw [numbers, List.perm_middle.mem_iff, List.mem_cons] at member
      rw [requests]
      rcases member with rfl | old
      · exact Nat.lt_succ_self _
      · exact Nat.lt_succ_of_lt (locked.recent id old)
  · exact locked

/-- A file that does not open ends its request. -/
theorem Locked.refused (locked : state.Locked) {call : WriteCall} (called : call ∈ state.calls)
    (holds : call.request.waiter call.id ∈ state.access.active) :
    Locked { state with access := state.access.release call.id, calls := state.calls.erase call } := by
  have next := step_fair (.release call.id) locked.consistent locked.settled
  have fewer : (state.calls.erase call).map (·.id) ++ state.sessions.map (·.id) |>.Sublist state.ids :=
    (List.erase_sublist.map _).append_right _
  refine ⟨next.1, next.2.1, ?_, ?_, locked.numbered.sublist fewer, ?_⟩
  · intro other kept
    obtain ⟨member, different⟩ := locked.erase_calls called kept
    exact (release_others locked.consistent holds different).2 (locked.waiting other member)
  · intro session open' busy
    have different := locked.call_sessions called open'
    exact (release_others locked.consistent holds different).1 (locked.holding session open' busy)
  · intro id member
    have kept : (state.access.release call.id).requests = state.access.requests := (release_keeps locked.consistent holds).2.2
    change id < (state.access.release call.id).requests
    rw [kept]
    exact locked.recent id (fewer.subset member)

theorem Locked.opened (locked : state.Locked) {call : WriteCall} (called : call ∈ state.calls)
    (holds : call.request.waiter call.id ∈ state.access.active) (file : AgentFSFile) : Locked { state with
      calls := state.calls.erase call
      sessions := state.sessions ++ [opening call file] } := by
  have numbers : ((state.calls.erase call).map (·.id) ++ (state.sessions ++ [opening call file]).map (·.id)).Perm state.ids := by
    have moved : ((call :: state.calls.erase call).map (·.id)).Perm (state.calls.map (·.id)) :=
      ((List.perm_cons_erase called).map _).symm
    rw [List.map_append, ← List.append_assoc]
    exact List.perm_append_comm.trans (moved.append_right (state.sessions.map WriteSession.id))
  refine ⟨locked.consistent, locked.settled, ?_, ?_, numbers.nodup_iff.mpr locked.numbered, ?_⟩
  · exact fun other kept => locked.waiting other (locked.erase_calls called kept).1
  · intro session member busy
    rcases List.mem_append.mp member with old | new
    · exact locked.holding session old busy
    · rw [List.mem_singleton.mp new]
      exact holds
  · exact fun id member => locked.recent id (numbers.subset member)

theorem opening_progress (call : WriteCall) (file : AgentFSFile) (bytes : FileBytes) :
    (opening call file).Progress bytes := by
  obtain ⟨id, request⟩ := call
  cases request with
  | append path data => exact ⟨fun _ => rfl, nofun, by rintro (⟨⟨⟩⟩ | ⟨_, _, ⟨⟩⟩), nofun⟩
  | range path offset values => exact ⟨fun _ => rfl, nofun, by rintro (⟨⟨⟩⟩ | ⟨_, _, ⟨⟩⟩), nofun⟩
  | pwrite path offset data =>
    refine ⟨nofun, ?_, fun _ => ⟨rfl, nofun⟩, nofun⟩
    intro position remaining writing
    cases writing
    exact ⟨rfl, rfl⟩

/-! ## Every step -/

/-- The locks are kept, and the sessions account for the volume. -/
structure Sound (start : Volume) (state : WriteSystem) : Prop where
  locked : state.Locked
  replayed : Replayed start state.volume state.sessions

/-- Whoever has the file open that a granted request opens, holds an overlapping path. -/
def Unaliased (state : WriteSystem) : Action → Prop
  | .resume id => ∀ call ∈ state.calls, call.id = id → state.access.active.any (fun waiter => waiter.id = id) = true →
    ∀ session ∈ state.sessions, session.busy = true →
      AgentFS.resolvePath state.volume call.request.path = some session.file.ino →
        Overlap session.request.path call.request.path
  | _ => True

instance (state : WriteSystem) : DecidablePred state.Unaliased := by
  intro action
  unfold Unaliased
  cases action <;> infer_instance

namespace Sound

variable {start volume : Volume} {session session' : WriteSession}

theorem replace (sound : state.Sound start) (member : session ∈ state.sessions) (busy : session.busy = true)
    (sameId : session'.id = session.id) (sameFile : session'.file = session.file)
    (others : ∀ ino, ino ≠ session.file.ino → volume.fileBytes ino = state.volume.fileBytes ino)
    (own : ∀ files, session.Progress (files session.file.ino) →
      state.volume.fileBytes session.file.ino = session.replay files session.file.ino →
        volume.fileBytes session.file.ino = session'.replay files session.file.ino ∧
          session'.Progress (files session.file.ino)) :
    Replayed start volume (state.replace session').sessions := by
  obtain ⟨before, after, spelled⟩ := List.append_of_mem member
  have replayed := sound.replayed
  rw [spelled] at replayed
  obtain ⟨bytes, progress⟩ := own _ replayed.progress (replayed.current busy)
  rw [sessions_replace spelled sound.locked.numbered sameId]
  exact replayed.step busy sameFile others bytes progress

/-- A session that ends leaves the bytes as they are. -/
theorem finish (sound : state.Sound start) (member : session ∈ state.sessions) (busy : session.busy = true)
    (same : volume.fileBytes = state.volume.fileBytes) {succeeded : Bool}
    (progress : ∀ bytes, session.Progress bytes → WriteSession.Progress { session with phase := .finished succeeded } bytes) :
    Sound start ({ state with volume }.finish session succeeded) := by
  have locked : Locked { state with volume } := sound.locked.rewritten volume
  have replayed : Replayed start volume (state.replace { session with phase := .finished succeeded }).sessions := by
    refine sound.replace member busy ?_ ?_ ?_ ?_
    · rfl
    · rfl
    · intro ino _
      rw [same]
    · intro files made current
      rw [same]
      exact ⟨current, progress _ made⟩
  exact ⟨locked.finish member busy succeeded, replayed⟩

theorem fail (sound : state.Sound start) (member : session ∈ state.sessions) (busy : session.busy = true) :
    Sound start (state.finish session false) :=
  sound.finish member busy rfl fun _ progress => progress.fail

theorem afterwards_fileBytes (state : WriteSystem) (session : WriteSession) :
    (state.afterwards session).fileBytes = state.volume.fileBytes := by
  unfold afterwards
  split
  · split
    · rfl
    · unfold settle
      split
      · rename_i updated
        obtain ⟨_, _, updated⟩ := bind_eq_ok.mp updated
        obtain ⟨_, _, updated⟩ := bind_eq_ok.mp updated
        rw [← pure_eq_ok.mp updated]
        funext ino
        apply Volume.fileBytes_updateInode
        intro row
        rfl
      · rfl
  · rfl

theorem advance (sound : state.Sound start) (member : session ∈ state.sessions) : Sound start (state.advance session) := by
  unfold WriteSystem.advance
  split
  · rename_i opened
    have busy : session.busy = true := by rw [WriteSession.busy, opened]
    split
    · exact sound.fail member busy
    · rename_i stats stored
      split
      · exact sound.fail member busy
      · refine ⟨sound.locked.replace member busy rfl rfl, sound.replace member busy rfl rfl (fun _ _ => rfl) ?_⟩
        intro files progress current
        refine ⟨current, progress.begin opened ?_⟩
        -- Nothing is written yet, so the size that was read is the one that the others left.
        have bytes : files session.file.ino = state.volume.fileBytes session.file.ino := by
          rw [current, replay_of_none (progress.opened opened)]
        rw [bytes, Volume.fileBytes, (required_eq_ok.mp stored)]
        rfl
  · rename_i position piece remaining writing
    have busy : session.busy = true := by rw [WriteSession.busy, writing]
    split
    · exact sound.fail member busy
    · rename_i volume written
      have edits := (@AgentFSFile.pwrite_ok _ _ [] _ _ _ written).1
      have replayed : Replayed start volume (state.replace { session with
          phase := .writing (position + piece.length) remaining
          written := session.written + 1 }).sessions := by
        refine sound.replace member busy ?_ ?_ ?_ ?_
        · rfl
        · rfl
        · intro ino different
          exact edits.fileBytes different
        · intro files progress current
          refine ⟨?_, progress.write writing⟩
          rw [AgentFSFile.pwrite_fileBytes written, current]
          exact WriteSession.replay_write progress writing
      exact ⟨(sound.locked.rewritten volume).replace member busy rfl rfl, replayed⟩
  · rename_i writing
    have busy : session.busy = true := by rw [WriteSession.busy, writing]
    exact sound.finish member busy (afterwards_fileBytes state session) fun _ progress => progress.succeed writing
  · exact sound

/-- The file that a granted request opens is not in use, or its request has failed by now. -/
theorem openCall (sound : state.Sound start) {call : WriteCall} (called : call ∈ state.calls)
    (grant : state.access.active.any (fun waiter => waiter.id = call.id) = true)
    (unaliased : state.Unaliased (.resume call.id)) : Sound start (state.openCall chunkSize call) := by
  have holds := sound.locked.granted called grant
  unfold WriteSystem.openCall
  split
  · exact ⟨sound.locked.refused called holds, sound.replayed⟩
  · rename_i file opened
    refine ⟨sound.locked.opened called holds file, sound.replayed.append rfl (opening_progress call file _) ?_⟩
    · intro other member same
      by_contra busy
      rw [Bool.not_eq_false] at busy
      obtain ⟨⟨normalizedPath, ino⟩, resolved, opened⟩ := bind_eq_ok.mp opened
      obtain ⟨_, _, opened⟩ := bind_eq_ok.mp opened
      have inode : ino = file.ino := congrArg AgentFSFile.ino (pure_eq_ok.mp opened)
      have found : AgentFS.resolvePath state.volume call.request.path = some other.file.ino := by
        rw [same, (AgentFS.resolvePathOrThrow_ok resolved).2, inode]
        rfl
      have overlap := unaliased call called rfl grant other member busy found
      exact sound.locked.apart (sound.locked.call_sessions called member) (sound.locked.holding other member busy) holds overlap

theorem step (sound : state.Sound start) (action : Action) (unaliased : state.Unaliased action) :
    Sound start (state.step chunkSize action) := by
  cases action with
  | call request =>
    refine ⟨sound.locked.call request, ?_⟩
    change Replayed start (state.call request).volume (state.call request).sessions
    unfold WriteSystem.call
    split
    · exact sound.replayed
    · exact sound.replayed
  | resume id =>
    change Sound start (state.resume chunkSize id)
    unfold resume
    split
    · rename_i call found
      have called := List.mem_of_find?_eq_some found
      have numbered : call.id = id := by simpa using List.find?_some found
      split
      · rename_i grant
        rw [← numbered] at grant unaliased
        exact sound.openCall called grant unaliased
      · exact sound
    · split
      · exact sound
      · rename_i session found
        exact sound.advance (List.mem_of_find?_eq_some found)
  | interrupt id =>
    change Sound start (state.interrupt id)
    unfold interrupt
    split
    · exact sound
    · rename_i session found
      split
      · rename_i writing
        exact sound.fail (List.mem_of_find?_eq_some found) (by rw [WriteSession.busy, writing])
      · exact sound

theorem initial (volume : Volume) : Sound volume (.initial volume) := by
  refine ⟨⟨initial_consistent, initial_settled, nofun, nofun, List.nodup_nil, nofun⟩, rfl, trivial, List.Pairwise.nil⟩

end Sound

/-- The bytes of every inode are those of the requests one after the other in this order, and
every append is written at the end that those before it left. -/
structure SerialOrder (start : Volume) (state : WriteSystem) (order : List WriteSession) : Prop where
  everyone : order.Perm state.sessions
  bytes : state.volume.fileBytes = replayAll start.fileBytes order
  appended : ∀ before session after data, order = before ++ session :: after → session.Appended data →
    (replayAll start.fileBytes before session.file.ino).size = some session.start

/-- Some order is serial, whoever succeeded has written everything, and no append wrote into
the region of another one. -/
structure Serial (start : Volume) (state : WriteSystem) : Prop where
  order : ∃ order, state.SerialOrder start order
  complete : ∀ session ∈ state.sessions, session.phase = .finished true →
    session.request.pieces.length ≤ session.written
  regions : state.sessions.Pairwise fun one other => one.file.ino = other.file.ino → ∀ first second,
    one.Appended first → other.Appended second →
      one.start + first.length ≤ other.start ∨ other.start + second.length ≤ one.start

theorem Sound.serial {start : Volume} (sound : state.Sound start) : state.Serial start := by
  have traced := sound.replayed.traced
  refine ⟨⟨state.sessions, .refl _, sound.replayed.bytes, ?_⟩, ?_, ?_⟩
  · intro before session after data spelled appended
    rw [spelled, traced_append] at traced
    exact (size_replay_appended appended traced.2.1).1
  · intro session member finished
    obtain ⟨before, after, spelled⟩ := List.append_of_mem member
    rw [spelled, traced_append] at traced
    exact traced.2.1.complete finished
  · refine (appended_apart traced).imp ?_
    intro one other apart same first second written again
    exact .inl (apart same first second written again)

end WriteSystem

open WriteSystem in
/-- In every state of a run in which nobody opens a file that is in use under a path that does
not overlap, the requests have happened one after the other and no append is lost. -/
theorem serialWrites (chunkSize : Nat) (volume : Volume) (actions reached : List Action)
    (unaliased : Guarded (fun state action => state.step chunkSize action) Unaliased (.initial volume) actions)
    (earlier : reached <+: actions) :
    (run (fun (state : WriteSystem) action => state.step chunkSize action) (.initial volume) reached).Serial volume := by
  apply Sound.serial
  exact run_invariant_reached (fun _ action sound unaliased => sound.step action unaliased) (Sound.initial volume)
    unaliased earlier

/-- One file under two names. -/
def twoNames : Volume :=
  let named := settle (Volume.fresh 0) (AgentFS.writeFile (Volume.fresh 0) 4 "/a".toList [])
  settle named (FilesystemPrimitives.link named "/a".toList "/b".toList)

/-- Two appends, which take turns wherever the lock lets them. -/
def appends (first second : String) : List WriteSystem.Action :=
  [.call (.append first.toList [1]), .call (.append second.toList [2, 3]), .resume 0, .resume 1, .resume 0, .resume 1,
    .resume 0, .resume 1, .resume 0, .resume 1, .resume 1, .resume 1, .resume 1]

def afterAppends (first second : String) : WriteSystem :=
  run (fun (state : WriteSystem) action => state.step 4 action) (.initial twoNames) (appends first second)

theorem serialWrites_oneName : (afterAppends "/a" "/a").Serial twoNames ∧
    (afterAppends "/a" "/a").volume.chunk? 2 0 = some [1, 2, 3] := by
  refine ⟨serialWrites 4 twoNames (appends "/a" "/a") (appends "/a" "/a") (by decide) List.prefix_rfl, by decide⟩

/-- Under its other name the second append finds the lock free and the file as short as the
first one did. -/
theorem twoNames_lose_append : (afterAppends "/a" "/b").sessions.all (fun session => session.phase = .finished true) ∧
    (afterAppends "/a" "/b").volume.chunk? 2 0 = some [2, 3] ∧ ¬(afterAppends "/a" "/b").Serial twoNames := by
  refine ⟨by decide, by decide, ?_⟩
  intro serial
  have sessions : (afterAppends "/a" "/b").sessions =
      [⟨0, .append "/a".toList [1], ⟨2, 4⟩, .finished true, 0, 1⟩,
        ⟨1, .append "/b".toList [2, 3], ⟨2, 4⟩, .finished true, 0, 1⟩] := by decide
  have regions := serial.regions
  rw [sessions] at regions
  have apart := (List.pairwise_cons.mp regions).1 _ List.mem_cons_self rfl [1] [2, 3] ⟨⟨_, rfl⟩, by decide⟩
    ⟨⟨_, rfl⟩, by decide⟩
  revert apart
  decide

end AiryFS
