import AiryFS.Container.ServiceServer
import Mathlib.Data.List.Nodup

/-! What a client that follows the log of a service is told, over whole runs. -/

set_option autoImplicit false

namespace AiryFS

open Foundation

namespace Services

/-! ## One process -/

theorem shiftLogs_suffix (logBytes : Nat) (logs : List LogEntry) : (shiftLogs logBytes logs).2 <:+ logs := by
  induction logs generalizing logBytes with
  | nil => exact List.suffix_refl _
  | cons oldest logs ih =>
    cases logs with
    | nil => exact List.suffix_refl _
    | cons entry logs =>
      rw [shiftLogs]
      split
      · exact (ih _).trans (List.suffix_cons _ _)
      · exact List.suffix_refl _

theorem shiftLogs_ne_nil (logBytes : Nat) {logs : List LogEntry} (some_ : logs ≠ []) : (shiftLogs logBytes logs).2 ≠ [] := by
  induction logs generalizing logBytes with
  | nil => exact absurd rfl some_
  | cons oldest logs ih =>
    cases logs with
    | nil => exact some_
    | cons entry logs =>
      rw [shiftLogs]
      split
      · exact ih _ (List.cons_ne_nil _ _)
      · exact List.cons_ne_nil _ _

/-- The counter is the size of the entries that are kept, and within the limit unless one is left. -/
theorem shiftLogs_counts {logBytes : Nat} {logs : List LogEntry} (counts : logBytes = (logs.map LogEntry.bytes).sum) :
    (shiftLogs logBytes logs).1 = ((shiftLogs logBytes logs).2.map LogEntry.bytes).sum ∧
      ((shiftLogs logBytes logs).1 ≤ MAX_LOG_BYTES ∨ (shiftLogs logBytes logs).2.length ≤ 1) := by
  induction logs generalizing logBytes with
  | nil => exact ⟨counts, .inr (Nat.zero_le 1)⟩
  | cons oldest logs ih =>
    cases logs with
    | nil => exact ⟨counts, .inr (Nat.le_refl 1)⟩
    | cons entry logs =>
      rw [shiftLogs]
      split
      · refine ih ?_
        rw [counts, List.map_cons, List.sum_cons, Nat.add_sub_cancel_left]
      · rename_i light
        exact ⟨counts, .inl (Nat.le_of_not_lt light)⟩

/-- What the log of a process keeps. -/
structure WellKept (service : ServiceProcess) : Prop where
  numbered : NumberedLog.Numbered LogEntry.seq service.logs service.nextSeq
  kept : 1 < service.nextSeq → service.logs ≠ []
  counts : service.logBytes = (service.logs.map LogEntry.bytes).sum
  bounded : Bounded service

/-- What becomes of a process. -/
structure Grows (before after : ServiceProcess) : Prop where
  name : after.name = before.name
  generation : after.generation = before.generation
  exits : after.exitCode = none → before.exitCode = none
  next : before.nextSeq ≤ after.nextSeq
  older : ∀ entry ∈ after.logs, entry.seq < before.nextSeq → ∃ same ∈ before.logs, same.seq = entry.seq

theorem Grows.refl (service : ServiceProcess) : Grows service service :=
  ⟨rfl, rfl, id, Nat.le_refl _, fun entry member _ => ⟨entry, member, rfl⟩⟩

theorem Grows.trans {first second third : ServiceProcess} (one : Grows first second) (two : Grows second third) : Grows first third where
  name := two.name.trans one.name
  generation := two.generation.trans one.generation
  exits running := one.exits (two.exits running)
  next := Nat.le_trans one.next two.next
  older entry member below := by
    obtain ⟨same, inside, seq⟩ := two.older entry member (Nat.lt_of_lt_of_le below one.next)
    obtain ⟨first, inside', seq'⟩ := one.older same inside (by omega)
    exact ⟨first, inside', seq'.trans seq⟩

variable {service : ServiceProcess}

theorem wellKept_start (name generation : Text) (port now : Int) : WellKept (ServiceServer.startService name generation port now) where
  numbered := NumberedLog.numbered_nil
  kept more := absurd (show 1 < 1 from more) (Nat.lt_irrefl 1)
  counts := rfl
  bounded := .inl (Nat.zero_le _)

theorem wellKept_append (kept : WellKept service) (stream : LogStream) (chunk : Bytes) (now : Int) :
    WellKept (service.appendLog stream chunk now) ∧ Grows service (service.appendLog stream chunk now) := by
  unfold ServiceProcess.appendLog
  dsimp only
  generalize made : LogEntry.mk service.nextSeq stream chunk now chunk.length = entry
  have seq : entry.seq = service.nextSeq := by rw [← made]
  have bytes : entry.bytes = chunk.length := by rw [← made]
  have suffix := shiftLogs_suffix (service.logBytes + chunk.length) (service.logs ++ [entry])
  have counted : service.logBytes + chunk.length = ((service.logs ++ [entry]).map LogEntry.bytes).sum := by
    simp [kept.counts, bytes]
  obtain ⟨counts, bounded⟩ := shiftLogs_counts counted
  have nonempty := shiftLogs_ne_nil (service.logBytes + chunk.length)
    (List.append_ne_nil_of_right_ne_nil service.logs (List.cons_ne_nil entry []))
  refine ⟨⟨(kept.numbered.snoc seq).suffix suffix, fun _ => nonempty, counts, ?_⟩, rfl, rfl, id, Nat.le_succ _, ?_⟩
  · rcases bounded with light | single
    · exact .inl (counts ▸ light)
    · exact .inr (List.length_eq_one_iff.mp (Nat.le_antisymm single (List.length_pos_iff.mpr nonempty)))
  · intro other member below
    rcases List.mem_append.mp (suffix.subset member) with old | new
    · exact ⟨other, old, rfl⟩
    · rw [List.mem_singleton.mp new, seq] at below
      exact absurd below (Nat.lt_irrefl _)

theorem wellKept_close (kept : WellKept service) (code : Option Int) :
    WellKept (service.onClose code) ∧ Grows service (service.onClose code) :=
  ⟨⟨kept.numbered, kept.kept, kept.counts, kept.bounded⟩, rfl, rfl, fun running => (by cases running), Nat.le_refl _,
    fun entry member _ => ⟨entry, member, rfl⟩⟩

/-! ## One answer -/

/-- The cursor that a poll uses. -/
def cursorFor (service : ServiceProcess) (generation : Option Text) (after : Nat) : Nat :=
  if generation ≠ none ∧ generation ≠ some service.generation then 0 else after

theorem readLogs_seqs (service : ServiceProcess) (generation : Option Text) (after : Nat) :
    (readLogs service generation after).entries.map PageEntry.seq =
      (service.logs.map LogEntry.seq).filter fun seq => cursorFor service generation after < seq := by
  unfold readLogs cursorFor
  dsimp only
  rw [List.map_map, List.filter_map]
  simp [Function.comp_def]

theorem readLogs_reset (service : ServiceProcess) (generation : Option Text) (after : Nat) :
    (readLogs service generation after).reset = true ↔ generation ≠ none ∧ generation ≠ some service.generation := decide_eq_true_iff

/-- **What an answer marks as truncated.** -/
theorem readLogs_truncated (kept : WellKept service) (generation : Option Text) (after : Nat) :
    (readLogs service generation after).truncated = true ↔
      ¬(generation ≠ none ∧ generation ≠ some service.generation) ∧ service.logs ≠ [] ∧
        cursorFor service generation after + 1 < service.nextSeq - service.logs.length := by
  unfold readLogs cursorFor
  dsimp only
  by_cases reset : generation ≠ none ∧ generation ≠ some service.generation
  · simp [reset]
  · rw [if_neg reset]
    cases shape : service.logs.head? with
    | none =>
      rw [List.head?_eq_none_iff.mp shape]
      simp
    | some oldest =>
      have seq := kept.numbered.head shape
      have some_ : service.logs ≠ [] := by
        intro none_
        rw [none_] at shape
        cases shape
      have ahead : ((after : Int) < (oldest.seq : Int) - 1) ↔ after + 1 < service.nextSeq - service.logs.length := by omega
      simp [reset, some_, ahead]

/-- After an answer the client has the last number of the log. -/
theorem cursor_poll (kept : WellKept service) (follower : Follower)
    (below : cursorFor service follower.generation (follower.cursor.getD 0) < service.nextSeq) :
    (follower.poll service).cursor.getD 0 + 1 = service.nextSeq := by
  have seqs := readLogs_seqs service follower.generation (follower.cursor.getD 0)
  have last : (readLogs service follower.generation (follower.cursor.getD 0)).entries.getLast?.map PageEntry.seq =
      ((service.logs.map LogEntry.seq).filter fun seq => cursorFor service follower.generation (follower.cursor.getD 0) < seq).getLast? := by
    rw [← seqs, List.getLast?_map]
  have kept_ : (if (readLogs service follower.generation (follower.cursor.getD 0)).reset = true then none else follower.cursor).getD 0 =
      cursorFor service follower.generation (follower.cursor.getD 0) := by
    unfold cursorFor
    by_cases reset : follower.generation ≠ none ∧ follower.generation ≠ some service.generation
    · rw [if_pos ((readLogs_reset _ _ _).mpr reset), if_pos reset]
      rfl
    · rw [if_neg fun marked => reset ((readLogs_reset _ _ _).mp marked), if_neg reset]
  unfold Follower.poll
  dsimp only
  rw [last]
  generalize (if (readLogs service follower.generation (follower.cursor.getD 0)).reset = true then none else follower.cursor) = cursor
    at kept_ ⊢
  generalize cursorFor service follower.generation (follower.cursor.getD 0) = after at below kept_ ⊢
  cases shape : service.logs.getLast? with
  | none =>
    have empty : service.logs = [] := List.getLast?_eq_none_iff.mp shape
    have early : service.nextSeq ≤ 1 := Nat.le_of_not_lt fun more => kept.kept more empty
    rw [empty]
    show cursor.getD 0 + 1 = _
    omega
  | some newest =>
    have seq := kept.numbered.last shape
    obtain ⟨front, split⟩ := List.getLast?_eq_some_iff.mp shape
    rw [split, List.map_append, List.filter_append, List.map_singleton]
    by_cases ahead : after < newest.seq
    · rw [List.filter_cons_of_pos (by simpa using ahead), List.filter_nil, List.getLast?_concat]
      exact seq
    · have sorted := kept.numbered.sorted
      rw [split, List.map_append, List.pairwise_append] at sorted
      have none_ : (front.map LogEntry.seq).filter (fun seq => after < seq) = [] := by
        refine List.filter_eq_nil_iff.mpr fun seq member => ?_
        have small := sorted.2.2 seq member newest.seq (by simp)
        simp
        omega
      rw [none_, List.filter_cons_of_neg (by simpa using ahead), List.filter_nil]
      show cursor.getD 0 + 1 = _
      omega

/-! ## The processes -/

variable {server : ServiceServer} {name : Text}

theorem get_mem (found : server.get name = some service) : service ∈ server.processes ∧ service.name = name :=
  ⟨List.mem_of_find?_eq_some found, by simpa using List.find?_some found⟩

theorem get_cons (service : ServiceProcess) (processes : List ServiceProcess) (name : Text) :
    ServiceServer.get ⟨service :: processes⟩ name = if service.name = name then some service else ServiceServer.get ⟨processes⟩ name := by
  unfold ServiceServer.get
  rw [List.find?_cons]
  by_cases same : service.name = name
  · simp [same]
  · simp [same]

/-- Processes with the ids that were drawn, each well kept; one that runs is the newest of its name. -/
structure Kept (uuid : Nat → Text) (drawn : Nat) (server : ServiceServer) : Prop where
  drawn : ∀ service ∈ server.processes, ∃ i < drawn, service.generation = uuid i
  distinct : (server.processes.map ServiceProcess.generation).Nodup
  kept : ∀ service ∈ server.processes, WellKept service
  newest : ∀ service ∈ server.processes, service.exitCode = none → server.get service.name = some service

theorem Kept.unique {uuid : Nat → Text} {drawn : Nat} (sound : Kept uuid drawn server) {first second : ServiceProcess}
    (one : first ∈ server.processes) (other : second ∈ server.processes) (same : first.generation = second.generation) : first = second :=
  List.inj_on_of_nodup_map sound.distinct one other same

theorem Kept.oneRuns {uuid : Nat → Text} {drawn : Nat} (sound : Kept uuid drawn server) : OneRuns server := by
  intro name
  have nodup : server.processes.Nodup := List.Nodup.of_map _ sound.distinct
  have alike : ∀ first ∈ server.processes.filter (fun service => service.name = name ∧ service.exitCode = none),
      ∀ second ∈ server.processes.filter (fun service => service.name = name ∧ service.exitCode = none), first = second := by
    intro first one second other
    obtain ⟨inside, runs⟩ := List.mem_filter.mp one
    obtain ⟨inside', runs'⟩ := List.mem_filter.mp other
    simp only [decide_eq_true_eq] at runs runs'
    have newest := sound.newest first inside runs.2
    have newest' := sound.newest second inside' runs'.2
    rw [runs.1] at newest
    rw [runs'.1, newest] at newest'
    exact Option.some.inj newest'
  have apart := nodup.filter fun service => service.name = name ∧ service.exitCode = none
  generalize server.processes.filter (fun service => service.name = name ∧ service.exitCode = none) = running at alike apart
  match running with
  | [] => exact Nat.zero_le 1
  | [_] => exact Nat.le_refl 1
  | first :: second :: rest =>
    have same := alike first List.mem_cons_self second (List.mem_cons_of_mem _ List.mem_cons_self)
    exact absurd (same ▸ List.mem_cons_self) (List.nodup_cons.mp apart).1

/-- What a listener does to a process that runs. -/
def Listener (listener : ServiceProcess → ServiceProcess) : Prop :=
  ∀ service, WellKept service → WellKept (listener service) ∧ Grows service (listener service)

section
variable {listener : ServiceProcess → ServiceProcess} (generation : Text)

/-- The process, as the listener leaves it. -/
def heard (listener : ServiceProcess → ServiceProcess) (generation : Text) (service : ServiceProcess) : ServiceProcess :=
  if service.generation = generation ∧ service.exitCode = none then listener service else service

theorem heard_grows (listens : Listener listener) {service : ServiceProcess} (kept : WellKept service) :
    WellKept (heard listener generation service) ∧ Grows service (heard listener generation service) := by
  unfold heard
  split
  · exact listens service kept
  · exact ⟨kept, .refl service⟩

theorem get_onProcess (listens : Listener listener) (kept : ∀ service ∈ server.processes, WellKept service) (name : Text) :
    (server.onProcess generation listener).get name = (server.get name).map (heard listener generation) := by
  unfold ServiceServer.get ServiceServer.onProcess
  have names : ∀ service ∈ server.processes, (heard listener generation service).name = service.name :=
    fun service member => (heard_grows generation listens (kept service member)).2.name
  show (server.processes.map (heard listener generation)).find? _ = _
  generalize server.processes = processes at names
  induction processes with
  | nil => rfl
  | cons service processes ih =>
    obtain ⟨here, later⟩ := List.forall_mem_cons.mp names
    rw [List.map_cons, List.find?_cons, List.find?_cons, here, ih later]
    split <;> rfl

theorem Kept.onProcess {uuid : Nat → Text} {drawn : Nat} (sound : Kept uuid drawn server) (listens : Listener listener) :
    Kept uuid drawn (server.onProcess generation listener) := by
  have member_of {service : ServiceProcess} (member : service ∈ (server.onProcess generation listener).processes) :
      ∃ before ∈ server.processes, heard listener generation before = service := List.mem_map.mp member
  refine ⟨?_, ?_, ?_, ?_⟩
  · intro service member
    obtain ⟨before, inside, rfl⟩ := member_of member
    rw [(heard_grows generation listens (sound.kept before inside)).2.generation]
    exact sound.drawn before inside
  · show ((server.processes.map (heard listener generation)).map ServiceProcess.generation).Nodup
    have same : (server.processes.map (heard listener generation)).map ServiceProcess.generation =
        server.processes.map ServiceProcess.generation := by
      rw [List.map_map]
      exact List.map_congr_left fun before inside => (heard_grows generation listens (sound.kept before inside)).2.generation
    rw [same]
    exact sound.distinct
  · intro service member
    obtain ⟨before, inside, rfl⟩ := member_of member
    exact (heard_grows generation listens (sound.kept before inside)).1
  · intro service member running
    obtain ⟨before, inside, rfl⟩ := member_of member
    have grows := (heard_grows generation listens (sound.kept before inside)).2
    rw [get_onProcess generation listens sound.kept, grows.name, sound.newest before inside (grows.exits running)]
    rfl

end

/-- A start leaves the server as it is, or adds a process where none of the name runs. -/
theorem start_cases (server : ServiceServer) (generation : Text) (now : Int) (body : StartBody) :
    (server.start generation now body).2 = server ∨ ∃ name port, (∀ existing, server.get name = some existing → existing.exitCode ≠ none) ∧
      (server.start generation now body).2 = ⟨ServiceServer.startService name generation port now :: server.processes⟩ := by
  unfold ServiceServer.start
  split
  · rename_i name command named commanded
    split
    · exact .inl rfl
    · rename_i port ported
      split
      · exact .inl rfl
      · rename_i none_
        split
        · exact .inl rfl
        · refine .inr ⟨name, port, ?_, rfl⟩
          intro existing found running
          rw [found, Option.filter_some, if_pos (by simpa using running)] at none_
          cases none_
  · exact .inl rfl

theorem Kept.start {uuid : Nat → Text} (injective : Function.Injective uuid) {drawn : Nat} (sound : Kept uuid drawn server) (now : Int)
    (body : StartBody) : Kept uuid (drawn + 1) (server.start (uuid drawn) now body).2 := by
  have later : ∀ service ∈ server.processes, ∃ i < drawn + 1, service.generation = uuid i := by
    intro service member
    obtain ⟨i, below, same⟩ := sound.drawn service member
    exact ⟨i, Nat.lt_succ_of_lt below, same⟩
  rcases start_cases server (uuid drawn) now body with same | ⟨name, port, ended, same⟩
  · rw [same]
    exact ⟨later, sound.distinct, sound.kept, sound.newest⟩
  · rw [same]
    refine ⟨?_, ?_, ?_, ?_⟩
    · exact List.forall_mem_cons.mpr ⟨⟨drawn, Nat.lt_succ_self drawn, rfl⟩, later⟩
    · rw [List.map_cons, List.nodup_cons]
      refine ⟨fun member => ?_, sound.distinct⟩
      obtain ⟨service, inside, drawn_⟩ := List.mem_map.mp member
      obtain ⟨i, below, other⟩ := sound.drawn service inside
      have equal := injective (other.symm.trans drawn_)
      omega
    · exact List.forall_mem_cons.mpr ⟨wellKept_start _ _ _ _, sound.kept⟩
    · refine List.forall_mem_cons.mpr ⟨fun _ => ?_, fun service member running => ?_⟩
      · rw [get_cons, if_pos rfl]
      · have newest := sound.newest service member running
        have other : name ≠ service.name := by
          rintro rfl
          exact ended service newest running
        rw [get_cons, if_neg (show ¬(ServiceServer.startService name (uuid drawn) port now).name = service.name from other)]
        exact newest

/-! ## The client -/

/-- The generation is that of a process which is not the newest of the name. -/
structure Retired (server : ServiceServer) (name generation : Text) : Prop where
  known : ∃ service ∈ server.processes, service.generation = generation
  other : ∀ service, server.get name = some service → service.generation ≠ generation

/-- The answer of the last poll, and the process as it is now. -/
structure Latest (server : ServiceServer) (name : Text) (follower : Follower) (poll : Poll) : Prop where
  generation : follower.generation = some poll.service.generation
  cursor : follower.cursor.getD 0 + 1 = poll.service.nextSeq
  service : ∃ now ∈ server.processes, now.name = name ∧ Grows poll.service now

/-- What the client knows, and what it has been told. -/
structure Follows (server : ServiceServer) (name : Text) (follower : Follower) : Prop where
  fresh : follower.polls = [] → follower.generation = none ∧ follower.cursor = none
  latest : ∀ poll ∈ follower.polls.getLast?, Latest server name follower poll
  pages : ∀ poll ∈ follower.polls, poll.page.generation = poll.service.generation
  below : ∀ poll ∈ follower.polls, follower.generation = some poll.page.generation →
    ∀ entry ∈ poll.page.entries, entry.seq ≤ follower.cursor.getD 0
  retired : ∀ poll ∈ follower.polls, follower.generation ≠ some poll.page.generation → Retired server name poll.page.generation
  reset : ResetMarked follower.polls
  announced : Announced (fun page => page.truncated || page.reset) follower.polls
  returned : Returned follower.polls
  increasing : Increasing follower.polls

section
variable {follower : Follower} {uuid : Nat → Text} {drawn : Nat}

/-- The client is not affected by what happens to the processes. -/
theorem Follows.moved {after : ServiceServer} (follows : Follows server name follower)
    (grows : ∀ service ∈ server.processes, ∃ now ∈ after.processes, Grows service now)
    (fresh : ∀ now, after.get name = some now → (∃ service, server.get name = some service ∧ now.generation = service.generation) ∨
      ∀ service ∈ server.processes, service.generation ≠ now.generation) : Follows after name follower := by
  refine ⟨follows.fresh, ?_, follows.pages, follows.below, ?_, follows.reset, follows.announced, follows.returned, follows.increasing⟩
  · intro poll last
    obtain ⟨generation, cursor, service, member, named, growing⟩ := follows.latest poll last
    obtain ⟨now, inside, later⟩ := grows service member
    exact ⟨generation, cursor, now, inside, later.name.trans named, growing.trans later⟩
  · intro poll member apart
    obtain ⟨⟨service, inside, same⟩, other⟩ := follows.retired poll member apart
    obtain ⟨now, inside', later⟩ := grows service inside
    refine ⟨⟨now, inside', later.generation.trans same⟩, fun newest found => ?_⟩
    rcases fresh newest found with ⟨before, found', same'⟩ | unknown
    · rw [same']
      exact other before found'
    · rw [← same]
      exact (unknown service inside).symm

/-- The number the client asks from, where the service is one it has heard from, or another. -/
theorem Follows.cases (sound : Kept uuid drawn server) (follows : Follows server name follower) (found : server.get name = some service) :
    (follower.polls = [] ∧ follower.generation = none ∧ cursorFor service follower.generation (follower.cursor.getD 0) = 0) ∨
      ∃ front last, follower.polls = front ++ [last] ∧
        ((last.page.generation = service.generation ∧ follower.generation = some service.generation ∧ Grows last.service service ∧
            cursorFor service follower.generation (follower.cursor.getD 0) + 1 = last.service.nextSeq) ∨
          (last.page.generation ≠ service.generation ∧ follower.generation = some last.page.generation ∧
            cursorFor service follower.generation (follower.cursor.getD 0) = 0)) := by
  rcases List.eq_nil_or_concat follower.polls with none_ | ⟨front, last, shape⟩
  · obtain ⟨generation, cursor⟩ := follows.fresh none_
    refine .inl ⟨none_, generation, ?_⟩
    rw [generation, cursor]
    rfl
  · rw [List.concat_eq_append] at shape
    have latest := follows.latest last (by rw [shape]; simp)
    have page := follows.pages last (by rw [shape]; simp)
    refine .inr ⟨front, last, shape, ?_⟩
    obtain ⟨now, inside, named, grows⟩ := latest.service
    by_cases same : last.page.generation = service.generation
    · have here : now = service := sound.unique inside (get_mem found).1 (grows.generation.trans (page.symm.trans same))
      have generation : follower.generation = some service.generation := by rw [latest.generation, ← page, same]
      refine .inl ⟨same, generation, here ▸ grows, ?_⟩
      rw [cursorFor, if_neg fun both => both.2 generation]
      exact latest.cursor
    · have generation : follower.generation = some last.page.generation := by rw [latest.generation, page]
      refine .inr ⟨same, generation, ?_⟩
      rw [cursorFor, if_pos]
      rw [generation]
      exact ⟨Option.some_ne_none _, fun equal => same (Option.some.inj equal)⟩

/-- What the client has received of the generation is behind the number it asks from. -/
theorem Follows.received_le (sound : Kept uuid drawn server) (follows : Follows server name follower)
    (found : server.get name = some service) : ∀ seq ∈ received service.generation follower.polls,
      seq ≤ cursorFor service follower.generation (follower.cursor.getD 0) := by
  intro seq member
  obtain ⟨poll, inside, page⟩ := List.mem_flatMap.mp member
  obtain ⟨inside, same⟩ := List.mem_filter.mp inside
  have same : poll.page.generation = service.generation := by simpa using same
  obtain ⟨entry, listed, rfl⟩ := List.mem_map.mp page
  rcases follows.cases sound found with ⟨none_, -, -⟩ | ⟨front, last, shape, ⟨-, generation, -, cursor⟩ | ⟨other, generation, -⟩⟩
  · rw [none_] at inside
    cases inside
  · rw [cursorFor, if_neg fun both => both.2 generation]
    exact follows.below poll inside (by rw [generation, same]) entry listed
  · have apart : follower.generation ≠ some poll.page.generation := by
      rw [generation, same]
      exact fun equal => other (Option.some.inj equal)
    exact absurd same.symm ((follows.retired poll inside apart).other service found)

/-- The number it asks from is one of the log's. -/
theorem Follows.cursor_lt (sound : Kept uuid drawn server) (follows : Follows server name follower)
    (found : server.get name = some service) : cursorFor service follower.generation (follower.cursor.getD 0) < service.nextSeq := by
  have positive := (sound.kept service (get_mem found).1).numbered.positive
  rcases follows.cases sound found with ⟨-, -, zero⟩ | ⟨front, last, -, ⟨-, -, grows, cursor⟩ | ⟨-, -, zero⟩⟩
  · omega
  · have next := grows.next
    omega
  · omega

/-- What the log holds has been returned, or is returned now. -/
theorem Follows.returns (sound : Kept uuid drawn server) (follows : Follows server name follower) (found : server.get name = some service)
    {entry : LogEntry} (member : entry ∈ service.logs) :
    (∃ before ∈ follower.polls, before.page.generation = service.generation ∧ ∃ returned ∈ before.page.entries, returned.seq = entry.seq) ∨
      ∃ returned ∈ (readLogs service follower.generation (follower.cursor.getD 0)).entries, returned.seq = entry.seq := by
  by_cases ahead : cursorFor service follower.generation (follower.cursor.getD 0) < entry.seq
  · have listed : entry.seq ∈ (readLogs service follower.generation (follower.cursor.getD 0)).entries.map PageEntry.seq := by
      rw [readLogs_seqs]
      exact List.mem_filter.mpr ⟨List.mem_map_of_mem member, by simpa using ahead⟩
    exact .inr (List.mem_map.mp listed)
  · have numbered := (sound.kept service (get_mem found).1).numbered
    have range := (numbered.exists_iff entry.seq).mp ⟨entry, member, rfl⟩
    have positive := numbered.positive
    rcases follows.cases sound found with ⟨-, -, zero⟩ | ⟨front, last, shape, ⟨same, -, grows, cursor⟩ | ⟨-, -, zero⟩⟩
    · omega
    · obtain ⟨old, inside, seq⟩ := grows.older entry member (by omega)
      obtain ⟨before, earlier, generation, returned, listed, seq'⟩ := follows.returned front last [] shape old inside
      exact .inl ⟨before, by rw [shape]; exact earlier, generation.trans same, returned, listed, seq'.trans seq⟩
    · omega

/-- An entry that has gone since the poll before stands between the number asked from and the log. -/
theorem Follows.announces (sound : Kept uuid drawn server) (follows : Follows server name follower) (found : server.get name = some service)
    {seq : Nat} (lost : Lost follower.polls ⟨service, readLogs service follower.generation (follower.cursor.getD 0)⟩ seq) :
    ((readLogs service follower.generation (follower.cursor.getD 0)).truncated ||
      (readLogs service follower.generation (follower.cursor.getD 0)).reset) = true := by
  obtain ⟨⟨first, written⟩, evicted, unread, since⟩ := lost
  dsimp only at written evicted unread since
  have kept := sound.kept service (get_mem found).1
  have gone : ¬(service.nextSeq - service.logs.length ≤ seq ∧ seq < service.nextSeq) := by
    rw [← kept.numbered.exists_iff]
    rintro ⟨entry, member, same⟩
    exact evicted entry member same
  by_cases reset : follower.generation ≠ none ∧ follower.generation ≠ some service.generation
  · rw [(readLogs_reset service _ _).mpr reset, Bool.or_true]
  · have behind : cursorFor service follower.generation (follower.cursor.getD 0) < seq := by
      rcases follows.cases sound found with ⟨-, -, zero⟩ | ⟨front, last, shape, ⟨same, -, grows, cursor⟩ | ⟨other, generation, -⟩⟩
      · omega
      · rcases since last (by rw [shape]; simp) same with later | ⟨entry, member, rfl⟩
        · omega
        · obtain ⟨before, earlier, generation, returned, listed, seq⟩ := follows.returned front last [] shape entry member
          have inside : before ∈ follower.polls := by rw [shape]; exact earlier
          exact absurd seq (unread before inside (generation.trans same) returned listed)
      · rw [generation] at reset
        exact absurd ⟨Option.some_ne_none _, fun equal => other (Option.some.inj equal)⟩ reset
    have truncated : (readLogs service follower.generation (follower.cursor.getD 0)).truncated = true :=
      (readLogs_truncated kept _ _).mpr ⟨reset, kept.kept (by omega), by omega⟩
    rw [truncated, Bool.true_or]

theorem received_snoc (generation : Text) (polls : List Poll) (poll : Poll) : received generation (polls ++ [poll]) =
    received generation polls ++ if poll.page.generation = generation then poll.page.entries.map PageEntry.seq else [] := by
  unfold received
  rw [List.filter_append, List.flatMap_append, List.filter_singleton]
  by_cases same : poll.page.generation = generation
  · simp [same]
  · simp [same]

/-- **A poll.** -/
theorem Follows.poll (sound : Kept uuid drawn server) (follows : Follows server name follower) (found : server.get name = some service) :
    Follows server name (follower.poll service) := by
  have kept := sound.kept service (get_mem found).1
  have cursor := cursor_poll kept follower (follows.cursor_lt sound found)
  have polls : (follower.poll service).polls =
      follower.polls ++ [⟨service, readLogs service follower.generation (follower.cursor.getD 0)⟩] := rfl
  have generation : (follower.poll service).generation = some service.generation := rfl
  have listed : ∀ entry ∈ (readLogs service follower.generation (follower.cursor.getD 0)).entries, entry.seq < service.nextSeq ∧
      cursorFor service follower.generation (follower.cursor.getD 0) < entry.seq := by
    intro entry member
    have seq := List.mem_map_of_mem (f := PageEntry.seq) member
    rw [readLogs_seqs] at seq
    obtain ⟨inside, ahead⟩ := List.mem_filter.mp seq
    obtain ⟨same, inside, seq⟩ := List.mem_map.mp inside
    exact ⟨((kept.numbered.exists_iff entry.seq).mp ⟨same, inside, seq⟩).2, by simpa using ahead⟩
  refine ⟨?_, ?_, ?_, ?_, ?_, ?_, ?_, ?_, ?_⟩
  · intro none_
    rw [polls] at none_
    simp at none_
  · intro poll last
    rw [polls, List.getLast?_concat] at last
    obtain rfl := Option.some.inj last
    exact ⟨generation, cursor, service, (get_mem found).1, (get_mem found).2, .refl service⟩
  · rw [polls]
    exact List.forall_mem_append.mpr ⟨follows.pages, by simp [readLogs]⟩
  · rw [polls]
    refine List.forall_mem_append.mpr ⟨fun poll member same entry inside => ?_, ?_⟩
    · have generation_ : poll.page.generation = service.generation := by
        rw [generation] at same
        exact (Option.some.inj same).symm
      have behind := follows.received_le sound found entry.seq (List.mem_flatMap.mpr ⟨poll,
        List.mem_filter.mpr ⟨member, by simpa using generation_⟩, List.mem_map_of_mem inside⟩)
      have below := follows.cursor_lt sound found
      omega
    · intro poll member _ entry inside
      obtain rfl := List.mem_singleton.mp member
      have below := (listed entry inside).1
      omega
  · rw [polls]
    refine List.forall_mem_append.mpr ⟨fun poll member apart => ?_, ?_⟩
    · refine ⟨?_, fun newest newest_ => ?_⟩
      · by_cases current : follower.generation = some poll.page.generation
        · rcases List.eq_nil_or_concat follower.polls with none_ | ⟨front, last, shape⟩
          · rw [none_] at member
            cases member
          · have latest := follows.latest last (by rw [shape]; simp)
            obtain ⟨now, inside, -, grows⟩ := latest.service
            rw [latest.generation] at current
            exact ⟨now, inside, grows.generation.trans (Option.some.inj current)⟩
        · exact (follows.retired poll member current).known
      · rw [found] at newest_
        obtain rfl := Option.some.inj newest_
        exact fun same => apart (by rw [generation, same])
    · intro poll member apart
      obtain rfl := List.mem_singleton.mp member
      exact absurd generation apart
  · rw [polls]
    refine follows.reset.snoc ?_
    show (readLogs service follower.generation (follower.cursor.getD 0)).reset = true ↔
      ∃ before ∈ follower.polls.getLast?, before.page.generation ≠ service.generation
    rw [readLogs_reset]
    rcases follows.cases sound found with ⟨none_, generation, -⟩ | ⟨front, last, shape, ⟨same, generation, -⟩ | ⟨other, generation, -⟩⟩
    · simp [none_, generation]
    · simp [shape, generation, same]
    · simp [shape, generation, other]
  · rw [polls]
    exact follows.announced.snoc fun seq lost => follows.announces sound found lost
  · rw [polls]
    refine follows.returned.snoc fun entry member => ?_
    rcases follows.returns sound found member with ⟨before, inside, rest⟩ | here
    · exact ⟨before, List.mem_append_left _ inside, rest⟩
    · exact ⟨_, List.mem_append_right _ (List.mem_singleton.mpr rfl), rfl, here⟩
  · intro other
    rw [polls, received_snoc]
    split
    · rename_i same
      rw [List.pairwise_append]
      refine ⟨follows.increasing other, ?_, ?_⟩
      · rw [readLogs_seqs]
        exact kept.numbered.sorted.filter _
      · intro seq before next after
        rw [← same] at before
        obtain ⟨entry, inside, rfl⟩ := List.mem_map.mp after
        exact Nat.lt_of_le_of_lt (follows.received_le sound found seq before) (listed entry inside).2
    · rw [List.append_nil]
      exact follows.increasing other

end

/-! ## Runs -/

section
variable {uuid : Nat → Text}

/-- What holds in every state of a run. -/
structure Sound (uuid : Nat → Text) (name : Text) (system : System) : Prop where
  kept : Kept uuid system.drawn system.server
  follows : Follows system.server name system.follower

theorem listener_append (stream : LogStream) (chunk : Bytes) (now : Int) :
    Listener fun service => service.appendLog stream chunk now := fun _ kept => wellKept_append kept stream chunk now

theorem listener_close (code : Option Int) : Listener fun service => service.onClose code := fun _ kept => wellKept_close kept code

theorem Sound.onProcess {name : Text} {system : System} (sound : Sound uuid name system) (generation : Text)
    {listener : ServiceProcess → ServiceProcess} (listens : Listener listener) :
    Sound uuid name { system with server := system.server.onProcess generation listener } := by
  refine ⟨sound.kept.onProcess generation listens, sound.follows.moved (fun service member => ?_) fun now found => ?_⟩
  · exact ⟨_, List.mem_map_of_mem member, (heard_grows generation listens (sound.kept.kept service member)).2⟩
  · rw [get_onProcess generation listens sound.kept.kept] at found
    obtain ⟨service, before, rfl⟩ := Option.map_eq_some_iff.mp found
    exact .inl ⟨service, before, (heard_grows generation listens (sound.kept.kept service (get_mem before).1)).2.generation⟩

/-- **One step.** -/
theorem Sound.step (injective : Function.Injective uuid) {name : Text} {system : System} (sound : Sound uuid name system) (event : Event) :
    Sound uuid name (system.step uuid name event) := by
  cases event with
  | start body now =>
    refine ⟨sound.kept.start injective now body, ?_⟩
    show Follows (system.server.start (uuid system.drawn) now body).2 name system.follower
    rcases start_cases system.server (uuid system.drawn) now body with same | ⟨started, port, -, same⟩
    · rw [same]
      exact sound.follows
    · rw [same]
      refine sound.follows.moved (fun service member => ⟨service, List.mem_cons_of_mem _ member, .refl service⟩) fun now found => ?_
      rw [get_cons] at found
      split at found
      · -- The new process has an id that no other has.
        obtain rfl := Option.some.inj found
        refine .inr fun service member same => ?_
        obtain ⟨i, below, drawn⟩ := sound.kept.drawn service member
        have equal := injective (drawn.symm.trans same)
        omega
      · exact .inl ⟨now, found, rfl⟩
  | output generation stream chunk now => exact sound.onProcess generation (listener_append stream chunk now)
  | exit generation code => exact sound.onProcess generation (listener_close code)
  | stop stopped => exact sound
  | poll =>
    unfold System.step
    dsimp only
    split
    · exact sound
    · rename_i service found
      exact ⟨sound.kept, sound.follows.poll sound.kept found⟩

theorem sound_initial (uuid : Nat → Text) (name : Text) : Sound uuid name .initial where
  kept := ⟨by simp [System.initial], List.nodup_nil, by simp [System.initial], by simp [System.initial]⟩
  follows := by
    refine ⟨fun _ => ⟨rfl, rfl⟩, ?_, ?_, ?_, ?_, eachPoint_nil, eachPoint_nil, eachPoint_nil, fun _ => List.Pairwise.nil⟩
    · intro poll last
      cases last
    all_goals
      intro poll member
      cases member

/-- **A run.** -/
theorem Sound.run (injective : Function.Injective uuid) {name : Text} {system : System} (sound : Sound uuid name system)
    (events : List Event) : Sound uuid name (system.run uuid name events) := by
  induction events generalizing system with
  | nil => exact sound
  | cons event events ih => exact ih (sound.step injective event)

end

/-! ## The claim -/

/-- **The log of a service.** Its size, its processes, and what a client is told: numbers of one generation that grow, all that
the log holds, every change of generation, and every loss, which an answer marks as truncated or as a reset. -/
theorem service_logs_told {uuid : Nat → Text} (injective : Function.Injective uuid) (name : Text) (events : List Event) :
    let system := System.initial.run uuid name events
    (∀ service ∈ system.server.processes, Bounded service) ∧ OneRuns system.server ∧ Increasing system.follower.polls ∧
      Returned system.follower.polls ∧ ResetMarked system.follower.polls ∧
      Announced (fun page => page.truncated || page.reset) system.follower.polls := by
  have sound := (sound_initial uuid name).run injective events
  exact ⟨fun service member => (sound.kept.kept service member).bounded, sound.kept.oneRuns, sound.follows.increasing,
    sound.follows.returned, sound.follows.reset, sound.follows.announced⟩

/-- Ids that differ in length. -/
def tally (n : Nat) : Text := List.replicate n 'g'

theorem tally_injective : Function.Injective tally := by
  intro first second same
  have lengths := congrArg List.length same
  rwa [tally, tally, List.length_replicate, List.length_replicate] at lengths

def startWeb : Event := .start ⟨some "web".toList, some "serve".toList, some 5000, none, []⟩ 0

theorem service_logs_told_sample :
    let system := System.initial.run tally "web".toList [startWeb, .output (tally 0) .stdout [65] 1, .poll]
    (∀ service ∈ system.server.processes, Bounded service) ∧ OneRuns system.server ∧ Increasing system.follower.polls ∧
      Returned system.follower.polls ∧ ResetMarked system.follower.polls ∧
      Announced (fun page => page.truncated || page.reset) system.follower.polls :=
  service_logs_told tally_injective "web".toList [startWeb, .output (tally 0) .stdout [65] 1, .poll]

/-- A service is polled and restarts; the new process writes a line, and then more than the log holds. -/
def restarted (large : Bytes) : List Event :=
  [startWeb, .output (tally 0) .stdout [65] 1, .poll, .exit (tally 0) (some 0), startWeb, .output (tally 1) .stdout [66] 2,
    .output (tally 1) .stdout large 3, .poll]

def firstWeb : ServiceProcess :=
  ⟨"web".toList, tally 0, 5000, 0, some 0, [⟨1, .stdout, [65], 1, 1⟩], 1, 2⟩

def secondWeb : ServiceProcess :=
  ⟨"web".toList, tally 1, 5000, 0, none, [⟨1, .stdout, [66], 2, 1⟩], 1, 2⟩

def firstPoll : Poll := ⟨{ firstWeb with exitCode := none }, ⟨tally 0, false, some 1, false, [⟨1, .stdout, [65], 1⟩]⟩⟩

theorem restarted_polls {large : Bytes} (exceeds : MAX_LOG_BYTES < large.length) :
    (System.initial.run tally "web".toList (restarted large)).follower.polls =
      [firstPoll, ⟨{ secondWeb with logs := [⟨2, .stdout, large, 3, large.length⟩], logBytes := large.length, nextSeq := 3 },
        ⟨tally 1, true, some 2, false, [⟨2, .stdout, large, 3⟩]⟩⟩] := by
  have before : ((restarted []).take 6).foldl (System.step tally "web".toList) .initial =
      ⟨⟨[secondWeb, firstWeb]⟩, 2, ⟨some (tally 0), some 1, [firstPoll]⟩⟩ := by decide
  have logged : secondWeb.appendLog .stdout large 3 =
      { secondWeb with logs := [⟨2, .stdout, large, 3, large.length⟩], logBytes := large.length, nextSeq := 3 } := by
    unfold ServiceProcess.appendLog secondWeb
    dsimp only [List.cons_append, List.nil_append]
    rw [shiftLogs, if_pos (by omega), Nat.add_sub_cancel_left]
    rfl
  have heard_ : ServiceServer.onProcess ⟨[secondWeb, firstWeb]⟩ (tally 1) (fun service => service.appendLog .stdout large 3) =
      ⟨[secondWeb.appendLog .stdout large 3, firstWeb]⟩ := rfl
  have events : restarted large = (restarted []).take 6 ++ [.output (tally 1) .stdout large 3, .poll] := rfl
  rw [events, System.run, List.foldl_append, before, List.foldl_cons, List.foldl_cons, List.foldl_nil]
  have next : System.step tally "web".toList ⟨⟨[secondWeb, firstWeb]⟩, 2, ⟨some (tally 0), some 1, [firstPoll]⟩⟩
      (.output (tally 1) .stdout large 3) = ⟨⟨[secondWeb.appendLog .stdout large 3, firstWeb]⟩, 2, ⟨some (tally 0), some 1, [firstPoll]⟩⟩ := by
    rw [System.step, heard_]
  rw [next, logged]
  rfl

/-- The first line of the new process has gone, and no answer is marked as truncated: this one is a reset. -/
theorem restart_hides_eviction : ¬Announced LogPage.truncated
    (System.initial.run tally "web".toList (restarted (List.replicate (MAX_LOG_BYTES + 1) 0))).follower.polls := by
  intro announced
  rw [restarted_polls (by rw [List.length_replicate]; exact Nat.lt_succ_self _)] at announced
  have marked := announced [firstPoll] _ [] rfl 1 ⟨by decide, by simp, by simp [firstPoll, tally], by simp [firstPoll, tally]⟩
  cases marked

end Services

end AiryFS
