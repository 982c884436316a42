import AiryFS.Container.BridgeChannel

/-! Which response a request gets: what holds of a connection after any events.

The queue of waiting requests is what was written less what was answered, as long as the
connection lives. When it dies the queue is emptied, and no more frames are taken.
-/

set_option autoImplicit false

namespace AiryFS

open Foundation

open Hrana (HEADER_SIZE MAX_TRANSPORT_FRAME_BYTES)

open Archive (uint32 getUint32)

namespace BridgeChannel

/-! ## Requests -/

structure Fresh (request : PendingRequest) : Prop where
  canceled : request.canceled = false
  settled : request.settled = false
  settlements : request.settlements = []

/-- Its client went away first. -/
structure Canceled (request : PendingRequest) : Prop where
  canceled : request.canceled = true
  settled : request.settled = true
  listening : request.listening = false
  settlements : ∃ message, request.settlements = [.rejected message]

structure Settled (request : PendingRequest) : Prop where
  settled : request.settled = true
  listening : request.listening = false
  settlements : ∃ settlement, request.settlements = [settlement]

/-- What a frame leaves of the request it belongs to: the frame, unless the client had gone. -/
def Answered (frame : Bytes) (request : PendingRequest) : Prop :=
  request.settlements = [.resolved frame] ∨ Canceled request

variable {request : PendingRequest}

theorem Canceled.ended (gone : Canceled request) : Settled request := by
  obtain ⟨message, single⟩ := gone.settlements
  exact ⟨gone.settled, gone.listening, _, single⟩

theorem Fresh.reject (fresh : Fresh request) (message : String) :
    Settled (settleReject message request) ∧ (settleReject message request).settlements = [.rejected message] := by
  simp only [settleReject, fresh.settled, fresh.settlements]
  exact ⟨⟨rfl, rfl, _, rfl⟩, rfl⟩

theorem Canceled.reject (gone : Canceled request) (message : String) : Canceled (settleReject message request) := by
  simp only [settleReject, gone.settled, if_true]
  exact ⟨gone.canceled, rfl, rfl, gone.settlements⟩

theorem Fresh.receive (fresh : Fresh request) (frame : Bytes) :
    Settled (BridgeChannel.receive frame request) ∧
      (BridgeChannel.receive frame request).settlements = [.resolved frame] := by
  simp only [BridgeChannel.receive, settleResolve, fresh.canceled, fresh.settled, fresh.settlements]
  exact ⟨⟨rfl, rfl, _, rfl⟩, rfl⟩

theorem Canceled.receive (gone : Canceled request) (frame : Bytes) : Canceled (BridgeChannel.receive frame request) := by
  simp only [BridgeChannel.receive, gone.canceled, if_true]
  exact ⟨rfl, gone.settled, rfl, gone.settlements⟩

theorem Fresh.cancelQueued (fresh : Fresh request) : Canceled (BridgeChannel.cancelQueued request) := by
  simp only [BridgeChannel.cancelQueued, settleReject, fresh.settled, fresh.settlements]
  exact ⟨rfl, rfl, rfl, _, rfl⟩

theorem Fresh.cancelDispatched (fresh : Fresh request) : Canceled (BridgeChannel.cancelDispatched request) := by
  simp only [BridgeChannel.cancelDispatched, fresh.settled, fresh.settlements]
  exact ⟨rfl, rfl, rfl, _, rfl⟩

/-! ## Looking a request up -/

variable {channel : BridgeChannel}

theorem pending?_modify (r : Nat) {change : HttpRequest → HttpRequest} (same : ∀ http, (change http).pending = http.pending) :
    (channel.modify r change).pending? = channel.pending? := by
  funext other
  simp only [pending?, modify, List.getElem?_modify]
  cases channel.requests[other]? with
  | none => rfl
  | some http =>
    simp only [Option.bind_some]
    split
    · exact same http
    · rfl

theorem pending?_update (r : Nat) (change : PendingRequest → PendingRequest) (other : Nat) :
    (channel.update r change).pending? other =
      if other = r then (channel.pending? other).map change else channel.pending? other := by
  simp only [pending?, update, modify, List.getElem?_modify]
  cases channel.requests[other]? with
  | none => simp
  | some http =>
    by_cases same : other = r
    · simp [same]
    · simp [same, Ne.symm same]

/-- Rejecting one after the other rejects each of them, and leaves the rest alone. -/
theorem foldl_reject (message : String) (queue : List Nat) :
    ∃ requests, queue.foldl (fun channel r => channel.update r (settleReject message)) channel = { channel with requests } := by
  induction queue generalizing channel with
  | nil => exact ⟨channel.requests, rfl⟩
  | cons r queue ih =>
    obtain ⟨requests, rejected⟩ := @ih (channel.update r (settleReject message))
    exact ⟨requests, rejected⟩

theorem settleReject_idem (message : String) (request : PendingRequest) :
    settleReject message (settleReject message request) = settleReject message request := by
  unfold settleReject
  cases request.settled <;> simp

theorem pending?_foldl_reject (message : String) (queue : List Nat) (r : Nat) :
    (queue.foldl (fun channel r => channel.update r (settleReject message)) channel).pending? r =
      if r ∈ queue then (channel.pending? r).map (settleReject message) else channel.pending? r := by
  induction queue generalizing channel with
  | nil => simp
  | cons first queue ih =>
    rw [List.foldl_cons, ih, pending?_update]
    have twice : settleReject message ∘ settleReject message = settleReject message := funext (settleReject_idem message)
    by_cases same : r = first
    · simp [same, twice]
    · simp [same]

/-! ## The queues -/

/-- The length and the text of a response frame. -/
def framed (frame : Bytes) : Bytes := uint32 frame.length ++ frame

structure Aligned (channel : BridgeChannel) : Prop where
  counted : channel.frames.length ≤ channel.written.length
  queue : channel.pendingQueue = channel.written.drop channel.frames.length ∨
    channel.pendingQueue = [] ∧ channel.writeQueue = [] ∧ (channel.connected = false ∨ channel.destroyed = true)
  distinct : (channel.written ++ channel.writeQueue).Nodup
  known : ∀ r ∈ channel.written ++ channel.writeQueue, (channel.pending? r).isSome
  queued : ∀ r ∈ channel.writeQueue, ∀ request, channel.pending? r = some request →
    Fresh request ∧ request.listening = true
  dispatched : ∀ r ∈ channel.pendingQueue, ∀ request, channel.pending? r = some request →
    request.timeout = true ∧ (Fresh request ∧ request.listening = true ∨ Canceled request)
  answered : ∀ (k r : Nat) (frame : Bytes), channel.written[k]? = some r → channel.frames[k]? = some frame →
    ∀ request, channel.pending? r = some request → Answered frame request
  resolved : ∀ r request frame, channel.pending? r = some request → .resolved frame ∈ request.settlements →
    ∃ k : Nat, channel.written[k]? = some r ∧ channel.frames[k]? = some frame
  settled : ∀ r request, channel.pending? r = some request → r ∉ channel.writeQueue → r ∉ channel.pendingQueue →
    Settled request

/-- The bytes of the connection are the frames taken off it, and what is buffered. -/
def Streamed (channel : BridgeChannel) : Prop :=
  ∃ rest, channel.received = channel.frames.flatMap framed ++ rest ∧ (channel.connected = true → rest = channel.tcpBuffer)

theorem Aligned.pending_written (aligned : Aligned channel) {r : Nat} (member : r ∈ channel.pendingQueue) :
    r ∈ channel.written := by
  rcases aligned.queue with same | ⟨empty, -⟩
  · rw [same] at member
    exact List.mem_of_mem_drop member
  · rw [empty] at member
    cases member

theorem Aligned.write_apart (aligned : Aligned channel) {r : Nat} (member : r ∈ channel.writeQueue) :
    r ∉ channel.written := by
  intro written
  exact (List.nodup_append.mp aligned.distinct).2.2 r written r member rfl

/-- Where the queues and the requests are the same. -/
theorem Aligned.of_same {channel' : BridgeChannel} (aligned : Aligned channel) (pending : channel'.pending? = channel.pending?)
    (pendingQueue : channel'.pendingQueue = channel.pendingQueue) (writeQueue : channel'.writeQueue = channel.writeQueue)
    (written : channel'.written = channel.written) (frames : channel'.frames = channel.frames)
    (connected : channel.connected = false → channel'.connected = false) (destroyed : channel.destroyed = true → channel'.destroyed = true) :
    Aligned channel' := by
  constructor
  · rw [frames, written]
    exact aligned.counted
  · rw [pendingQueue, writeQueue, written, frames]
    exact aligned.queue.imp_right fun dead => ⟨dead.1, dead.2.1, dead.2.2.imp connected destroyed⟩
  · rw [written, writeQueue]
    exact aligned.distinct
  · rw [written, writeQueue, pending]
    exact aligned.known
  · rw [writeQueue, pending]
    exact aligned.queued
  · rw [pendingQueue, pending]
    exact aligned.dispatched
  · rw [written, frames, pending]
    exact aligned.answered
  · rw [written, frames, pending]
    exact aligned.resolved
  · rw [writeQueue, pendingQueue, pending]
    exact aligned.settled

/-- A new request joins the queue of those to write. -/
theorem Aligned.enqueue {channel' : BridgeChannel} (aligned : Aligned channel) {r : Nat} (new : channel.pending? r = none)
    (alive : ¬(channel.connected = false ∨ channel.destroyed = true)) (fresh : Fresh request) (listening : request.listening = true)
    (pending : ∀ other, channel'.pending? other = if other = r then some request else channel.pending? other)
    (pendingQueue : channel'.pendingQueue = channel.pendingQueue) (writeQueue : channel'.writeQueue = channel.writeQueue ++ [r])
    (written : channel'.written = channel.written) (frames : channel'.frames = channel.frames) : Aligned channel' := by
  have unknown : r ∉ channel.written ++ channel.writeQueue := by
    intro member
    have some_ := aligned.known r member
    rw [new] at some_
    cases some_
  have apart : ∀ {other}, other ∈ channel.written ++ channel.writeQueue → other ≠ r := by
    rintro other member rfl
    exact unknown member
  constructor
  · rw [frames, written]
    exact aligned.counted
  · rw [pendingQueue, written, frames]
    exact .inl (aligned.queue.resolve_right fun dead => alive dead.2.2)
  · rw [written, writeQueue, ← List.append_assoc]
    refine List.nodup_append.mpr ⟨aligned.distinct, List.nodup_singleton r, ?_⟩
    rintro other member last same rfl
    rw [List.mem_singleton.mp same] at member
    exact unknown member
  · intro other member
    rw [written, writeQueue, ← List.append_assoc] at member
    rw [pending]
    split
    · rfl
    · rename_i different
      rcases List.mem_append.mp member with before | last
      · exact aligned.known other before
      · exact absurd (List.mem_singleton.mp last) different
  · intro other member found same
    rw [writeQueue] at member
    rw [pending] at same
    split at same
    · rw [← Option.some.inj same]
      exact ⟨fresh, listening⟩
    · rename_i different
      rcases List.mem_append.mp member with before | last
      · exact aligned.queued other before found same
      · exact absurd (List.mem_singleton.mp last) different
  · intro other member found same
    rw [pendingQueue] at member
    rw [pending, if_neg (apart (List.mem_append_left _ (aligned.pending_written member)))] at same
    exact aligned.dispatched other member found same
  · intro k other frame at_ taken found same
    rw [written] at at_
    rw [frames] at taken
    rw [pending, if_neg (apart (List.mem_append_left _ (List.mem_of_getElem? at_)))] at same
    exact aligned.answered k other frame at_ taken found same
  · intro other found frame same member
    rw [written, frames]
    rw [pending] at same
    split at same
    · rw [← Option.some.inj same, fresh.settlements] at member
      cases member
    · exact aligned.resolved other found frame same member
  · intro other found same unqueued waiting
    rw [writeQueue] at unqueued
    rw [pendingQueue] at waiting
    rw [pending] at same
    split at same
    · rename_i own
      rw [own] at unqueued
      exact absurd (List.mem_append_right _ (List.mem_singleton_self r)) unqueued
    · exact aligned.settled other found same (fun member => unqueued (List.mem_append_left _ member)) waiting

/-- The first request to write goes to the socket. -/
theorem Aligned.dispatch {channel' : BridgeChannel} (aligned : Aligned channel) {r : Nat} {rest : List Nat}
    (first : channel.writeQueue = r :: rest)
    (pending : ∀ other, channel'.pending? other =
      if other = r then (channel.pending? other).map fun request => { request with timeout := true } else channel.pending? other)
    (pendingQueue : channel'.pendingQueue = channel.pendingQueue ++ [r]) (writeQueue : channel'.writeQueue = rest)
    (written : channel'.written = channel.written ++ [r]) (frames : channel'.frames = channel.frames) :
    Aligned channel' := by
  have own : r ∈ channel.writeQueue := by simp [first]
  have distinct := aligned.distinct
  rw [first] at distinct
  have unwritten : ∀ {other}, other ∈ channel.written → other ≠ r := by
    rintro other member rfl
    exact aligned.write_apart own member
  have later : ∀ {other}, other ∈ rest → other ≠ r := by
    rintro other member rfl
    exact (List.nodup_cons.mp (List.nodup_append.mp distinct).2.1).1 member
  have behind : ∀ {other}, other ∈ rest → other ∈ channel.writeQueue := by
    intro other member
    rw [first]
    exact List.mem_cons_of_mem _ member
  constructor
  · rw [frames, written, List.length_append]
    exact Nat.le_add_right_of_le aligned.counted
  · have alive := aligned.queue.resolve_right fun dead => by simp [first] at dead
    rw [pendingQueue, written, frames, List.drop_append_of_le_length aligned.counted, alive]
    exact .inl rfl
  · rw [written, writeQueue, List.append_assoc, List.singleton_append]
    exact distinct
  · intro other member
    rw [written, writeQueue, List.append_assoc, List.singleton_append, ← first] at member
    rw [pending]
    split
    · rw [Option.isSome_map]
      exact aligned.known other member
    · exact aligned.known other member
  · intro other member found same
    rw [writeQueue] at member
    rw [pending, if_neg (later member)] at same
    exact aligned.queued other (behind member) found same
  · intro other member found same
    rw [pendingQueue] at member
    rw [pending] at same
    rcases List.mem_append.mp member with before | last
    · rw [if_neg (unwritten (aligned.pending_written before))] at same
      exact aligned.dispatched other before found same
    · rw [if_pos (List.mem_singleton.mp last)] at same
      obtain ⟨request, known, rfl⟩ := Option.map_eq_some_iff.mp same
      rw [List.mem_singleton.mp last] at known
      obtain ⟨fresh, listening⟩ := aligned.queued r own request known
      exact ⟨rfl, .inl ⟨⟨fresh.canceled, fresh.settled, fresh.settlements⟩, listening⟩⟩
  · intro k other frame at_ taken found same
    rw [frames] at taken
    have within : k < channel.frames.length := (List.getElem?_eq_some_iff.mp taken).1
    have bound : k < channel.written.length := Nat.lt_of_lt_of_le within aligned.counted
    rw [written, List.getElem?_append_left bound] at at_
    rw [pending, if_neg (unwritten (List.mem_of_getElem? at_))] at same
    exact aligned.answered k other frame at_ taken found same
  · intro other found frame same member
    rw [pending] at same
    split at same
    · rename_i own'
      obtain ⟨request, known, rfl⟩ := Option.map_eq_some_iff.mp same
      rw [own'] at known
      obtain ⟨fresh, -⟩ := aligned.queued r own request known
      rw [show _ = _ from fresh.settlements] at member
      cases member
    · obtain ⟨k, at_, taken⟩ := aligned.resolved other found frame same member
      refine ⟨k, ?_, by rwa [frames]⟩
      rw [written, List.getElem?_append_left (List.getElem?_eq_some_iff.mp at_).1]
      exact at_
  · intro other found same unqueued waiting
    rw [writeQueue] at unqueued
    rw [pendingQueue] at waiting
    have different : other ≠ r := by
      rintro rfl
      exact waiting (List.mem_append_right _ (List.mem_singleton_self _))
    rw [pending, if_neg different] at same
    apply aligned.settled other found same
    · rw [first]
      exact List.not_mem_cons_of_ne_of_not_mem different unqueued
    · exact fun member => waiting (List.mem_append_left _ member)

/-- The first request that waits gets the frame. -/
theorem Aligned.take {channel' : BridgeChannel} (aligned : Aligned channel) {r : Nat} {rest : List Nat}
    (first : channel.pendingQueue = r :: rest) (frame : Bytes)
    (pending : ∀ other, channel'.pending? other =
      if other = r then (channel.pending? other).map (BridgeChannel.receive frame) else channel.pending? other)
    (pendingQueue : channel'.pendingQueue = rest) (writeQueue : channel'.writeQueue = channel.writeQueue)
    (written : channel'.written = channel.written) (frames : channel'.frames = channel.frames ++ [frame]) :
    Aligned channel' := by
  have queue := aligned.queue.resolve_right fun dead => by simp [first] at dead
  have own : r ∈ channel.pendingQueue := by simp [first]
  have at_ : channel.written[channel.frames.length]? = some r := by
    have head := congrArg (fun queue => queue[0]?) queue
    simpa [first, eq_comm] using head
  have behind : rest = channel.written.drop (channel.frames.length + 1) := by
    have tail := congrArg List.tail queue
    rwa [first, List.tail_drop] at tail
  have within : channel.frames.length < channel.written.length := (List.getElem?_eq_some_iff.mp at_).1
  have unique := (List.nodup_append.mp aligned.distinct).1
  have sole : ∀ {k : Nat}, channel.written[k]? = some r → k = channel.frames.length := by
    intro k same
    obtain ⟨bound, value⟩ := List.getElem?_eq_some_iff.mp same
    obtain ⟨bound', value'⟩ := List.getElem?_eq_some_iff.mp at_
    exact (List.Nodup.getElem_inj_iff unique).mp (value.trans value'.symm)
  have written_r := aligned.pending_written own
  constructor
  · rw [frames, written, List.length_append, List.length_singleton]
    exact within
  · rw [pendingQueue, written, frames, List.length_append, List.length_singleton, behind]
    exact .inl rfl
  · rw [written, writeQueue]
    exact aligned.distinct
  · intro other member
    rw [written, writeQueue] at member
    rw [pending]
    split
    · rw [Option.isSome_map]
      exact aligned.known other member
    · exact aligned.known other member
  · intro other member found same
    rw [writeQueue] at member
    have different : other ≠ r := by
      rintro rfl
      exact aligned.write_apart member written_r
    rw [pending, if_neg different] at same
    exact aligned.queued other member found same
  · intro other member found same
    rw [pendingQueue] at member
    have different : other ≠ r := by
      rintro rfl
      have twice : (other :: rest).Nodup := by
        rw [← first, queue]
        exact unique.sublist (List.drop_sublist _ _)
      exact (List.nodup_cons.mp twice).1 member
    rw [pending, if_neg different] at same
    exact aligned.dispatched other (by rw [first]; exact List.mem_cons_of_mem _ member) found same
  · -- The new frame is that of the request, and every other frame is as it was.
    intro k other taken_frame written_at taken found same
    rw [written] at written_at
    rw [frames] at taken
    by_cases last : k = channel.frames.length
    · rw [last] at written_at taken
      rw [List.getElem?_concat_length, Option.some.injEq] at taken
      rw [at_, Option.some.injEq] at written_at
      rw [pending, if_pos written_at.symm] at same
      obtain ⟨request, known, rfl⟩ := Option.map_eq_some_iff.mp same
      rw [← written_at] at known
      rw [← taken]
      rcases (aligned.dispatched r own request known).2 with ⟨fresh, -⟩ | gone
      · exact .inl (fresh.receive frame).2
      · exact .inr (gone.receive frame)
    · have earlier : k < channel.frames.length := by
        have bound := (List.getElem?_eq_some_iff.mp taken).1
        rw [List.length_append, List.length_singleton] at bound
        omega
      have different : other ≠ r := by
        rintro rfl
        exact last (sole written_at)
      rw [List.getElem?_append_left earlier] at taken
      rw [pending, if_neg different] at same
      exact aligned.answered k other taken_frame written_at taken found same
  · intro other found taken_frame same member
    rw [pending] at same
    split at same
    · rename_i own'
      obtain ⟨request, known, rfl⟩ := Option.map_eq_some_iff.mp same
      rw [own'] at known ⊢
      refine ⟨channel.frames.length, by rw [written, at_], ?_⟩
      rw [frames, List.getElem?_concat_length]
      rcases (aligned.dispatched r own request known).2 with ⟨fresh, -⟩ | gone
      · rw [(fresh.receive frame).2, List.mem_singleton, Settlement.resolved.injEq] at member
        rw [member]
      · obtain ⟨message, single⟩ := (gone.receive frame).settlements
        rw [single, List.mem_singleton] at member
        cases member
    · obtain ⟨k, written_at, taken⟩ := aligned.resolved other found taken_frame same member
      refine ⟨k, by rw [written, written_at], ?_⟩
      rw [frames, List.getElem?_append_left (List.getElem?_eq_some_iff.mp taken).1]
      exact taken
  · intro other found same unqueued waiting
    rw [writeQueue] at unqueued
    rw [pendingQueue] at waiting
    rw [pending] at same
    split at same
    · rename_i own'
      obtain ⟨request, known, rfl⟩ := Option.map_eq_some_iff.mp same
      rw [own'] at known
      rcases (aligned.dispatched r own request known).2 with ⟨fresh, -⟩ | gone
      · exact (fresh.receive frame).1
      · exact (gone.receive frame).ended
    · rename_i different
      apply aligned.settled other found same unqueued
      rw [first]
      exact List.not_mem_cons_of_ne_of_not_mem different waiting

/-- Everything in the queues is rejected, and the connection is dead. -/
theorem Aligned.reject {channel' : BridgeChannel} (aligned : Aligned channel) (message : String)
    (pending : ∀ r, channel'.pending? r = if r ∈ channel.pendingQueue ++ channel.writeQueue then
      (channel.pending? r).map (settleReject message) else channel.pending? r)
    (pendingQueue : channel'.pendingQueue = []) (writeQueue : channel'.writeQueue = [])
    (written : channel'.written = channel.written) (frames : channel'.frames = channel.frames)
    (dead : channel'.connected = false ∨ channel'.destroyed = true) : Aligned channel' := by
  have rejected : ∀ r ∈ channel.pendingQueue ++ channel.writeQueue, ∀ request, channel.pending? r = some request →
      Settled (settleReject message request) ∧
        ((settleReject message request).settlements = [.rejected message] ∨ Canceled (settleReject message request)) := by
    intro r member request known
    rcases List.mem_append.mp member with waiting | unwritten
    · rcases (aligned.dispatched r waiting request known).2 with ⟨fresh, -⟩ | gone
      · exact ⟨(fresh.reject message).1, .inl (fresh.reject message).2⟩
      · exact ⟨(gone.reject message).ended, .inr (gone.reject message)⟩
    · have fresh := (aligned.queued r unwritten request known).1
      exact ⟨(fresh.reject message).1, .inl (fresh.reject message).2⟩
  constructor
  · rw [frames, written]
    exact aligned.counted
  · exact .inr ⟨pendingQueue, writeQueue, dead⟩
  · rw [written, writeQueue, List.append_nil]
    exact (List.nodup_append.mp aligned.distinct).1
  · intro r member
    rw [written, writeQueue, List.append_nil] at member
    have known := aligned.known r (List.mem_append_left _ member)
    rw [pending]
    split
    · rwa [Option.isSome_map]
    · exact known
  · intro r member
    rw [writeQueue] at member
    cases member
  · intro r member
    rw [pendingQueue] at member
    cases member
  · intro k r frame at_ taken found same
    rw [written] at at_
    rw [frames] at taken
    have outside : r ∉ channel.pendingQueue ++ channel.writeQueue := by
      intro member
      rcases List.mem_append.mp member with waiting | unwritten
      · -- What waits was written after everything that is answered.
        rcases aligned.queue with same | ⟨empty, -⟩
        · rw [same] at waiting
          obtain ⟨k', bound, value⟩ := List.mem_iff_getElem.mp waiting
          have unique := (List.nodup_append.mp aligned.distinct).1
          obtain ⟨within, value'⟩ := List.getElem?_eq_some_iff.mp at_
          rw [List.getElem_drop] at value
          have place := (List.Nodup.getElem_inj_iff unique).mp (value.trans value'.symm)
          have earlier := (List.getElem?_eq_some_iff.mp taken).1
          omega
        · rw [empty] at waiting
          cases waiting
      · exact aligned.write_apart unwritten (List.mem_of_getElem? at_)
    rw [pending, if_neg outside] at same
    exact aligned.answered k r frame at_ taken found same
  · intro r found frame same member
    rw [written, frames]
    rw [pending] at same
    split at same
    · rename_i inside
      obtain ⟨request, known, rfl⟩ := Option.map_eq_some_iff.mp same
      rcases (rejected r inside request known).2 with single | gone
      · rw [single, List.mem_singleton] at member
        cases member
      · obtain ⟨text, single⟩ := gone.settlements
        rw [single, List.mem_singleton] at member
        cases member
    · exact aligned.resolved r found frame same member
  · intro r found same _ _
    rw [pending] at same
    split at same
    · rename_i inside
      obtain ⟨request, known, rfl⟩ := Option.map_eq_some_iff.mp same
      exact (rejected r inside request known).1
    · rename_i outside
      rw [List.mem_append, not_or] at outside
      exact aligned.settled r found same outside.2 outside.1

/-- A request that is still to be written leaves the queue. -/
theorem Aligned.withdraw {channel' : BridgeChannel} (aligned : Aligned channel) {r : Nat} (own : r ∈ channel.writeQueue)
    (pending : ∀ other, channel'.pending? other =
      if other = r then (channel.pending? other).map BridgeChannel.cancelQueued else channel.pending? other)
    (pendingQueue : channel'.pendingQueue = channel.pendingQueue) (writeQueue : channel'.writeQueue = channel.writeQueue.erase r)
    (written : channel'.written = channel.written) (frames : channel'.frames = channel.frames) : Aligned channel' := by
  have alive := aligned.queue.resolve_right fun dead => by simp [dead.2.1] at own
  have distinct := aligned.distinct
  have unique := (List.nodup_append.mp distinct).2.1
  have unwritten : ∀ {other}, other ∈ channel.written → other ≠ r := by
    rintro other member rfl
    exact aligned.write_apart own member
  have gone : ∀ request, channel.pending? r = some request → Canceled (BridgeChannel.cancelQueued request) :=
    fun request known => (aligned.queued r own request known).1.cancelQueued
  constructor
  · rw [frames, written]
    exact aligned.counted
  · rw [pendingQueue, written, frames]
    exact .inl alive
  · rw [written, writeQueue]
    exact distinct.sublist (List.erase_sublist.append_left _)
  · intro other member
    rw [written, writeQueue] at member
    have known := aligned.known other ((List.erase_sublist.append_left _).subset member)
    rw [pending]
    split
    · rwa [Option.isSome_map]
    · exact known
  · intro other member found same
    rw [writeQueue, unique.mem_erase_iff] at member
    rw [pending, if_neg member.1] at same
    exact aligned.queued other member.2 found same
  · intro other member found same
    rw [pendingQueue] at member
    rw [pending, if_neg (unwritten (aligned.pending_written member))] at same
    exact aligned.dispatched other member found same
  · intro k other frame at_ taken found same
    rw [written] at at_
    rw [frames] at taken
    rw [pending, if_neg (unwritten (List.mem_of_getElem? at_))] at same
    exact aligned.answered k other frame at_ taken found same
  · intro other found frame same member
    rw [written, frames]
    rw [pending] at same
    split at same
    · rename_i own'
      obtain ⟨request, known, rfl⟩ := Option.map_eq_some_iff.mp same
      rw [own'] at known
      obtain ⟨message, single⟩ := (gone request known).settlements
      rw [single, List.mem_singleton] at member
      cases member
    · exact aligned.resolved other found frame same member
  · intro other found same unqueued waiting
    rw [writeQueue, unique.mem_erase_iff] at unqueued
    rw [pendingQueue] at waiting
    rw [pending] at same
    split at same
    · rename_i own'
      obtain ⟨request, known, rfl⟩ := Option.map_eq_some_iff.mp same
      rw [own'] at known
      exact (gone request known).ended
    · rename_i different
      exact aligned.settled other found same (fun member => unqueued ⟨different, member⟩) waiting

/-- A request that was written keeps its place when its client goes away. -/
theorem Aligned.forsake {channel' : BridgeChannel} (aligned : Aligned channel) {r : Nat} (own : r ∈ channel.pendingQueue)
    (listening : ∀ request, channel.pending? r = some request → request.listening = true)
    (pending : ∀ other, channel'.pending? other =
      if other = r then (channel.pending? other).map BridgeChannel.cancelDispatched else channel.pending? other)
    (pendingQueue : channel'.pendingQueue = channel.pendingQueue) (writeQueue : channel'.writeQueue = channel.writeQueue)
    (written : channel'.written = channel.written) (frames : channel'.frames = channel.frames) : Aligned channel' := by
  have alive := aligned.queue.resolve_right fun dead => by simp [dead.1] at own
  have fresh : ∀ request, channel.pending? r = some request → Fresh request := by
    intro request known
    rcases (aligned.dispatched r own request known).2 with ⟨fresh, -⟩ | gone
    · exact fresh
    · have deaf := gone.listening
      rw [listening request known] at deaf
      cases deaf
  constructor
  · rw [frames, written]
    exact aligned.counted
  · rw [pendingQueue, written, frames]
    exact .inl alive
  · rw [written, writeQueue]
    exact aligned.distinct
  · intro other member
    rw [written, writeQueue] at member
    have known := aligned.known other member
    rw [pending]
    split
    · rwa [Option.isSome_map]
    · exact known
  · intro other member found same
    rw [writeQueue] at member
    have different : other ≠ r := by
      rintro rfl
      exact aligned.write_apart member (aligned.pending_written own)
    rw [pending, if_neg different] at same
    exact aligned.queued other member found same
  · intro other member found same
    rw [pendingQueue] at member
    rw [pending] at same
    split at same
    · rename_i own'
      obtain ⟨request, known, rfl⟩ := Option.map_eq_some_iff.mp same
      rw [own'] at known
      refine ⟨?_, .inr (fresh request known).cancelDispatched⟩
      simp only [BridgeChannel.cancelDispatched, (fresh request known).settled]
      exact (aligned.dispatched r own request known).1
    · exact aligned.dispatched other member found same
  · intro k other frame at_ taken found same
    rw [written] at at_
    rw [frames] at taken
    rw [pending] at same
    split at same
    · rename_i own'
      obtain ⟨request, known, rfl⟩ := Option.map_eq_some_iff.mp same
      rw [own'] at known
      exact .inr (fresh request known).cancelDispatched
    · exact aligned.answered k other frame at_ taken found same
  · intro other found frame same member
    rw [written, frames]
    rw [pending] at same
    split at same
    · rename_i own'
      obtain ⟨request, known, rfl⟩ := Option.map_eq_some_iff.mp same
      rw [own'] at known
      obtain ⟨message, single⟩ := (fresh request known).cancelDispatched.settlements
      rw [single, List.mem_singleton] at member
      cases member
    · exact aligned.resolved other found frame same member
  · intro other found same unqueued waiting
    rw [writeQueue] at unqueued
    rw [pendingQueue] at waiting
    have different : other ≠ r := by
      rintro rfl
      exact waiting own
    rw [pending, if_neg different] at same
    exact aligned.settled other found same unqueued waiting

end BridgeChannel

end AiryFS
