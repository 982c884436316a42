import AiryFS.Container.Matching

/-! The bridge over every run: its connections, one after the other, and the requests on each. -/

set_option autoImplicit false

namespace AiryFS

open Foundation

open Hrana (HEADER_SIZE MAX_TRANSPORT_FRAME_BYTES)

open Archive (uint32 getUint32)

namespace BridgeChannel

variable {channel channel' : BridgeChannel}

/-! ## The two sides of a connection -/

/-- The side of the socket. -/
structure Sound (channel : BridgeChannel) : Prop where
  aligned : Aligned channel
  streamed : Streamed channel
  drained : channel.connected = false → channel.pendingQueue = [] ∧ channel.writeQueue = []

/-- What waits to be written waits for the socket to drain. -/
def Flowing (channel : BridgeChannel) : Prop := channel.writeQueue ≠ [] → channel.writing = true

/-- The side of the HTTP server. -/
structure Counted (channel : BridgeChannel) : Prop where
  admitted : channel.admittedHttpRequests = (channel.requests.map HttpRequest.released).count false
  bounded : channel.admittedHttpRequests ≤ MAX_PENDING_REQUESTS
  reading : ∀ r, channel.phase? r = some .reading → channel.pending? r = none

/-- What happens on the socket does not reach the HTTP server but through a settlement. -/
structure SameHttp (channel channel' : BridgeChannel) : Prop where
  admitted : channel'.admittedHttpRequests = channel.admittedHttpRequests
  released : channel'.requests.map HttpRequest.released = channel.requests.map HttpRequest.released
  phases : channel'.requests.map HttpRequest.phase = channel.requests.map HttpRequest.phase
  unsent : ∀ r, channel.pending? r = none → channel'.pending? r = none

theorem SameHttp.refl (channel : BridgeChannel) : SameHttp channel channel := ⟨rfl, rfl, rfl, fun _ unsent => unsent⟩

theorem SameHttp.trans {last : BridgeChannel} (first : SameHttp channel channel') (second : SameHttp channel' last) :
    SameHttp channel last :=
  ⟨second.admitted.trans first.admitted, second.released.trans first.released, second.phases.trans first.phases,
    fun r unsent => second.unsent r (first.unsent r unsent)⟩

theorem SameHttp.phase? (same : SameHttp channel channel') (r : Nat) : channel'.phase? r = channel.phase? r := by
  have phases := congrArg (fun phases => phases[r]?) same.phases
  simpa [BridgeChannel.phase?] using phases

theorem Counted.same (counted : Counted channel) (same : SameHttp channel channel') : Counted channel' := by
  refine ⟨?_, ?_, ?_⟩
  · rw [same.admitted, same.released]
    exact counted.admitted
  · rw [same.admitted]
    exact counted.bounded
  · intro r reading
    rw [same.phase?] at reading
    exact same.unsent r (counted.reading r reading)

theorem map_modify {β : Type} (view : HttpRequest → β) {change : HttpRequest → HttpRequest}
    (kept : ∀ http, view (change http) = view http) (requests : List HttpRequest) (r : Nat) :
    (requests.modify r change).map view = requests.map view := by
  apply List.ext_getElem?
  intro other
  simp only [List.getElem?_map, List.getElem?_modify]
  cases requests[other]? with
  | none => rfl
  | some http =>
    simp only [Option.map_eq_map, Option.map_some]
    split
    · rw [kept]
    · rfl

theorem sameHttp_update (channel : BridgeChannel) (r : Nat) (change : PendingRequest → PendingRequest) :
    SameHttp channel (channel.update r change) := by
  refine ⟨rfl, map_modify HttpRequest.released (by intro http; rfl) _ _, map_modify HttpRequest.phase (by intro http; rfl) _ _, ?_⟩
  intro other unsent
  rw [pending?_update, unsent]
  split <;> rfl

/-! ## Closing and rejecting -/

theorem closeRetired_eq (channel : BridgeChannel) :
    ∃ ended, channel.closeRetiredChannelIfDrained = { channel with ended } := by
  unfold closeRetiredChannelIfDrained
  split
  · exact ⟨channel.ended, rfl⟩
  · split
    · exact ⟨true, rfl⟩
    · exact ⟨channel.ended, rfl⟩

theorem Sound.ended (sound : Sound channel) (ended : Bool) : Sound { channel with ended } :=
  ⟨sound.aligned.of_same rfl rfl rfl rfl rfl (fun lost => lost) fun dead => dead, sound.streamed, sound.drained⟩

theorem Sound.close (sound : Sound channel) : Sound channel.closeRetiredChannelIfDrained := by
  obtain ⟨ended, same⟩ := closeRetired_eq channel
  rw [same]
  exact sound.ended ended

theorem sameHttp_close (channel : BridgeChannel) : SameHttp channel channel.closeRetiredChannelIfDrained := by
  obtain ⟨ended, same⟩ := closeRetired_eq channel
  rw [same]
  exact ⟨rfl, rfl, rfl, fun _ unsent => unsent⟩

theorem Flowing.close (flowing : Flowing channel) : Flowing channel.closeRetiredChannelIfDrained := by
  obtain ⟨ended, same⟩ := closeRetired_eq channel
  rw [same]
  exact flowing

theorem rejectPending_eq (channel : BridgeChannel) (message : String) :
    ∃ requests, channel.rejectPending message =
      { channel with requests, pendingQueue := [], writeQueue := [], writing := false } := by
  obtain ⟨requests, rejected⟩ := @foldl_reject channel message (channel.pendingQueue ++ channel.writeQueue)
  refine ⟨requests, ?_⟩
  rw [rejectPending, rejected]

theorem pending?_rejectPending (channel : BridgeChannel) (message : String) (r : Nat) :
    (channel.rejectPending message).pending? r = if r ∈ channel.pendingQueue ++ channel.writeQueue then
      (channel.pending? r).map (settleReject message) else channel.pending? r :=
  pending?_foldl_reject message _ r

theorem sameHttp_foldl_reject (message : String) (queue : List Nat) (channel : BridgeChannel) :
    SameHttp channel (queue.foldl (fun channel r => channel.update r (settleReject message)) channel) := by
  induction queue generalizing channel with
  | nil => exact .refl channel
  | cons r queue ih => exact (sameHttp_update channel r _).trans (ih _)

theorem sameHttp_rejectPending (channel : BridgeChannel) (message : String) :
    SameHttp channel (channel.rejectPending message) := by
  have same := sameHttp_foldl_reject message (channel.pendingQueue ++ channel.writeQueue) channel
  exact ⟨same.admitted, same.released, same.phases, same.unsent⟩

/-- Rejecting is sound once no more frames can arrive. -/
theorem Sound.reject (sound : Sound channel) (message : String)
    (dead : channel.connected = false ∨ channel.destroyed = true) : Sound (channel.rejectPending message) := by
  have pending := pending?_rejectPending channel message
  obtain ⟨requests, same⟩ := rejectPending_eq channel message
  rw [same] at pending ⊢
  exact ⟨sound.aligned.reject message pending rfl rfl rfl rfl dead, sound.streamed, fun _ => ⟨rfl, rfl⟩⟩

theorem flowing_rejectPending (channel : BridgeChannel) (message : String) : Flowing (channel.rejectPending message) := by
  obtain ⟨requests, same⟩ := rejectPending_eq channel message
  rw [same]
  exact fun filled => absurd rfl filled

/-- Losing the connection rejects what waits, whatever is in the buffer. -/
theorem sound_fail (aligned : Aligned channel) (bytes : ∃ rest, channel.received = channel.frames.flatMap framed ++ rest)
    (alive : channel.connected = true) (message : String) : Sound (channel.failConnection message) := by
  unfold failConnection
  rw [if_neg (by simp [alive])]
  have lost : Aligned { channel with connected := false, tcpBuffer := [] } :=
    aligned.of_same rfl rfl rfl rfl rfl (fun _ => rfl) fun dead => dead
  have pending := pending?_rejectPending { channel with connected := false, tcpBuffer := [] } message
  obtain ⟨requests, same⟩ := rejectPending_eq { channel with connected := false, tcpBuffer := [] } message
  rw [same] at pending ⊢
  obtain ⟨rest, spelled⟩ := bytes
  have rejected : Aligned { channel with
      connected := false, tcpBuffer := [], requests, pendingQueue := [], writeQueue := [], writing := false
      destroyed := true } := lost.reject message pending rfl rfl rfl rfl (.inl rfl)
  exact ⟨rejected, ⟨rest, spelled, fun connected => by cases connected⟩, fun _ => ⟨rfl, rfl⟩⟩

theorem Sound.fail (sound : Sound channel) (message : String) : Sound (channel.failConnection message) := by
  cases alive : channel.connected with
  | false =>
    rw [failConnection, if_pos (by simp [alive])]
    exact sound
  | true =>
    obtain ⟨rest, bytes, -⟩ := sound.streamed
    exact sound_fail sound.aligned ⟨rest, bytes⟩ alive message

theorem sameHttp_fail (channel : BridgeChannel) (message : String) : SameHttp channel (channel.failConnection message) := by
  unfold failConnection
  split
  · exact .refl channel
  · have same := sameHttp_rejectPending { channel with connected := false, tcpBuffer := [] } message
    exact ⟨same.admitted, same.released, same.phases, same.unsent⟩

theorem Flowing.fail (flowing : Flowing channel) (message : String) : Flowing (channel.failConnection message) := by
  unfold failConnection
  split
  · exact flowing
  · exact flowing_rejectPending { channel with connected := false, tcpBuffer := [] } message

/-! ## Writing -/

theorem sameHttp_write (channel : BridgeChannel) (r : Nat) (rest : List Nat) : SameHttp channel (channel.write r rest) := by
  have updated := sameHttp_update channel r fun request => { request with timeout := true }
  exact ⟨updated.admitted, updated.released, updated.phases, updated.unsent⟩

theorem Sound.write (sound : Sound channel) {r : Nat} {rest : List Nat} (unwritten : channel.writeQueue = r :: rest)
    (alive : channel.connected = true) : Sound (channel.write r rest) := by
  refine ⟨sound.aligned.dispatch unwritten (pending?_update r _) rfl rfl rfl rfl, sound.streamed, ?_⟩
  intro lost
  rw [show channel.connected = false from lost] at alive
  cases alive

theorem writeAll_spec (room : Nat) (queue : List Nat) (sound : Sound channel) (unwritten : channel.writeQueue = queue)
    (alive : channel.connected = true) :
    Sound (writeAll room channel queue) ∧ SameHttp channel (writeAll room channel queue) ∧
      Flowing (writeAll room channel queue) := by
  induction queue generalizing room channel with
  | nil =>
    have idle : Sound { channel with writeQueue := [], writing := false } :=
      ⟨sound.aligned.of_same rfl rfl unwritten.symm rfl rfl (fun lost => lost) fun dead => dead, sound.streamed,
        fun lost => ⟨(sound.drained lost).1, rfl⟩⟩
    have same : SameHttp channel { channel with writeQueue := [], writing := false } :=
      ⟨rfl, rfl, rfl, fun _ unsent => unsent⟩
    rw [writeAll]
    refine ⟨idle.close, same.trans (sameHttp_close _), Flowing.close ?_⟩
    exact fun filled => absurd rfl filled
  | cons r rest ih =>
    have sent := sound.write unwritten alive
    have same := sameHttp_write channel r rest
    cases room with
    | zero =>
      -- The buffer of the socket is full, and the rest waits for it to drain.
      rw [writeAll]
      exact ⟨⟨sent.aligned.of_same rfl rfl rfl rfl rfl (fun lost => lost) fun dead => dead, sent.streamed, sent.drained⟩,
        ⟨same.admitted, same.released, same.phases, same.unsent⟩, fun _ => rfl⟩
    | succ room =>
      obtain ⟨sound', same', flowing'⟩ := ih room sent rfl alive
      rw [writeAll]
      exact ⟨sound', same.trans same', flowing'⟩

theorem pumpWrites_spec (room : Nat) (sound : Sound channel) :
    Sound (channel.pumpWrites room) ∧ SameHttp channel (channel.pumpWrites room) ∧ Flowing (channel.pumpWrites room) := by
  unfold pumpWrites
  split
  · rename_i nothing
    refine ⟨sound, .refl channel, ?_⟩
    intro filled
    rcases Bool.or_eq_true_iff.mp nothing with writing | empty
    · exact writing
    · exact absurd (List.isEmpty_iff.mp empty) filled
  · split
    · rename_i dead
      have lost : channel.connected = false ∨ channel.destroyed = true := by simpa using dead
      exact ⟨sound.reject _ lost, sameHttp_rejectPending channel _, flowing_rejectPending channel _⟩
    · rename_i alive
      have connected : channel.connected = true := by simp at alive; exact alive.1
      exact writeAll_spec room _ sound rfl connected

/-! ## Reading -/

theorem uint32_getUint32 {bytes : Bytes} (four : bytes.length = 4) : uint32 (getUint32 bytes) = bytes := by
  obtain ⟨a, b, c, d, rfl⟩ : ∃ a b c d, bytes = [a, b, c, d] := by
    match bytes, four with
    | [a, b, c, d], _ => exact ⟨a, b, c, d, rfl⟩
  have bound : ∀ byte : UInt8, byte.toNat < 256 := fun byte => byte.toNat_lt
  have := bound a
  have := bound b
  have := bound c
  have := bound d
  have digit : ∀ {value : Nat} {byte : UInt8}, value % 256 = byte.toNat → UInt8.ofNat value = byte := by
    intro value byte same
    apply UInt8.toNat_inj.mp
    rw [UInt8.toNat_ofNat']
    exact same
  simp only [getUint32, uint32, List.foldl_cons, List.foldl_nil, List.cons.injEq, and_true]
  refine ⟨digit ?_, digit ?_, digit ?_, digit ?_⟩ <;> omega

/-- A frame that is complete at the start of the buffer. -/
theorem framed_take {buffer : Bytes} {jsonLen : Nat} (declared : jsonLen = getUint32 (buffer.take HEADER_SIZE))
    (complete : HEADER_SIZE + jsonLen ≤ buffer.length) :
    framed ((buffer.drop HEADER_SIZE).take jsonLen) ++ buffer.drop (HEADER_SIZE + jsonLen) = buffer ∧
      ((buffer.drop HEADER_SIZE).take jsonLen).length = jsonLen := by
  have length : ((buffer.drop HEADER_SIZE).take jsonLen).length = jsonLen := by
    rw [List.length_take, List.length_drop]
    omega
  have header : uint32 jsonLen = buffer.take HEADER_SIZE := by
    rw [declared]
    apply uint32_getUint32
    rw [List.length_take]
    unfold HEADER_SIZE at complete ⊢
    omega
  refine ⟨?_, length⟩
  rw [framed, length, header, List.append_assoc, ← List.drop_drop, List.take_append_drop, List.take_append_drop]

theorem Sound.deliver (sound : Sound channel) {r : Nat} {rest : List Nat} (first : channel.pendingQueue = r :: rest)
    (alive : channel.connected = true) {frame : Bytes}
    (complete : framed frame ++ channel.tcpBuffer.drop (HEADER_SIZE + frame.length) = channel.tcpBuffer) :
    Sound (channel.deliver r rest frame) := by
  refine ⟨sound.aligned.take first frame (pending?_update r _) rfl rfl rfl rfl, ?_, ?_⟩
  · obtain ⟨buffered, bytes, same⟩ := sound.streamed
    refine ⟨channel.tcpBuffer.drop (HEADER_SIZE + frame.length), ?_, fun _ => rfl⟩
    change channel.received = (channel.frames ++ [frame]).flatMap framed ++ _
    rw [List.flatMap_append, List.flatMap_singleton, List.append_assoc, complete, bytes, same alive]
  · intro lost
    rw [show channel.connected = false from lost] at alive
    cases alive

theorem sameHttp_deliver (channel : BridgeChannel) (r : Nat) (rest : List Nat) (frame : Bytes) :
    SameHttp channel (channel.deliver r rest frame) := by
  have updated := sameHttp_update channel r (receive frame)
  exact ⟨updated.admitted, updated.released, updated.phases, updated.unsent⟩

theorem drainFrames_spec (waiting : List Nat) (sound : Sound channel) (queue : channel.pendingQueue = waiting)
    (alive : channel.connected = true) (flowing : Flowing channel) :
    Sound (drainFrames channel waiting) ∧ SameHttp channel (drainFrames channel waiting) ∧
      Flowing (drainFrames channel waiting) := by
  induction waiting generalizing channel with
  | nil =>
    unfold drainFrames
    split
    · exact ⟨sound.fail _, sameHttp_fail channel _, flowing.fail _⟩
    · exact ⟨sound, .refl channel, flowing⟩
  | cons r rest ih =>
    unfold drainFrames
    split
    · exact ⟨sound, .refl channel, flowing⟩
    · dsimp only
      split
      · exact ⟨sound.fail _, sameHttp_fail channel _, flowing.fail _⟩
      · split
        · exact ⟨sound, .refl channel, flowing⟩
        · rename_i partial_
          split
          · exact ⟨sound.fail _, sameHttp_fail channel _, flowing.fail _⟩
          · obtain ⟨complete, length⟩ := framed_take rfl (Nat.le_of_not_lt partial_)
            obtain ⟨frame, named⟩ : ∃ frame, frame = (channel.tcpBuffer.drop HEADER_SIZE).take
              (getUint32 (channel.tcpBuffer.take HEADER_SIZE)) := ⟨_, rfl⟩
            rw [← named] at complete length ⊢
            rw [← length] at complete
            obtain ⟨ended, closed⟩ := closeRetired_eq (channel.deliver r rest frame)
            have delivered := sound.deliver queue alive complete
            have same := sameHttp_deliver channel r rest frame
            rw [closed]
            obtain ⟨sound', same', flowing'⟩ := @ih { channel.deliver r rest frame with ended } (delivered.ended ended) rfl
              alive flowing
            exact ⟨sound', (⟨same.admitted, same.released, same.phases, same.unsent⟩ : SameHttp channel
              { channel.deliver r rest frame with ended }).trans same', flowing'⟩

theorem handleTcpData_spec (data : Bytes) (sound : Sound channel) (alive : channel.connected = true)
    (flowing : Flowing channel) :
    Sound (channel.handleTcpData data) ∧ SameHttp channel (channel.handleTcpData data) ∧
      Flowing (channel.handleTcpData data) := by
  obtain ⟨rest, bytes, buffered⟩ := sound.streamed
  have arrived : channel.received ++ data = channel.frames.flatMap framed ++ (channel.tcpBuffer ++ data) := by
    rw [bytes, buffered alive, List.append_assoc]
  have aligned : ∀ tcpBuffer, Aligned { channel with received := channel.received ++ data, tcpBuffer } := fun tcpBuffer =>
    sound.aligned.of_same rfl rfl rfl rfl rfl (fun lost => lost) fun dead => dead
  unfold handleTcpData
  split
  · have same := sameHttp_fail { channel with received := channel.received ++ data } "Buffered DO response exceeds the frame limit"
    have waits : Flowing { channel with received := channel.received ++ data } := flowing
    exact ⟨sound_fail (aligned _) ⟨_, arrived⟩ alive _, ⟨same.admitted, same.released, same.phases, same.unsent⟩,
      waits.fail _⟩
  · obtain ⟨sound', same', flowing'⟩ := drainFrames_spec channel.pendingQueue
      (⟨aligned _, ⟨_, arrived, fun _ => rfl⟩, sound.drained⟩ :
        Sound { channel with received := channel.received ++ data, tcpBuffer := channel.tcpBuffer ++ data }) rfl alive flowing
    exact ⟨sound', ⟨same'.admitted, same'.released, same'.phases, same'.unsent⟩, flowing'⟩

/-! ## The HTTP server -/

structure Safe (channel : BridgeChannel) : Prop where
  sound : Sound channel
  flowing : Flowing channel
  counted : Counted channel

theorem Safe.of_socket (safe : Safe channel)
    (spec : Sound channel' ∧ SameHttp channel channel' ∧ Flowing channel') : Safe channel' :=
  ⟨spec.1, spec.2.2, safe.counted.same spec.2.1⟩

theorem phase?_modify (r : Nat) (change : HttpRequest → HttpRequest) (other : Nat) :
    (channel.modify r change).phase? other =
      if other = r then (channel.requests[other]?).map fun http => (change http).phase else channel.phase? other := by
  simp only [phase?, modify, List.getElem?_modify]
  cases channel.requests[other]? with
  | none => simp
  | some http =>
    by_cases same : other = r
    · simp [same]
    · simp [same, Ne.symm same]

/-- A change of a request that keeps what was sent and what was released. -/
theorem Safe.modify (safe : Safe channel) (r : Nat) {change : HttpRequest → HttpRequest}
    (pending : ∀ http, (change http).pending = http.pending) (released : ∀ http, (change http).released = http.released)
    (phase : ∀ http, (change http).phase = .reading → http.phase = .reading) : Safe (channel.modify r change) := by
  have same := @pending?_modify channel r change pending
  refine ⟨⟨safe.sound.aligned.of_same same rfl rfl rfl rfl (fun lost => lost) fun dead => dead, safe.sound.streamed,
    safe.sound.drained⟩, safe.flowing, ?_, safe.counted.bounded, ?_⟩
  · rw [show (channel.modify r change).requests.map HttpRequest.released = _ from map_modify HttpRequest.released released _ _]
    exact safe.counted.admitted
  · intro other reading
    rw [same]
    apply safe.counted.reading
    rw [phase?_modify] at reading
    split at reading
    · obtain ⟨http, found, now⟩ := Option.map_eq_some_iff.mp reading
      rw [phase?, found, Option.map_some, phase http now]
    · exact reading

theorem Safe.reserve (safe : Safe channel) : Safe channel.reserveHttpRequest := by
  unfold reserveHttpRequest
  split
  · exact safe
  · split
    · exact safe
    · rename_i room
      have same : ({ channel with
          admittedHttpRequests := channel.admittedHttpRequests + 1
          requests := channel.requests ++ [⟨.reading, false, false, none⟩] } : BridgeChannel).pending? = channel.pending? := by
        funext r
        rcases Nat.lt_trichotomy r channel.requests.length with before | last | beyond
        · simp [pending?, List.getElem?_append_left before]
        · simp [pending?, last]
        · simp [pending?, List.getElem?_eq_none (Nat.le_of_lt beyond), Nat.ne_of_gt (Nat.sub_pos_of_lt beyond),
            List.getElem?_append_right (Nat.le_of_lt beyond)]
      refine ⟨⟨safe.sound.aligned.of_same same rfl rfl rfl rfl (fun lost => lost) fun dead => dead, safe.sound.streamed,
        safe.sound.drained⟩, safe.flowing, ?_, Nat.lt_of_not_le room, ?_⟩
      · simp [safe.counted.admitted]
      · intro r reading
        rw [same]
        by_cases before : r < channel.requests.length
        · apply safe.counted.reading
          simpa [phase?, List.getElem?_append_left before] using reading
        · simp [pending?, List.getElem?_eq_none (Nat.le_of_not_lt before)]

/-- A request that was canceled before it could be queued. -/
theorem Aligned.discard {request : PendingRequest} (aligned : Aligned channel) {r : Nat} (new : channel.pending? r = none)
    (gone : Canceled request)
    (pending : ∀ other, channel'.pending? other = if other = r then some request else channel.pending? other)
    (pendingQueue : channel'.pendingQueue = channel.pendingQueue) (writeQueue : channel'.writeQueue = channel.writeQueue)
    (written : channel'.written = channel.written) (frames : channel'.frames = channel.frames)
    (connected : channel.connected = false → channel'.connected = false)
    (destroyed : channel.destroyed = true → channel'.destroyed = true) : Aligned channel' := by
  have known : ∀ {other}, other ∈ channel.written ++ channel.writeQueue → other ≠ r := by
    rintro other member rfl
    have some_ := aligned.known other member
    rw [new] at some_
    cases some_
  constructor
  · rw [frames, written]
    exact aligned.counted
  · rw [pendingQueue, writeQueue, written, frames]
    exact aligned.queue.imp_right fun dead => ⟨dead.1, dead.2.1, dead.2.2.imp connected destroyed⟩
  · rw [written, writeQueue]
    exact aligned.distinct
  · intro other member
    rw [written, writeQueue] at member
    rw [pending, if_neg (known member)]
    exact aligned.known other member
  · intro other member found same
    rw [writeQueue] at member
    rw [pending, if_neg (known (List.mem_append_right _ member))] at same
    exact aligned.queued other member found same
  · intro other member found same
    rw [pendingQueue] at member
    rw [pending, if_neg (known (List.mem_append_left _ (aligned.pending_written member)))] at same
    exact aligned.dispatched other member found same
  · intro k other frame at_ taken found same
    rw [written] at at_
    rw [frames] at taken
    rw [pending, if_neg (known (List.mem_append_left _ (List.mem_of_getElem? at_)))] at same
    exact aligned.answered k other frame at_ taken found same
  · intro other found frame same member
    rw [written, frames]
    rw [pending] at same
    split at same
    · obtain ⟨message, single⟩ := gone.settlements
      rw [← Option.some.inj same, single, List.mem_singleton] at member
      cases member
    · exact aligned.resolved other found frame same member
  · intro other found same unqueued waiting
    rw [writeQueue] at unqueued
    rw [pendingQueue] at waiting
    rw [pending] at same
    split at same
    · rw [← Option.some.inj same]
      exact gone.ended
    · exact aligned.settled other found same unqueued waiting

/-- A request is sent: it has a `PendingRequest` from now on. -/
theorem pending?_sent {r : Nat} {http : HttpRequest} (found : channel.requests[r]? = some http) (request : PendingRequest)
    (other : Nat) :
    (channel.modify r fun http => { http with phase := .waiting, pending := some request }).pending? other =
      if other = r then some request else channel.pending? other := by
  simp only [pending?, BridgeChannel.modify, List.getElem?_modify]
  by_cases same : other = r
  · simp [same, found]
  · cases channel.requests[other]? <;> simp [same, Ne.symm same]

theorem counted_sent (counted : Counted channel) (r : Nat) (request : PendingRequest) :
    Counted (channel.modify r fun http => { http with phase := .waiting, pending := some request }) := by
  refine ⟨?_, counted.bounded, ?_⟩
  · rw [show (channel.modify r _).requests.map HttpRequest.released = _ from
      map_modify HttpRequest.released (by intro http; rfl) _ _]
    exact counted.admitted
  · intro other reading
    rw [phase?_modify] at reading
    split at reading
    · obtain ⟨http, -, now⟩ := Option.map_eq_some_iff.mp reading
      cases now
    · rename_i different
      have unsent := counted.reading other reading
      simpa [pending?, BridgeChannel.modify, List.getElem?_modify, Ne.symm different] using unsent

theorem Safe.send (safe : Safe channel) {r : Nat} {http : HttpRequest} (found : channel.requests[r]? = some http)
    (reading : http.phase = .reading) (payload : Bytes) (room : Nat) :
    Safe (channel.sendAndReceive r http.aborted payload room) := by
  have new : channel.pending? r = none := safe.counted.reading r (by rw [phase?, found, Option.map_some, reading])
  have refused : Safe (channel.refuse r) :=
    safe.modify r (by intro http; rfl) (by intro http; rfl) (by intro http reading; cases reading)
  unfold sendAndReceive
  split
  · exact refused
  · split
    · exact refused
    · rename_i alive
      have living : ¬(channel.connected = false ∨ channel.destroyed = true) := by simpa using alive
      dsimp only
      cases aborted : http.aborted with
      | true =>
        -- The client went away while the body was read.
        have gone := Fresh.cancelQueued (⟨rfl, rfl, rfl⟩ : Fresh (newRequest channel.nextRequestId payload))
        have counted := counted_sent safe.counted r (cancelQueued (newRequest channel.nextRequestId payload))
        exact ⟨⟨safe.sound.aligned.discard new gone (pending?_sent found _) rfl rfl rfl rfl (fun lost => lost) fun dead => dead,
          safe.sound.streamed, safe.sound.drained⟩, safe.flowing, counted.admitted, counted.bounded, counted.reading⟩
      | false =>
        have fresh : Fresh (newRequest channel.nextRequestId payload) := ⟨rfl, rfl, rfl⟩
        have counted := counted_sent safe.counted r (newRequest channel.nextRequestId payload)
        obtain ⟨queued, named⟩ : ∃ queued : BridgeChannel, queued = { channel.modify r fun http =>
            { http with phase := .waiting, pending := some (newRequest channel.nextRequestId payload) } with
          nextRequestId := channel.nextRequestId + 1, writeQueue := channel.writeQueue ++ [r] } := ⟨_, rfl⟩
        have sound : Sound queued := by
          rw [named]
          refine ⟨safe.sound.aligned.enqueue new living fresh rfl (pending?_sent found _) rfl rfl rfl rfl,
            safe.sound.streamed, ?_⟩
          exact fun lost => absurd (.inl lost) living
        have counted' : Counted queued := by
          rw [named]
          exact ⟨counted.admitted, counted.bounded, counted.reading⟩
        have spec := pumpWrites_spec room sound
        rw [named] at spec counted'
        exact ⟨spec.1, spec.2.2, counted'.same spec.2.1⟩

/-- What listens for its client waits in one of the queues. -/
theorem Safe.onAbort (safe : Safe channel) {r : Nat} {request : PendingRequest} (found : channel.pending? r = some request)
    (listening : request.listening = true) : Safe (channel.onAbort r) := by
  have aligned := safe.sound.aligned
  have updated := sameHttp_update channel r
  unfold BridgeChannel.onAbort
  split
  · rename_i queued
    obtain ⟨ended, closed⟩ := closeRetired_eq
      { channel.update r cancelQueued with writeQueue := channel.writeQueue.erase r }
    rw [closed]
    have withdrawn : Aligned { channel.update r cancelQueued with writeQueue := channel.writeQueue.erase r, ended } :=
      aligned.withdraw queued (pending?_update r _) rfl rfl rfl rfl
    refine safe.of_socket ⟨⟨withdrawn, safe.sound.streamed, ?_⟩, ?_, ?_⟩
    · intro lost
      rw [(safe.sound.drained lost).2] at queued
      cases queued
    · have same := updated cancelQueued
      exact ⟨same.admitted, same.released, same.phases, same.unsent⟩
    · intro filled
      apply safe.flowing
      intro empty
      rw [empty] at queued
      cases queued
  · rename_i unqueued
    have waiting : r ∈ channel.pendingQueue := by
      by_contra outside
      have deaf := (aligned.settled r request found unqueued outside).listening
      rw [listening] at deaf
      cases deaf
    have attends : ∀ other, channel.pending? r = some other → other.listening = true := by
      intro other same
      rw [found] at same
      rw [← Option.some.inj same]
      exact listening
    exact safe.of_socket ⟨⟨aligned.forsake waiting attends (pending?_update r _) rfl rfl rfl rfl, safe.sound.streamed,
      safe.sound.drained⟩, updated cancelDispatched, safe.flowing⟩

theorem Safe.abort (safe : Safe channel) (r : Nat) : Safe (channel.abort r) := by
  unfold BridgeChannel.abort
  split
  · exact safe
  · rename_i http found
    split
    · exact safe
    · have marked : Safe (channel.modify r fun http => { http with aborted := true }) :=
        safe.modify r (by intro http; rfl) (by intro http; rfl) (fun http reading => reading)
      dsimp only
      split
      · rename_i heard
        cases sent : http.pending with
        | none => simp [sent] at heard
        | some request =>
          have listening : request.listening = true := by simpa [sent] using heard
          apply marked.onAbort _ listening
          rw [pending?_modify r (by intro http; rfl), pending?, found, Option.bind_some]
          exact sent
      · exact marked

/-- Each request gives its place back once. -/
theorem count_release {requests : List HttpRequest} {r : Nat} {http : HttpRequest} (found : requests[r]? = some http)
    (held : http.released = false) :
    ((requests.modify r fun http => { http with released := true }).map HttpRequest.released).count false + 1 =
      (requests.map HttpRequest.released).count false := by
  induction requests generalizing r with
  | nil => simp at found
  | cons first requests ih =>
    cases r with
    | zero =>
      rw [List.getElem?_cons_zero, Option.some.injEq] at found
      simp [found, held]
    | succ r =>
      rw [List.getElem?_cons_succ] at found
      have rest := ih found
      simp only [List.modify_succ_cons, List.map_cons, List.count_cons]
      omega

theorem Safe.release (safe : Safe channel) (r : Nat) : Safe (channel.release r) := by
  unfold BridgeChannel.release
  split
  · exact safe
  · rename_i http found
    split
    · exact safe
    · rename_i held
      have count := count_release found (Bool.not_eq_true _ ▸ held)
      have pending := @pending?_modify channel r (fun http => { http with released := true }) (by intro http; rfl)
      obtain ⟨ended, closed⟩ := closeRetired_eq
        { channel.modify r fun http => { http with released := true } with
          admittedHttpRequests := channel.admittedHttpRequests - 1 }
      rw [closed]
      have admitted := safe.counted.admitted
      have reading : ∀ other, (channel.modify r fun http => { http with released := true }).phase? other = some .reading →
          (channel.modify r fun http => { http with released := true }).pending? other = none := by
        intro other reading
        rw [pending]
        apply safe.counted.reading
        rw [phase?_modify] at reading
        split at reading
        · simpa [phase?] using reading
        · exact reading
      refine ⟨⟨safe.sound.aligned.of_same pending rfl rfl rfl rfl (fun lost => lost) fun dead => dead,
        safe.sound.streamed, safe.sound.drained⟩, safe.flowing, ?_, ?_, ?_⟩
      · change channel.admittedHttpRequests - 1 = ((channel.requests.modify r _).map HttpRequest.released).count false
        omega
      · exact (Nat.sub_le _ 1).trans safe.counted.bounded
      · exact reading

/-- Every request is settled, or waits for an event that settles it. -/
theorem Safe.outcome (safe : Safe channel) {r : Nat} {request : PendingRequest} (sent : channel.pending? r = some request) :
    request.settlements = [] ∧ (r ∈ channel.pendingQueue ∧ request.timeout = true ∨
      r ∈ channel.writeQueue ∧ channel.writing = true) ∨ request.settlements.length = 1 := by
  have aligned := safe.sound.aligned
  by_cases queued : r ∈ channel.writeQueue
  · obtain ⟨fresh, -⟩ := aligned.queued r queued request sent
    have filled : channel.writeQueue ≠ [] := List.ne_nil_of_mem queued
    exact .inl ⟨fresh.settlements, .inr ⟨queued, safe.flowing filled⟩⟩
  · by_cases waiting : r ∈ channel.pendingQueue
    · obtain ⟨timeout, ⟨fresh, -⟩ | gone⟩ := aligned.dispatched r waiting request sent
      · exact .inl ⟨fresh.settlements, .inl ⟨waiting, timeout⟩⟩
      · obtain ⟨message, single⟩ := gone.settlements
        exact .inr (by rw [single]; rfl)
    · obtain ⟨settlement, single⟩ := (aligned.settled r request sent queued waiting).settlements
      exact .inr (by rw [single]; rfl)

/-! ## Runs -/

theorem safe_accepted (nextRequestId : Nat) : Safe (accepted nextRequestId) := by
  have none_ : ∀ r, (accepted nextRequestId).pending? r = none := fun r => rfl
  refine ⟨⟨⟨Nat.le_refl 0, .inl rfl, List.nodup_nil, ?_, ?_, ?_, ?_, ?_, ?_⟩, ⟨[], rfl, fun _ => rfl⟩, ?_⟩, ?_,
    ⟨rfl, Nat.zero_le _, fun r _ => none_ r⟩⟩
  · exact fun r member => absurd member List.not_mem_nil
  · exact fun r member => absurd member List.not_mem_nil
  · exact fun r member => absurd member List.not_mem_nil
  · exact fun k r frame at_ => by cases at_
  · exact fun r request frame sent => by cases sent
  · exact fun r request sent => by cases sent
  · exact fun lost => by cases lost
  · exact fun filled => absurd rfl filled

theorem Safe.refuse (safe : Safe channel) (r : Nat) : Safe (channel.refuse r) :=
  safe.modify r (by intro http; rfl) (by intro http; rfl) (by intro http reading; cases reading)

theorem Safe.step (safe : Safe channel) (action : Action) : Safe (channel.step action) := by
  cases action with
  | body r payload room =>
    unfold BridgeChannel.step
    dsimp only
    split
    · rename_i http found
      split
      · rename_i reading
        exact safe.send found reading payload room
      · exact safe
    · exact safe
  | unreadable r =>
    unfold BridgeChannel.step
    dsimp only
    split
    · exact safe.refuse r
    · exact safe
  | abort r => exact safe.abort r
  | respond r =>
    unfold BridgeChannel.step
    dsimp only
    split
    · exact safe.refuse r
    · exact safe
  | finish r =>
    unfold BridgeChannel.step
    dsimp only
    split
    · exact safe.release r
    · exact safe
  | close r =>
    unfold BridgeChannel.step
    dsimp only
    split
    · exact safe.release r
    · exact (safe.abort r).release r
  | drain room =>
    unfold BridgeChannel.step
    dsimp only
    split
    · have ready : Sound { channel with writing := false } :=
        ⟨safe.sound.aligned.of_same rfl rfl rfl rfl rfl (fun lost => lost) fun dead => dead, safe.sound.streamed,
          safe.sound.drained⟩
      obtain ⟨sound, same, flowing⟩ := pumpWrites_spec room ready
      refine safe.of_socket ⟨sound.close, ?_, flowing.close⟩
      exact (⟨same.admitted, same.released, same.phases, same.unsent⟩ : SameHttp channel _).trans (sameHttp_close _)
    · exact safe
  | data data =>
    unfold BridgeChannel.step
    dsimp only
    split
    · rename_i alive
      exact safe.of_socket (handleTcpData_spec data safe.sound alive.1 safe.flowing)
    · exact safe
  | timeout r =>
    unfold BridgeChannel.step
    dsimp only
    split
    · split
      · exact safe.of_socket ⟨safe.sound.fail _, sameHttp_fail _ _, safe.flowing.fail _⟩
      · exact safe
    · exact safe
  | fail message => exact safe.of_socket ⟨safe.sound.fail _, sameHttp_fail _ _, safe.flowing.fail _⟩
  | destroy =>
    exact ⟨⟨safe.sound.aligned.of_same rfl rfl rfl rfl rfl (fun lost => lost) fun _ => rfl, safe.sound.streamed,
      safe.sound.drained⟩, safe.flowing, safe.counted.admitted, safe.counted.bounded, safe.counted.reading⟩

theorem Safe.retire (safe : Safe channel) : Safe channel.retire := by
  have retired : Sound { channel with retired := true } :=
    ⟨safe.sound.aligned.of_same rfl rfl rfl rfl rfl (fun lost => lost) fun dead => dead, safe.sound.streamed,
      safe.sound.drained⟩
  have same : SameHttp channel { channel with retired := true } := ⟨rfl, rfl, rfl, fun _ unsent => unsent⟩
  have waits : Flowing { channel with retired := true } := safe.flowing
  exact safe.of_socket ⟨retired.close, same.trans (sameHttp_close _), waits.close⟩

theorem Safe.shutdown (safe : Safe channel) : Safe channel.shutdown := by
  have destroyed : Sound { channel with destroyed := channel.connected || channel.destroyed } :=
    ⟨safe.sound.aligned.of_same rfl rfl rfl rfl rfl (fun lost => lost) fun dead => by simp [dead], safe.sound.streamed,
      safe.sound.drained⟩
  have same := sameHttp_rejectPending { channel with destroyed := channel.connected || channel.destroyed } "Bridge channel closed"
  refine safe.of_socket ⟨destroyed.reject _ ?_, ⟨same.admitted, same.released, same.phases, same.unsent⟩,
    flowing_rejectPending _ _⟩
  cases alive : channel.connected with
  | false => exact .inl rfl
  | true => exact .inr (by simp)

theorem failConnection_lost (channel : BridgeChannel) (message : String) :
    (channel.failConnection message).connected = false := by
  unfold failConnection
  split
  · rename_i lost
    simpa using lost
  · obtain ⟨requests, same⟩ := rejectPending_eq { channel with connected := false, tcpBuffer := [] } message
    rw [same]

/-- Losing the connection settles what is not settled yet. -/
theorem Safe.fail_settles (safe : Safe channel) (message : String) {r : Nat} {request : PendingRequest}
    (sent : (channel.failConnection message).pending? r = some request) : Settled request := by
  have sound := safe.sound.fail message
  have lost := failConnection_lost channel message
  obtain ⟨pendingQueue, writeQueue⟩ := sound.drained lost
  apply sound.aligned.settled r request sent
  · rw [writeQueue]
    exact List.not_mem_nil
  · rw [pendingQueue]
    exact List.not_mem_nil

end BridgeChannel

namespace Bridge

open BridgeChannel

theorem mem_modify {channels : List BridgeChannel} {connection : Nat} {change : BridgeChannel → BridgeChannel}
    {channel : BridgeChannel} (member : channel ∈ channels.modify connection change) :
    channel ∈ channels ∨ ∃ old ∈ channels, channel = change old := by
  obtain ⟨place, found⟩ := List.mem_iff_getElem?.mp member
  rw [List.getElem?_modify] at found
  obtain ⟨old, listed, same⟩ := Option.map_eq_some_iff.mp found
  have inside := List.mem_of_getElem? listed
  split at same
  · exact .inr ⟨old, inside, same.symm⟩
  · exact .inl (same ▸ inside)

theorem safe_modify {channels : List BridgeChannel} (safe : ∀ channel ∈ channels, channel.Safe) (connection : Nat)
    {change : BridgeChannel → BridgeChannel} (keeps : ∀ channel, channel.Safe → (change channel).Safe) :
    ∀ channel ∈ channels.modify connection change, channel.Safe := by
  intro channel member
  rcases mem_modify member with old | ⟨old, listed, rfl⟩
  · exact safe channel old
  · exact keeps old (safe old listed)

theorem safe_modifyCurrent {bridge : Bridge} (safe : ∀ channel ∈ bridge.channels, channel.Safe)
    {change : BridgeChannel → BridgeChannel} (keeps : ∀ channel, channel.Safe → (change channel).Safe) :
    ∀ channel ∈ bridge.modifyCurrent change, channel.Safe := by
  unfold modifyCurrent
  split
  · exact safe_modify safe _ keeps
  · exact safe

theorem safe_step {bridge : Bridge} (safe : ∀ channel ∈ bridge.channels, channel.Safe) (action : Action) :
    ∀ channel ∈ (bridge.step action).channels, channel.Safe := by
  cases action with
  | connect =>
    intro channel member
    rcases List.mem_append.mp member with earlier | last
    · exact safe_modifyCurrent safe (fun channel safe => safe.retire) channel earlier
    · rw [List.mem_singleton.mp last]
      exact safe_accepted _
  | post => exact safe_modifyCurrent safe fun channel safe => safe.reserve
  | on connection action => exact safe_modify safe connection fun channel safe => safe.step action
  | closed connection =>
    exact safe_modify safe connection fun channel safe =>
      safe.of_socket ⟨safe.sound.fail _, sameHttp_fail _ _, safe.flowing.fail _⟩
  | shutdown =>
    intro channel member
    obtain ⟨old, listed, rfl⟩ := List.mem_map.mp member
    exact (safe old listed).shutdown

theorem safe_run (actions : List Action) : ∀ channel ∈ (run step initial actions).channels, channel.Safe := by
  induction actions using List.reverseRecOn with
  | nil => exact fun channel member => absurd member List.not_mem_nil
  | append_singleton actions action ih =>
    have reached : run step initial (actions ++ [action]) = (run step initial actions).step action := by simp [run]
    rw [reached]
    exact safe_step ih action

/-- The second of three requests is canceled while it waits, and the connection is replaced. -/
def sampleRun : List Action :=
  [.connect, .post, .post, .post, .on 0 (.body 0 [1] 5), .on 0 (.body 1 [2] 0), .on 0 (.body 2 [3] 0), .on 0 (.abort 1),
    .connect, .on 0 (.drain 3), .on 0 (.data [0, 0, 0, 1, 48, 0, 0, 0, 1, 49, 0, 0]), .on 0 (.data [0, 1, 50])]

def sampleChannel : BridgeChannel := ((run step initial sampleRun).channels[0]?).getD (accepted 1)

end Bridge

end AiryFS
