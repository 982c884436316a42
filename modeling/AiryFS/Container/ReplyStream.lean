import AiryFS.Container.BridgeSafety
import AiryFS.Hrana.Streaming

/-! The bytes of the replies on one connection, however TCP cuts them into events.

An event is measured together with what is buffered before it, so a limit that every frame
meets can be exceeded by a reply that ends and others that follow it in the same event.
-/

set_option autoImplicit false

namespace AiryFS

open Foundation

open Hrana (HEADER_SIZE MAX_TRANSPORT_FRAME_BYTES complete unfinished Fits)

open Archive (uint32 getUint32 getUint32_uint32 length_uint32)

namespace BridgeChannel

/-- What happens to one connection. -/
inductive Event where
  /-- A request is admitted while it is the current one. -/
  | post
  /-- Another connection takes its place. -/
  | retire
  | on (action : Action)

def serve (channel : BridgeChannel) : Event → BridgeChannel
  | .post => channel.reserveHttpRequest
  | .retire => channel.retire
  | .on action => channel.step action

def Event.data? : Event → Option Bytes
  | .on (.data data) => some data
  | _ => none

/-- Neither a timer nor the socket ends the connection. -/
def Event.Calm : Event → Prop
  | .on (.timeout _) | .on (.fail _) | .on .destroy => False
  | _ => True

/-- The events as TCP cuts the stream. -/
def arrivals (events : List Event) : List Bytes := events.filterMap Event.data?

/-- A frame that the durable object may send. -/
structure Reply (reply : Bytes) : Prop where
  small : reply.length ≤ MAX_TRANSPORT_FRAME_BYTES
  json : (Json.parse (Utf8.decodeFrom none reply)).isSome = true

/-- What has arrived with an event belongs to the answers to the requests that were written before it. -/
structure Answering (replies : List Bytes) (start : BridgeChannel) (events : List Event) : Prop where
  calm : ∀ event ∈ events, event.Calm
  answers : ∀ before data after, events = before ++ .on (.data data) :: after →
    (arrivals before).flatten ++ data <+: (replies.take (run serve start before).written.length).flatMap framed

/-- The connection lives, and every frame that has arrived was taken off it for the request it answers. -/
structure Delivered (replies : List Bytes) (bytes : Bytes) (channel : BridgeChannel) : Prop where
  connected : channel.connected = true
  frames : channel.frames = replies.take (complete (replies.map framed) bytes.length)
  answered : ∀ (k r : Nat) (reply : Bytes), channel.written[k]? = some r → channel.frames[k]? = some reply →
    ∀ request, channel.pending? r = some request → Answered reply request

theorem Event.eq_of_data {event : Event} {data : Bytes} (brought : event.data? = some data) : event = .on (.data data) := by
  unfold Event.data? at brought
  split at brought
  · rw [Option.some.inj brought]
  · cases brought

/-- A text of so many letters, as a reply. -/
theorem reply_letters {count : Nat} (small : count + 2 ≤ MAX_TRANSPORT_FRAME_BYTES) :
    ∃ reply, Reply reply ∧ reply.length = count + 2 := by
  have printable : (Hrana.letters count).Printable fun _ => [] := by
    simp only [Hrana.letters, Json.Printable]
  have length := Hrana.length_letters (fun _ => []) count
  refine ⟨Utf8.encode ((Hrana.letters count).print fun _ => []), ⟨?_, ?_⟩, length⟩
  · rw [length]
    exact small
  · rw [Utf8.decodeFrom_encode, Json.parse_print printable]
    rfl

variable {channel channel' last : BridgeChannel} {replies : List Bytes} {bytes data : Bytes} {events : List Event}

/-! ## Events that bring no bytes -/

/-- Nothing is received, and what is written is waited for. -/
structure Idles (channel channel' : BridgeChannel) : Prop where
  connected : channel'.connected = channel.connected
  destroyed : channel'.destroyed = channel.destroyed
  tcpBuffer : channel'.tcpBuffer = channel.tcpBuffer
  frames : channel'.frames = channel.frames
  sent : ∃ more, channel'.written = channel.written ++ more ∧ channel'.pendingQueue = channel.pendingQueue ++ more

theorem Idles.refl (channel : BridgeChannel) : Idles channel channel := ⟨rfl, rfl, rfl, rfl, [], by simp⟩

theorem Idles.trans (first : Idles channel channel') (second : Idles channel' last) : Idles channel last := by
  obtain ⟨more, written, pending⟩ := first.sent
  obtain ⟨others, written', pending'⟩ := second.sent
  refine ⟨second.connected.trans first.connected, second.destroyed.trans first.destroyed,
    second.tcpBuffer.trans first.tcpBuffer, second.frames.trans first.frames, more ++ others, ?_, ?_⟩
  · rw [written', written, List.append_assoc]
  · rw [pending', pending, List.append_assoc]

theorem idles_modify (channel : BridgeChannel) (r : Nat) (change : HttpRequest → HttpRequest) : Idles channel (channel.modify r change) :=
  ⟨rfl, rfl, rfl, rfl, [], by simp [modify]⟩

theorem idles_close (channel : BridgeChannel) : Idles channel channel.closeRetiredChannelIfDrained := by
  obtain ⟨ended, same⟩ := closeRetired_eq channel
  rw [same]
  exact ⟨rfl, rfl, rfl, rfl, [], by simp⟩

theorem Idles.close (idles : Idles channel channel') : Idles channel channel'.closeRetiredChannelIfDrained :=
  idles.trans (idles_close channel')

theorem idles_writeAll (room : Nat) (channel : BridgeChannel) (queue : List Nat) : Idles channel (writeAll room channel queue) := by
  induction queue generalizing room channel with
  | nil =>
    unfold writeAll
    apply Idles.close
    exact ⟨rfl, rfl, rfl, rfl, [], by simp⟩
  | cons r rest ih =>
    have written : Idles channel (channel.write r rest) := ⟨rfl, rfl, rfl, rfl, [r], rfl, rfl⟩
    unfold writeAll
    cases room with
    | zero => exact written.trans ⟨rfl, rfl, rfl, rfl, [], by simp⟩
    | succ room => exact written.trans (ih room (channel.write r rest))

/-- A connection that lives. -/
def Alive (channel : BridgeChannel) : Prop := channel.connected = true ∧ channel.destroyed = false

theorem Alive.idles (alive : Alive channel) (idles : Idles channel channel') : Alive channel' :=
  ⟨idles.connected.trans alive.1, idles.destroyed.trans alive.2⟩

theorem Alive.pumpWrites (alive : Alive channel) (room : Nat) : Idles channel (channel.pumpWrites room) := by
  unfold BridgeChannel.pumpWrites
  split
  · exact .refl channel
  · rw [if_neg (by simp [alive.1, alive.2])]
    exact idles_writeAll room channel _

theorem Alive.idles_pump (alive : Alive channel) (idles : Idles channel channel') (room : Nat) :
    Idles channel (channel'.pumpWrites room) :=
  idles.trans ((alive.idles idles).pumpWrites room)

theorem Alive.send (alive : Alive channel) (r : Nat) (aborted : Bool) (payload : Bytes) (room : Nat) :
    Idles channel (channel.sendAndReceive r aborted payload room) := by
  unfold sendAndReceive
  split
  · exact idles_modify channel r _
  · rw [if_neg (by simp [alive.1, alive.2])]
    dsimp only
    split
    · exact ⟨rfl, rfl, rfl, rfl, [], by simp [modify]⟩
    · apply alive.idles_pump
      exact ⟨rfl, rfl, rfl, rfl, [], by simp [modify]⟩

theorem idles_abort (channel : BridgeChannel) (r : Nat) : Idles channel (channel.abort r) := by
  unfold abort
  split
  · exact .refl channel
  · split
    · exact .refl channel
    · dsimp only
      split
      · apply (idles_modify channel r fun request => { request with aborted := true }).trans
        unfold onAbort
        split
        · apply Idles.close
          exact ⟨rfl, rfl, rfl, rfl, [], by simp [update, modify]⟩
        · exact ⟨rfl, rfl, rfl, rfl, [], by simp [update, modify]⟩
      · exact idles_modify channel r _

theorem idles_release (channel : BridgeChannel) (r : Nat) : Idles channel (channel.release r) := by
  unfold release
  split
  · exact .refl channel
  · split
    · exact .refl channel
    · apply Idles.close
      exact ⟨rfl, rfl, rfl, rfl, [], by simp [modify]⟩

/-- One case for each event that brings no bytes and ends nothing. -/
theorem Alive.serve (alive : Alive channel) {event : Event} (calm : event.Calm) (silent : event.data? = none) :
    Idles channel (channel.serve event) := by
  cases event with
  | post =>
    unfold BridgeChannel.serve reserveHttpRequest
    dsimp only
    split
    · exact .refl channel
    · split
      · exact .refl channel
      · exact ⟨rfl, rfl, rfl, rfl, [], by simp⟩
  | retire =>
    apply Idles.close
    exact ⟨rfl, rfl, rfl, rfl, [], by simp⟩
  | on action =>
    unfold BridgeChannel.serve step
    cases action with
    | body r payload room =>
      dsimp only
      split
      · split
        · exact alive.send r _ payload room
        · exact .refl channel
      · exact .refl channel
    | unreadable r =>
      dsimp only
      split
      · exact idles_modify channel r _
      · exact .refl channel
    | abort r => exact idles_abort channel r
    | respond r =>
      dsimp only
      split
      · exact idles_modify channel r _
      · exact .refl channel
    | finish r =>
      dsimp only
      split
      · exact idles_release channel r
      · exact .refl channel
    | close r =>
      dsimp only
      split
      · exact idles_release channel r
      · exact (idles_abort channel r).trans (idles_release _ r)
    | drain room =>
      dsimp only
      split
      · apply Idles.close
        apply alive.idles_pump
        exact ⟨rfl, rfl, rfl, rfl, [], by simp⟩
      · exact .refl channel
    | data data => cases silent
    | timeout r => exact calm.elim
    | fail message => exact calm.elim
    | destroy => exact calm.elim

theorem Safe.serve (safe : Safe channel) (event : Event) : Safe (channel.serve event) := by
  cases event with
  | post => exact safe.reserve
  | retire => exact safe.retire
  | on action => exact safe.step action

theorem safe_serves (events : List Event) (nextRequestId : Nat) : Safe (run BridgeChannel.serve (accepted nextRequestId) events) := by
  induction events using List.reverseRecOn with
  | nil => exact safe_accepted nextRequestId
  | append_singleton events event ih =>
    rw [run_concat]
    exact ih.serve event

/-! ## Events that bring bytes -/

theorem length_framed (reply : Bytes) : (framed reply).length = HEADER_SIZE + reply.length := by
  rw [framed, List.length_append, length_uint32]
  rfl

/-- Within a header no frame ends. -/
theorem complete_short (replies : List Bytes) {count : Nat} (short : count < HEADER_SIZE) :
    complete (replies.map framed) count = 0 := by
  cases replies with
  | nil => rfl
  | cons reply replies =>
    rw [List.map_cons, complete, if_neg]
    rw [length_framed]
    omega

theorem complete_le (frames : List Bytes) (count : Nat) : complete frames count ≤ frames.length := by
  induction frames generalizing count with
  | nil => exact Nat.le_refl _
  | cons frame frames ih =>
    unfold complete
    split
    · exact Nat.succ_le_succ (ih _)
    · exact Nat.zero_le _

/-- Frames are taken off the buffer for the requests that wait. -/
structure Drained (replies : List Bytes) (channel channel' : BridgeChannel) : Prop where
  connected : channel'.connected = channel.connected
  destroyed : channel'.destroyed = channel.destroyed
  written : channel'.written = channel.written
  stream : channel'.frames.flatMap framed ++ channel'.tcpBuffer = channel.frames.flatMap framed ++ channel.tcpBuffer
  frames : channel'.frames = channel.frames ++ replies.take (complete (replies.map framed) channel.tcpBuffer.length)
  counted : channel'.frames.length + channel'.pendingQueue.length = channel.frames.length + channel.pendingQueue.length

theorem Drained.refl (none_ : complete (replies.map framed) channel.tcpBuffer.length = 0) : Drained replies channel channel :=
  ⟨rfl, rfl, rfl, rfl, by rw [none_, List.take_zero, List.append_nil], rfl⟩

/-- The first frame, as far as it is buffered, says how long it is. -/
theorem declared_length {reply rest : Bytes} (small : reply.length ≤ MAX_TRANSPORT_FRAME_BYTES) (stream : data <+: framed reply ++ rest)
    (enough : HEADER_SIZE ≤ data.length) : getUint32 (data.take HEADER_SIZE) = reply.length := by
  obtain ⟨tail, spelled⟩ := stream
  have header : data.take HEADER_SIZE = uint32 reply.length := by
    have front : (data ++ tail).take HEADER_SIZE = data.take HEADER_SIZE := List.take_append_of_le_length enough
    rw [← front, spelled, framed, List.append_assoc]
    exact List.take_left' (length_uint32 _)
  rw [header]
  apply getUint32_uint32
  unfold MAX_TRANSPORT_FRAME_BYTES at small
  omega

/-- Induction on the requests that wait. -/
theorem drainFrames_delivers (waiting : List Nat) (valid : ∀ reply ∈ replies, Reply reply) (queue : channel.pendingQueue = waiting)
    (stream : channel.tcpBuffer <+: (replies.take waiting.length).flatMap framed) :
    Drained replies channel (drainFrames channel waiting) := by
  induction waiting generalizing channel replies with
  | nil =>
    have empty : channel.tcpBuffer = [] := by simpa using stream
    unfold drainFrames
    rw [if_neg (by simp [empty])]
    exact .refl (by rw [empty]; exact complete_short replies (by decide))
  | cons r rest ih =>
    unfold drainFrames
    by_cases short : channel.tcpBuffer.length < HEADER_SIZE
    · rw [if_pos short]
      exact .refl (complete_short replies short)
    · rw [if_neg short]
      cases replies with
      | nil =>
        have empty : channel.tcpBuffer = [] := by simpa using stream
        rw [empty] at short
        exact absurd (by decide) short
      | cons reply replies =>
        obtain ⟨small, json⟩ := valid reply List.mem_cons_self
        rw [List.length_cons, List.take_succ_cons, List.flatMap_cons] at stream
        rw [declared_length small stream (Nat.le_of_not_lt short)]
        dsimp only
        rw [if_neg (Nat.not_lt.mpr small)]
        by_cases whole : channel.tcpBuffer.length < HEADER_SIZE + reply.length
        · rw [if_pos whole]
          apply Drained.refl
          rw [List.map_cons, complete, if_neg]
          rw [length_framed]
          omega
        · -- The buffer starts with the frame.
          have long : (framed reply).length ≤ channel.tcpBuffer.length := by
            rw [length_framed]
            omega
          obtain ⟨left, spelled⟩ := List.prefix_of_prefix_length_le (List.prefix_append _ _) stream long
          have frame : (channel.tcpBuffer.drop HEADER_SIZE).take reply.length = reply := by
            rw [← spelled, framed, List.append_assoc, List.drop_left' (show _ = HEADER_SIZE from length_uint32 _), List.take_left]
          have remaining : channel.tcpBuffer.drop (HEADER_SIZE + reply.length) = left := by
            rw [← spelled]
            exact List.drop_left' (length_framed reply)
          rw [if_neg whole, frame, if_neg (by rw [Option.isNone_eq_false_iff.mpr json]; simp)]
          obtain ⟨ended, closed⟩ := closeRetired_eq (channel.deliver r rest reply)
          rw [closed]
          have later : left <+: (replies.take rest.length).flatMap framed := by
            rw [← spelled] at stream
            exact (List.prefix_append_right_inj _).mp stream
          have drained := @ih { channel.deliver r rest reply with ended } replies (fun other member => valid other (List.mem_cons_of_mem _ member))
            rfl (by rw [← remaining] at later; exact later)
          have length : channel.tcpBuffer.length - (framed reply).length = left.length := by
            rw [← spelled, List.length_append]
            omega
          refine ⟨drained.connected, drained.destroyed, drained.written, ?_, ?_, ?_⟩
          · rw [drained.stream]
            change (channel.frames ++ [reply]).flatMap framed ++ channel.tcpBuffer.drop (HEADER_SIZE + reply.length) = _
            rw [remaining, ← spelled]
            simp
          · rw [drained.frames]
            change (channel.frames ++ [reply]) ++ replies.take (complete _ (channel.tcpBuffer.drop (HEADER_SIZE + reply.length)).length) = _
            rw [remaining, List.map_cons, complete, if_pos long, length, List.take_succ_cons, List.append_assoc]
            rfl
          · rw [drained.counted, queue]
            change (channel.frames ++ [reply]).length + rest.length = _
            rw [List.length_append, List.length_singleton, List.length_cons]
            omega

/-! ## A connection that has received so many bytes -/

structure Receiving (replies : List Bytes) (bytes : Bytes) (channel : BridgeChannel) : Prop where
  alive : Alive channel
  stream : channel.frames.flatMap framed ++ channel.tcpBuffer = bytes
  frames : channel.frames = replies.take (complete (replies.map framed) bytes.length)
  counted : channel.written.length = channel.frames.length + channel.pendingQueue.length

theorem Receiving.held (receiving : Receiving replies bytes channel) :
    channel.tcpBuffer.length = unfinished (replies.map framed) bytes.length := by
  have lengths := congrArg List.length receiving.stream
  have all := Hrana.length_complete (replies.map framed) bytes.length
  rw [← List.map_take, ← receiving.frames, ← List.flatMap_def] at all
  rw [List.length_append] at lengths
  omega

theorem Receiving.idles (receiving : Receiving replies bytes channel) (idles : Idles channel channel') :
    Receiving replies bytes channel' := by
  obtain ⟨more, written, pending⟩ := idles.sent
  refine ⟨receiving.alive.idles idles, ?_, ?_, ?_⟩
  · rw [idles.frames, idles.tcpBuffer]
    exact receiving.stream
  · rw [idles.frames]
    exact receiving.frames
  · rw [written, pending, idles.frames, List.length_append, List.length_append, receiving.counted]
    omega

/-- An event that fits beside what is buffered brings its frames, and another ends the connection. -/
theorem Receiving.arrives (receiving : Receiving replies bytes channel) (valid : ∀ reply ∈ replies, Reply reply)
    (answers : bytes ++ data <+: (replies.take channel.written.length).flatMap framed) :
    if unfinished (replies.map framed) bytes.length + data.length ≤ MAX_TRANSPORT_FRAME_BYTES + HEADER_SIZE
    then Receiving replies (bytes ++ data) (channel.serve (.on (.data data)))
    else (channel.serve (.on (.data data))).connected = false := by
  obtain ⟨connected, destroyed⟩ := receiving.alive
  have held := receiving.held
  have handled : channel.serve (.on (.data data)) = channel.handleTcpData data := by
    unfold BridgeChannel.serve step
    exact if_pos ⟨connected, by simp [destroyed]⟩
  rw [handled]
  unfold handleTcpData
  dsimp only
  split
  · rename_i fits
    rw [if_neg (by omega)]
    have spelled : replies.take channel.written.length =
        channel.frames ++ (replies.drop channel.frames.length).take channel.pendingQueue.length := by
      have front : replies.take channel.frames.length = channel.frames := by
        conv_lhs => rw [receiving.frames]
        conv_rhs => rw [receiving.frames]
        rw [List.length_take, ← List.take_eq_take_min]
      rw [receiving.counted, List.take_add, front]
    have arrived : channel.tcpBuffer ++ data <+: ((replies.drop channel.frames.length).take channel.pendingQueue.length).flatMap framed := by
      rw [spelled, List.flatMap_append, ← receiving.stream, List.append_assoc] at answers
      exact (List.prefix_append_right_inj _).mp answers
    have drained := @drainFrames_delivers { channel with received := channel.received ++ data, tcpBuffer := channel.tcpBuffer ++ data }
      (replies.drop channel.frames.length) channel.pendingQueue (fun reply member => valid reply (List.mem_of_mem_drop member)) rfl arrived
    refine ⟨⟨drained.connected.trans connected, drained.destroyed.trans destroyed⟩, ?_, ?_, ?_⟩
    · rw [drained.stream, ← receiving.stream, List.append_assoc]
    · have number : channel.frames.length = complete (replies.map framed) bytes.length := by
        have bound := complete_le (replies.map framed) bytes.length
        rw [List.length_map] at bound
        rw [receiving.frames, List.length_take, Nat.min_eq_left bound]
      have more := Hrana.complete_add (replies.map framed) bytes.length data.length
      rw [← List.map_drop, ← held, ← number] at more
      have taken := drained.frames
      dsimp only at taken
      rw [List.length_append] at taken
      rw [List.length_append, more, List.take_add, taken]
      congr 1
      rw [number]
      exact receiving.frames
    · rw [drained.counted, drained.written]
      exact receiving.counted
  · rename_i beyond
    rw [if_pos (by omega)]
    exact failConnection_lost _ _

/-! ## Runs -/

theorem arrivals_append (first second : List Event) : arrivals (first ++ second) = arrivals first ++ arrivals second :=
  List.filterMap_append

theorem receiving_accepted (replies : List Bytes) (nextRequestId : Nat) : Receiving replies [] (accepted nextRequestId) :=
  ⟨⟨rfl, rfl⟩, rfl, by rw [List.length_nil, complete_short replies (by decide)]; rfl, rfl⟩

theorem Answering.front {first second : List Event} (answering : Answering replies channel (first ++ second)) :
    Answering replies channel first := by
  refine ⟨fun event member => answering.calm event (List.mem_append_left _ member), ?_⟩
  intro before data after spelled
  refine answering.answers before data (after ++ second) ?_
  rw [spelled, List.append_assoc, List.cons_append]

theorem Fits.front {frames chunks chunks' : List Bytes} {held : Nat} (fits : Fits frames held (chunks ++ chunks')) :
    Fits frames held chunks := by
  intro before chunk after spelled
  refine fits before chunk (after ++ chunks') ?_
  rw [spelled, List.append_assoc, List.cons_append]

/-- While every event fits, induction on the events. -/
theorem receiving_run (valid : ∀ reply ∈ replies, Reply reply) (nextRequestId : Nat)
    (answering : Answering replies (accepted nextRequestId) events) (fits : Fits (replies.map framed) 0 (arrivals events)) :
    Receiving replies (arrivals events).flatten (run BridgeChannel.serve (accepted nextRequestId) events) := by
  induction events using List.reverseRecOn with
  | nil => exact receiving_accepted replies nextRequestId
  | append_singleton events event ih =>
    rw [arrivals_append] at fits
    have receiving := ih answering.front (Fits.front fits)
    rw [run_concat, arrivals_append, List.flatten_append]
    cases brought : event.data? with
    | none =>
      have silent : arrivals [event] = [] := by simp [arrivals, brought]
      rw [silent, List.flatten_nil, List.append_nil]
      have calm := answering.calm event (List.mem_append_right _ (List.mem_singleton_self event))
      exact receiving.idles (receiving.alive.serve calm brought)
    | some data =>
      obtain rfl := Event.eq_of_data brought
      have single : arrivals [.on (.data data)] = [data] := rfl
      rw [single] at fits ⊢
      rw [List.flatten_singleton]
      have next := receiving.arrives valid (answering.answers events data [] rfl)
      have room := fits (arrivals events) data [] rfl
      rw [Nat.zero_add] at room
      rw [if_pos room] at next
      exact next

/-- The first event that does not fit ends the connection, so one that stays up has seen none. -/
theorem fits_of_connected (valid : ∀ reply ∈ replies, Reply reply) (nextRequestId : Nat)
    (answering : Answering replies (accepted nextRequestId) events)
    (lives : ∀ reached, reached <+: events → (run BridgeChannel.serve (accepted nextRequestId) reached).connected = true) :
    Fits (replies.map framed) 0 (arrivals events) := by
  by_contra unfit
  obtain ⟨before, data, after, spelled, fits, beyond⟩ := (Hrana.fits_or_first (replies.map framed) 0 (arrivals events)).resolve_left unfit
  obtain ⟨earlier, rest, rfl, front, back⟩ := List.filterMap_eq_append_iff.mp spelled
  obtain ⟨silent, event, later, rfl, none_, brought, _⟩ := List.filterMap_eq_cons_iff.mp back
  have same := Event.eq_of_data brought
  have quiet : arrivals silent = [] := List.filterMap_eq_nil_iff.mpr none_
  have arrived : arrivals (earlier ++ silent) = before := by
    rw [arrivals_append, quiet, List.append_nil]
    exact front
  have split : earlier ++ (silent ++ event :: later) = (earlier ++ silent) ++ .on (.data data) :: later := by simp [same]
  rw [split] at answering lives
  have receiving := receiving_run valid nextRequestId answering.front (by rw [arrived]; exact fits)
  have next := receiving.arrives valid (answering.answers _ data later rfl)
  rw [arrived, if_neg (by rw [Nat.zero_add] at beyond; omega)] at next
  have connected := lives (earlier ++ silent ++ [.on (.data data)]) (by simp)
  rw [run_concat] at connected
  exact absurd (connected.symm.trans next) (by decide)

theorem delivered_of_fits (valid : ∀ reply ∈ replies, Reply reply) (nextRequestId : Nat)
    (answering : Answering replies (accepted nextRequestId) events) (fits : Fits (replies.map framed) 0 (arrivals events))
    {reached : List Event} (front : reached <+: events) :
    Delivered replies (arrivals reached).flatten (run BridgeChannel.serve (accepted nextRequestId) reached) := by
  obtain ⟨rest, rfl⟩ := front
  rw [arrivals_append] at fits
  have receiving := receiving_run valid nextRequestId answering.front (Fits.front fits)
  exact ⟨receiving.alive.1, receiving.frames, (safe_serves reached nextRequestId).sound.aligned.answered⟩

/-- Two requests, written before any reply comes, and then one event. -/
def pipelined (data : Bytes) : List Event :=
  [.post, .post, .on (.body 0 [] 2), .on (.body 1 [] 2), .on (.data data)]

theorem arrivals_pipelined (data : Bytes) : arrivals (pipelined data) = [data] := rfl

theorem answering_pipelined {data : Bytes} (answer : data <+: replies.flatMap framed) (two : replies.length = 2) :
    Answering replies (accepted 1) (pipelined data) := by
  refine ⟨?_, ?_⟩
  · simp [pipelined, Event.Calm]
  · intro before other after spelled
    -- The last event is the only one that brings bytes.
    have last : before = (pipelined data).take 4 ∧ other = data := by
      match before, spelled with
      | [_, _, _, _], spelled =>
        simp only [pipelined, List.cons_append, List.nil_append, List.cons.injEq, Event.on.injEq, Action.data.injEq] at spelled
        obtain ⟨rfl, rfl, rfl, rfl, rfl, -⟩ := spelled
        exact ⟨rfl, rfl⟩
      | [], spelled => simp [pipelined] at spelled
      | [_], spelled => simp [pipelined] at spelled
      | [_, _], spelled => simp [pipelined] at spelled
      | [_, _, _], spelled => simp [pipelined] at spelled
      | _ :: _ :: _ :: _ :: _ :: _, spelled => simp [pipelined] at spelled
    obtain ⟨rfl, rfl⟩ := last
    have written : (run BridgeChannel.serve (accepted 1) ((pipelined other).take 4)).written = [0, 1] := by
      change (run BridgeChannel.serve (accepted 1) [.post, .post, .on (.body 0 [] 2), .on (.body 1 [] 2)]).written = [0, 1]
      decide
    have two' : replies.take [0, 1].length = replies := List.take_of_length_le (by rw [two]; rfl)
    rw [written, two']
    exact answer

end BridgeChannel

end AiryFS
