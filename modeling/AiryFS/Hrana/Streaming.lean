import AiryFS.Hrana.FrameBuffer

/-! What a reader gets from a stream of frames, however the stream is cut into chunks.

The buffer holds at most one maximal frame, counted over everything in it: a chunk that
would take it further is refused, also where no single frame is too large.
-/

set_option autoImplicit false

namespace AiryFS

open Foundation

namespace Hrana

open Archive (uint32 getUint32 getUint32_uint32 length_uint32)

/-! ## Positions in a stream of frames -/

/-- How many frames end within the first bytes of the stream. -/
@[grind =]
def complete : List Bytes → Nat → Nat
  | [], _ => 0
  | frame :: frames, count => if frame.length ≤ count then complete frames (count - frame.length) + 1 else 0

/-- How many of the first bytes belong to no such frame. -/
@[grind =]
def unfinished : List Bytes → Nat → Nat
  | [], count => count
  | frame :: frames, count => if frame.length ≤ count then unfinished frames (count - frame.length) else count

/-- Every chunk fits into the buffer beside the unfinished frame before it. -/
def Fits (frames : List Bytes) (held : Nat) (chunks : List Bytes) : Prop :=
  ∀ before chunk after, chunks = before ++ chunk :: after →
    unfinished frames (held + before.flatten.length) + chunk.length ≤ MAX_TRANSPORT_FRAME_BYTES + HEADER_SIZE

theorem unfinished_add (frames : List Bytes) (count more : Nat) :
    unfinished frames (count + more) = unfinished (frames.drop (complete frames count)) (unfinished frames count + more) := by
  induction frames generalizing count with
  | nil => rfl
  | cons frame frames ih =>
    by_cases whole : frame.length ≤ count
    · have later : count + more - frame.length = count - frame.length + more := by omega
      simp only [unfinished, complete, if_pos whole, if_pos (Nat.le_add_right_of_le whole), List.drop_succ_cons, later, ih]
    · simp only [unfinished, complete, if_neg whole, List.drop_zero]

theorem complete_add (frames : List Bytes) (count more : Nat) :
    complete frames (count + more) =
      complete frames count + complete (frames.drop (complete frames count)) (unfinished frames count + more) := by
  induction frames generalizing count with
  | nil => rfl
  | cons frame frames ih =>
    by_cases whole : frame.length ≤ count
    · have later : count + more - frame.length = count - frame.length + more := by omega
      simp only [unfinished, complete, if_pos whole, if_pos (Nat.le_add_right_of_le whole), List.drop_succ_cons, later, ih]
      omega
    · simp only [unfinished, complete, if_neg whole, List.drop_zero, Nat.zero_add]

/-- The complete frames and the unfinished bytes are all there is. -/
theorem length_complete (frames : List Bytes) (count : Nat) :
    (frames.take (complete frames count)).flatten.length + unfinished frames count = count := by
  induction frames generalizing count with
  | nil => simp [complete, unfinished]
  | cons frame frames ih =>
    by_cases whole : frame.length ≤ count
    · have rest := ih (count - frame.length)
      simp only [complete, unfinished, if_pos whole, List.take_succ_cons, List.flatten_cons, List.length_append]
      omega
    · simp [complete, unfinished, whole]

theorem complete_rest (frames : List Bytes) (count : Nat) :
    complete (frames.drop (complete frames count)) (unfinished frames count) = 0 := by
  have again := complete_add frames count 0
  simp only [Nat.add_zero] at again
  omega

theorem unfinished_of_complete {frames : List Bytes} {count : Nat} (none_ : complete frames count = 0) :
    unfinished frames count = count := by
  have all := length_complete frames count
  simpa [none_] using all

/-- The stream as a whole leaves nothing. -/
theorem complete_all (frames : List Bytes) :
    complete frames frames.flatten.length = frames.length ∧ unfinished frames frames.flatten.length = 0 := by
  induction frames with
  | nil => exact ⟨rfl, rfl⟩
  | cons frame frames ih =>
    have whole : frame.length ≤ (frame :: frames).flatten.length := by simp
    have rest : (frame :: frames).flatten.length - frame.length = frames.flatten.length := by simp
    simp only [complete, unfinished, if_pos whole, rest, ih, List.length_cons, and_self]

/-! ## One frame -/

section
variable {numeral : Rat → Text}

/-- A message that can be written, and its frame. -/
structure Framed (numeral : Rat → Text) (msg : Json) (frame : Bytes) : Prop where
  printable : msg.Printable numeral
  serialized : serializeFrame numeral msg = .ok frame

variable {msg : Json} {frame : Bytes}

theorem Framed.spelled (framed : Framed numeral msg frame) :
    ∃ json, json = Utf8.encode (msg.print numeral) ∧ json.length ≤ MAX_TRANSPORT_FRAME_BYTES ∧
      frame = uint32 json.length ++ json := by
  obtain ⟨_, small, done⟩ := bind_eq_ok.mp framed.serialized
  exact ⟨_, rfl, Nat.le_of_not_lt (refuse_eq_ok.mp small), (pure_eq_ok.mp done).symm⟩

theorem Framed.length (framed : Framed numeral msg frame) : HEADER_SIZE ≤ frame.length := by
  obtain ⟨json, -, -, rfl⟩ := framed.spelled
  simp [HEADER_SIZE]

/-- The text of a message starts with no byte order mark, so it is read as it was written. -/
theorem Framed.decoded (framed : Framed numeral msg frame) :
    Json.parse (Utf8.decode (Utf8.encode (msg.print numeral))) = some msg := by
  obtain ⟨first, others, spelled, starts⟩ := Json.print_starts framed.printable
  have plain : (msg.print numeral).head? ≠ some (Char.ofNat 0xFEFF) := by
    simpa [spelled] using starts.ne (show ¬Json.Starts (Char.ofNat 0xFEFF) by decide)
  rw [Utf8.decode_encode plain, Json.parse_print framed.printable]

theorem Framed.deserialize (framed : Framed numeral msg frame) (before after : Bytes) :
    deserializeFrame (before ++ (frame ++ after)) before.length = .ok (some (msg, frame.length)) := by
  have decoded := framed.decoded
  obtain ⟨json, text, small, rfl⟩ := framed.spelled
  have declared : getUint32 (uint32 json.length) = json.length :=
    getUint32_uint32 (by unfold MAX_TRANSPORT_FRAME_BYTES at small; omega)
  have beyond : (before ++ (uint32 json.length ++ json ++ after)).drop (before.length + HEADER_SIZE) = json ++ after := by
    rw [← List.drop_drop, List.drop_left, List.append_assoc]
    exact List.drop_left' rfl
  have header : (uint32 json.length ++ json ++ after).take HEADER_SIZE = uint32 json.length := by
    rw [List.append_assoc]
    exact List.take_left' rfl
  unfold deserializeFrame
  rw [if_neg (by simp [HEADER_SIZE])]
  dsimp only
  rw [List.drop_left, header, declared, refuse_of_not (by omega), beyond, List.take_left, text, decoded]
  simp [HEADER_SIZE, bind, Except.bind, pure, Except.pure, required]

/-- A part of a frame is not read yet. -/
theorem Framed.deserialize_part (framed : Framed numeral msg frame) (before : Bytes) {part rest : Bytes}
    (cut : frame = part ++ rest) (missing : part.length < frame.length) :
    deserializeFrame (before ++ part) before.length = .ok none := by
  obtain ⟨json, -, small, spelled⟩ := framed.spelled
  have remaining : (before ++ part).length - before.length = part.length := by simp
  unfold deserializeFrame
  rw [remaining]
  by_cases short : part.length < HEADER_SIZE
  · rw [if_pos short]
    rfl
  · rw [if_neg short]
    dsimp only
    have header : part.take HEADER_SIZE = uint32 json.length := by
      have taken : frame.take HEADER_SIZE = uint32 json.length := by
        rw [spelled]
        exact List.take_left' rfl
      rw [← taken, cut, List.take_append_of_le_length (Nat.le_of_not_lt short)]
    have declared : getUint32 (uint32 json.length) = json.length :=
      getUint32_uint32 (by unfold MAX_TRANSPORT_FRAME_BYTES at small; omega)
    have short : part.length < HEADER_SIZE + json.length := by
      simpa [spelled, HEADER_SIZE] using missing
    rw [List.drop_left, header, declared, refuse_of_not (by omega)]
    simp [short, bind, Except.bind, pure, Except.pure]

/-! ## Draining -/

/-- Messages with their frames, in order. -/
abbrev Frames (numeral : Rat → Text) : List Json → List Bytes → Prop := List.Forall₂ (Framed numeral)

variable {messages : List Json} {frames : List Bytes}

theorem Frames.drop (all : Frames numeral messages frames) (count : Nat) :
    Frames numeral (messages.drop count) (frames.drop count) :=
  List.forall₂_drop count all

/-- The loop reads every frame that is complete, and stops before the first that is not. -/
theorem drainFrom_frames (all : Frames numeral messages frames) (before : Bytes) {part : Bytes}
    (stream : part <+: frames.flatten) (fuel : Nat) (enough : part.length ≤ fuel) :
    drainFrom (before ++ part) fuel before.length =
      .ok (messages.take (complete frames part.length), before.length + (part.length - unfinished frames part.length)) := by
  induction all generalizing before part fuel with
  | nil =>
    have none_ : part = [] := List.prefix_nil.mp stream
    subst none_
    cases fuel with
    | zero => simp [drainFrom, complete, unfinished, pure, Except.pure]
    | succ fuel => simp [drainFrom, deserializeFrame, HEADER_SIZE, complete, unfinished, bind, Except.bind, pure, Except.pure]
  | @cons msg frame messages frames framed all ih =>
    have header := framed.length
    rw [List.flatten_cons] at stream
    by_cases whole : frame.length ≤ part.length
    · -- The part starts with the frame.
      obtain ⟨rest, rfl⟩ := List.prefix_of_prefix_length_le (List.prefix_append frame frames.flatten) stream whole
      have later : rest <+: frames.flatten := (List.prefix_append_right_inj frame).mp stream
      cases fuel with
      | zero =>
        simp only [List.length_append, HEADER_SIZE] at enough header
        omega
      | succ fuel =>
        have shorter : rest.length ≤ fuel := by
          simp only [List.length_append, HEADER_SIZE] at enough header
          omega
        have rounds := ih (before ++ frame) later fuel shorter
        have all := length_complete frames rest.length
        simp only [List.append_assoc, List.length_append] at rounds
        simp only [drainFrom, framed.deserialize, complete, unfinished, List.length_append, Nat.add_sub_cancel_left,
          Nat.le_add_right, if_true, bind, Except.bind, pure, Except.pure, rounds, List.take_succ_cons]
        congr 2
        omega
    · -- The part ends inside the frame.
      obtain ⟨rest, cut⟩ := List.prefix_of_prefix_length_le stream (List.prefix_append frame frames.flatten) (by omega)
      have stopped := framed.deserialize_part before cut.symm (by omega)
      cases fuel with
      | zero => simp [drainFrom, complete, unfinished, whole, pure, Except.pure]
      | succ fuel => simp [drainFrom, stopped, complete, unfinished, whole, bind, Except.bind, pure, Except.pure]

theorem complete_of_short (all : Frames numeral messages frames) {count : Nat} (short : count < HEADER_SIZE) :
    complete frames count = 0 := by
  cases all with
  | nil => rfl
  | cons framed all => simp [complete, Nat.lt_of_lt_of_le short framed.length]

/-- What `drain` hands out and keeps, of a buffer that holds the start of the stream. -/
theorem drain_frames (all : Frames numeral messages frames) {buffer : FrameBuffer}
    (stream : buffer.consolidate <+: frames.flatten) :
    ∃ last, buffer.drain = .ok (messages.take (complete frames buffer.totalLength), last) ∧
      last.totalLength = unfinished frames buffer.totalLength ∧
      last.consolidate = buffer.consolidate.drop (buffer.totalLength - unfinished frames buffer.totalLength) := by
  have counted : buffer.consolidate.length = buffer.totalLength := buffer.counted.symm
  by_cases short : buffer.totalLength < HEADER_SIZE
  · have none_ := complete_of_short all short
    have kept := unfinished_of_complete none_
    refine ⟨buffer, ?_, kept.symm, by simp [kept]⟩
    rw [FrameBuffer.drain, if_pos short, none_, List.take_zero]
    rfl
  · have drained := drainFrom_frames all [] stream buffer.consolidate.length (Nat.le_refl _)
    have all := length_complete frames buffer.totalLength
    simp only [List.nil_append, List.length_nil, Nat.zero_add, counted] at drained
    by_cases left : unfinished frames buffer.totalLength = 0
    · have beyond : ¬buffer.totalLength - unfinished frames buffer.totalLength < buffer.totalLength := by omega
      refine ⟨.empty, ?_, left.symm, ?_⟩
      · simp only [FrameBuffer.drain, if_neg short, counted, drained, bind, Except.bind, if_neg beyond, pure, Except.pure]
      · rw [left, Nat.sub_zero, ← counted, List.drop_length]
        rfl
    · have within : buffer.totalLength - unfinished frames buffer.totalLength < buffer.totalLength := by omega
      refine ⟨.holding (buffer.consolidate.drop (buffer.totalLength - unfinished frames buffer.totalLength)), ?_, ?_, ?_⟩
      · simp only [FrameBuffer.drain, if_neg short, counted, drained, bind, Except.bind, if_pos within, pure, Except.pure]
      · simp only [FrameBuffer.holding, List.length_drop, counted]
        omega
      · simp [FrameBuffer.holding, FrameBuffer.consolidate]

/-! ## Runs -/

@[simp] theorem empty_totalLength : FrameBuffer.empty.totalLength = 0 := rfl

theorem push_eq_ok {buffer pushed : FrameBuffer} {chunk : Bytes} (done : buffer.push chunk = .ok pushed) :
    buffer.totalLength + chunk.length ≤ MAX_TRANSPORT_FRAME_BYTES + HEADER_SIZE ∧
      pushed.totalLength = buffer.totalLength + chunk.length ∧ pushed.consolidate = buffer.consolidate ++ chunk := by
  obtain ⟨_, small, done⟩ := bind_eq_ok.mp done
  rw [← pure_eq_ok.mp done]
  exact ⟨Nat.le_of_not_lt (refuse_eq_ok.mp small), rfl, by simp [FrameBuffer.consolidate]⟩

theorem push_fits {buffer : FrameBuffer} {chunk : Bytes}
    (fits : buffer.totalLength + chunk.length ≤ MAX_TRANSPORT_FRAME_BYTES + HEADER_SIZE) :
    ∃ pushed, buffer.push chunk = .ok pushed := by
  unfold FrameBuffer.push
  dsimp only
  rw [refuse_of_not (Nat.not_lt.mpr fits)]
  exact ⟨_, rfl⟩

theorem push_refused {buffer : FrameBuffer} {chunk : Bytes}
    (beyond : MAX_TRANSPORT_FRAME_BYTES + HEADER_SIZE < buffer.totalLength + chunk.length) :
    buffer.push chunk = .error (frameTooLargeError (buffer.totalLength + chunk.length - HEADER_SIZE)) := by
  unfold FrameBuffer.push
  dsimp only
  rw [refuse, if_pos beyond]
  rfl

theorem receive_cons {buffer pushed last : FrameBuffer} {chunk : Bytes} {chunks : List Bytes} {drained : List Json}
    (push : buffer.push chunk = .ok pushed) (drain : pushed.drain = .ok (drained, last)) :
    receive buffer (chunk :: chunks) = (drained ++ (receive last chunks).1, (receive last chunks).2) := by
  simp only [receive, push, bind, Except.bind, drain]

theorem receive_append {buffer middle : FrameBuffer} {first second : List Bytes} {drained : List Json}
    (received : receive buffer first = (drained, .ok middle)) :
    receive buffer (first ++ second) = (drained ++ (receive middle second).1, (receive middle second).2) := by
  induction first generalizing buffer drained with
  | nil =>
    obtain ⟨rfl, rfl⟩ : [] = drained ∧ buffer = middle := by simpa [receive] using received
    rfl
  | cons chunk chunks ih =>
    rw [List.cons_append, receive]
    rw [receive] at received
    split
    · rename_i failed
      simp [failed] at received
    · rename_i messages next stepped
      simp only [stepped, Prod.mk.injEq] at received
      obtain ⟨rfl, reached⟩ := received
      simp [ih (Prod.ext rfl reached)]

theorem Fits.head {held : Nat} {chunk : Bytes} {chunks : List Bytes} (fits : Fits frames held (chunk :: chunks))
    (open_ : complete frames held = 0) : held + chunk.length ≤ MAX_TRANSPORT_FRAME_BYTES + HEADER_SIZE := by
  have first := fits [] chunk chunks rfl
  simpa [unfinished_of_complete open_] using first

theorem Fits.tail {held : Nat} {chunk : Bytes} {chunks : List Bytes} (fits : Fits frames held (chunk :: chunks)) :
    Fits (frames.drop (complete frames (held + chunk.length))) (unfinished frames (held + chunk.length)) chunks := by
  rintro before next after rfl
  have later := fits (chunk :: before) next after rfl
  rwa [List.flatten_cons, List.length_append, ← Nat.add_assoc, unfinished_add] at later

/-- While every chunk fits, the messages of the complete frames have been handed out and the rest is held. -/
theorem receive_frames (chunks : List Bytes) (all : Frames numeral messages frames) {buffer : FrameBuffer}
    (stream : buffer.consolidate ++ chunks.flatten <+: frames.flatten) (open_ : complete frames buffer.totalLength = 0)
    (fits : Fits frames buffer.totalLength chunks) :
    ∃ last, receive buffer chunks =
        (messages.take (complete frames (buffer.totalLength + chunks.flatten.length)), .ok last) ∧
      last.totalLength = unfinished frames (buffer.totalLength + chunks.flatten.length) := by
  induction chunks generalizing messages frames buffer with
  | nil =>
    refine ⟨buffer, ?_, ?_⟩
    · simp [receive, open_]
    · simp [unfinished_of_complete open_]
  | cons chunk chunks ih =>
    obtain ⟨pushed, push⟩ := push_fits (fits.head open_)
    obtain ⟨-, length, bytes⟩ := push_eq_ok push
    rw [List.flatten_cons, ← List.append_assoc, ← bytes] at stream
    obtain ⟨kept, drain, left, rest⟩ := drain_frames all ((List.prefix_append _ _).trans stream)
    have balance := length_complete frames pushed.totalLength
    have counted : pushed.consolidate.length = pushed.totalLength := pushed.counted.symm
    -- What is kept continues where the complete frames end.
    have continued : kept.consolidate ++ chunks.flatten <+: (frames.drop (complete frames pushed.totalLength)).flatten := by
      have cut := stream.drop (pushed.totalLength - unfinished frames pushed.totalLength)
      have split : frames.flatten = (frames.take (complete frames pushed.totalLength)).flatten ++
          (frames.drop (complete frames pushed.totalLength)).flatten := by
        rw [← List.flatten_append, List.take_append_drop]
      have reached : (frames.take (complete frames pushed.totalLength)).flatten.length =
          pushed.totalLength - unfinished frames pushed.totalLength := by omega
      rwa [List.drop_append_of_le_length (show _ ≤ pushed.consolidate.length by omega), ← rest, split,
        List.drop_left' reached] at cut
    have later := fits.tail
    rw [← length, ← left] at later
    have resting := complete_rest frames pushed.totalLength
    rw [← left] at resting
    obtain ⟨last, received, end_⟩ := ih (all.drop _) continued resting later
    have counts := complete_add frames pushed.totalLength chunks.flatten.length
    have lefts := unfinished_add frames pushed.totalLength chunks.flatten.length
    refine ⟨last, ?_, ?_⟩
    · rw [receive_cons push drain, received, List.flatten_cons, List.length_append, ← Nat.add_assoc, ← length,
        counts, List.take_add, left]
    · rw [end_, List.flatten_cons, List.length_append, ← Nat.add_assoc, ← length, lefts, left]

theorem drain_shrinks {buffer last : FrameBuffer} {drained : List Json} (done : buffer.drain = .ok (drained, last)) :
    last.totalLength ≤ buffer.totalLength := by
  unfold FrameBuffer.drain at done
  split at done
  · obtain ⟨rfl, rfl⟩ := Prod.mk.inj (pure_eq_ok.mp done)
    exact Nat.le_refl _
  · obtain ⟨⟨messages, offset⟩, -, done⟩ := bind_eq_ok.mp done
    dsimp only at done
    split at done
    · obtain ⟨rfl, rfl⟩ := Prod.mk.inj (pure_eq_ok.mp done)
      simp [FrameBuffer.holding, FrameBuffer.consolidate, buffer.counted]
    · obtain ⟨rfl, rfl⟩ := Prod.mk.inj (pure_eq_ok.mp done)
      exact Nat.zero_le _

/-- Whatever the bytes are, the buffer never holds more than one maximal frame. -/
theorem receive_bounded (chunks : List Bytes) {buffer held : FrameBuffer} {drained : List Json}
    (start : buffer.totalLength ≤ MAX_TRANSPORT_FRAME_BYTES + HEADER_SIZE)
    (received : receive buffer chunks = (drained, .ok held)) :
    held.totalLength ≤ MAX_TRANSPORT_FRAME_BYTES + HEADER_SIZE := by
  induction chunks generalizing buffer drained with
  | nil =>
    obtain ⟨-, rfl⟩ : [] = drained ∧ buffer = held := by simpa [receive] using received
    exact start
  | cons chunk chunks ih =>
    rw [receive] at received
    split at received
    · simp at received
    · rename_i messages next stepped
      obtain ⟨pushed, push, drain⟩ := bind_eq_ok.mp stepped
      obtain ⟨small, length, -⟩ := push_eq_ok push
      have shrinks := drain_shrinks drain
      obtain ⟨-, reached⟩ := Prod.mk.inj received
      exact ih (by omega) (Prod.ext rfl reached)

/-- A stream no longer than one maximal frame fits however it is cut. -/
theorem fits_of_short (frames : List Bytes) {held : Nat} {chunks : List Bytes}
    (short : held + chunks.flatten.length ≤ MAX_TRANSPORT_FRAME_BYTES + HEADER_SIZE) : Fits frames held chunks := by
  rintro before chunk after rfl
  have balance := length_complete frames (held + before.flatten.length)
  simp only [List.flatten_append, List.flatten_cons, List.length_append] at short
  omega

/-- Either every chunk fits, or there is a first that does not. -/
theorem fits_or_first (frames : List Bytes) (held : Nat) (chunks : List Bytes) :
    Fits frames held chunks ∨ ∃ before chunk after, chunks = before ++ chunk :: after ∧ Fits frames held before ∧
      MAX_TRANSPORT_FRAME_BYTES + HEADER_SIZE < unfinished frames (held + before.flatten.length) + chunk.length := by
  induction chunks using List.reverseRecOn with
  | nil =>
    left
    intro before chunk after spelled
    simp at spelled
  | append_singleton chunks last ih =>
    rcases ih with fits | ⟨before, chunk, after, rfl, fits, beyond⟩
    · by_cases beyond : MAX_TRANSPORT_FRAME_BYTES + HEADER_SIZE <
          unfinished frames (held + chunks.flatten.length) + last.length
      · exact .inr ⟨chunks, last, [], rfl, fits, beyond⟩
      · left
        intro before chunk after spelled
        rcases List.eq_nil_or_concat after with rfl | ⟨init, final, rfl⟩
        · obtain ⟨rfl, same⟩ := List.append_inj' spelled rfl
          obtain rfl : last = chunk := by simpa using same
          omega
        · have inner : chunks ++ [last] = (before ++ chunk :: init) ++ [final] := by simpa using spelled
          obtain ⟨within, -⟩ := List.append_inj' inner rfl
          exact fits before chunk init within
    · exact .inr ⟨before, chunk, after ++ [last], by simp, fits, beyond⟩

theorem Frames.of_mapM (printable : ∀ msg ∈ messages, msg.Printable numeral)
    (serialized : messages.mapM (serializeFrame numeral) = .ok frames) : Frames numeral messages frames := by
  induction messages generalizing frames with
  | nil =>
    rw [List.mapM_nil] at serialized
    rw [← pure_eq_ok.mp serialized]
    exact .nil
  | cons msg messages ih =>
    rw [List.mapM_cons] at serialized
    obtain ⟨frame, first, rest⟩ := bind_eq_ok.mp serialized
    obtain ⟨others, later, done⟩ := bind_eq_ok.mp rest
    rw [← pure_eq_ok.mp done]
    exact .cons ⟨printable msg List.mem_cons_self, first⟩
      (ih (fun other listed => printable other (List.mem_cons_of_mem _ listed)) later)

/-- A stream of frames is decoded exactly as long as every chunk fits into the buffer beside the
unfinished frame before it. The first that does not is refused, after everything complete before
it was handed out. So the buffer never holds more than one maximal frame. -/
theorem receive_serialized {chunks : List Bytes} (printable : ∀ msg ∈ messages, msg.Printable numeral)
    (serialized : messages.mapM (serializeFrame numeral) = .ok frames) (cut : chunks.flatten = frames.flatten) :
    (Fits frames 0 chunks → ∃ last, receive .empty chunks = (messages, .ok last) ∧ last.totalLength = 0) ∧
    (¬Fits frames 0 chunks → ∃ before chunk after, chunks = before ++ chunk :: after ∧
      MAX_TRANSPORT_FRAME_BYTES + HEADER_SIZE < unfinished frames before.flatten.length + chunk.length ∧
      receive .empty chunks = (messages.take (complete frames before.flatten.length),
        .error (frameTooLargeError (unfinished frames before.flatten.length + chunk.length - HEADER_SIZE)))) ∧
    ∀ before after, chunks = before ++ after → ∀ drained held, receive .empty before = (drained, .ok held) →
      held.totalLength ≤ MAX_TRANSPORT_FRAME_BYTES + HEADER_SIZE ∧
      ∀ chunk pushed, held.push chunk = .ok pushed → pushed.totalLength ≤ MAX_TRANSPORT_FRAME_BYTES + HEADER_SIZE := by
  have all := Frames.of_mapM printable serialized
  have opens : complete frames FrameBuffer.empty.totalLength = 0 := complete_of_short all (by decide)
  have starts : ∀ before after, chunks = before ++ after →
      FrameBuffer.empty.consolidate ++ before.flatten <+: frames.flatten := by
    rintro before after rfl
    rw [← cut, List.flatten_append]
    exact List.prefix_append _ _
  refine ⟨?_, ?_, ?_⟩
  · intro fits
    obtain ⟨last, received, length⟩ := receive_frames chunks all (starts chunks [] (by simp)) opens fits
    obtain ⟨number, nothing⟩ := complete_all frames
    refine ⟨last, ?_, ?_⟩
    · rw [received, cut]
      simp only [empty_totalLength, Nat.zero_add, number, ← all.length_eq, List.take_length]
    · rw [length, cut]
      simpa using nothing
  · intro beyond
    obtain ⟨before, chunk, after, rfl, fits, beyond⟩ := (fits_or_first frames 0 chunks).resolve_left beyond
    obtain ⟨held, received, length⟩ := receive_frames before all (starts before _ rfl) opens fits
    simp only [empty_totalLength, Nat.zero_add] at received length beyond
    refine ⟨before, chunk, after, rfl, beyond, ?_⟩
    rw [← length] at beyond ⊢
    have refused := push_refused beyond
    rw [receive_append received, receive, refused]
    simp only [bind, Except.bind, List.append_nil]
  · rintro before after - drained held received
    refine ⟨receive_bounded before (Nat.zero_le _) received, ?_⟩
    intro chunk pushed push
    obtain ⟨small, length, -⟩ := push_eq_ok push
    omega

end

/-- Two frames, cut inside the first header and inside the second text. -/
theorem receive_serialized_cut :
    ∃ last, receive .empty [[0, 0], [0, 4, 110, 117, 108, 108, 0, 0, 0, 4, 116, 114], [117, 101]] =
      ([.null, .bool true], .ok last) ∧ last.totalLength = 0 := by
  have printable : ∀ msg ∈ [Json.null, Json.bool true], msg.Printable fun _ => [] := by simp [Json.Printable]
  have received := @receive_serialized (fun _ => []) [.null, .bool true]
    [[0, 0, 0, 4, 110, 117, 108, 108], [0, 0, 0, 4, 116, 114, 117, 101]]
    [[0, 0], [0, 4, 110, 117, 108, 108, 0, 0, 0, 4, 116, 114], [117, 101]] printable rfl rfl
  exact received.1 (fits_of_short _ (by decide))

/-- A text of that many letters. -/
def letters (count : Nat) : Json := .string (List.replicate count 'a')

theorem escape_letters (count : Nat) : (List.replicate count 'a').flatMap Json.escape = List.replicate count 'a' := by
  induction count with
  | zero => rfl
  | succ count ih =>
    rw [List.replicate_succ, List.flatMap_cons, ih]
    rfl

theorem length_letters (numeral : Rat → Text) (count : Nat) :
    (Utf8.encode ((letters count).print numeral)).length = count + 2 := by
  have one : ∀ count : Nat, (Utf8.encode (List.replicate count 'a')).length = count := by
    intro count
    induction count with
    | zero => rfl
    | succ count ih =>
      rw [List.replicate_succ, Utf8.encode, List.flatMap_cons, ← Utf8.encode, List.length_append, ih]
      exact Nat.add_comm 1 count
  rw [letters, Json.print, Json.quote, escape_letters, Utf8.encode, List.cons_append, List.flatMap_cons, List.flatMap_append,
    List.length_append, List.length_append, ← Utf8.encode, one]
  exact Nat.add_comm 1 (count + 1)

/-- Two frames within the limit that are together beyond it, in one chunk. -/
theorem receive_letters (numeral : Rat → Text) {count : Nat} (small : count + 2 ≤ MAX_TRANSPORT_FRAME_BYTES)
    (large : MAX_TRANSPORT_FRAME_BYTES + HEADER_SIZE < 2 * (count + 6)) :
    ∃ frame failure, serializeFrame numeral (letters count) = .ok frame ∧
      receive .empty [frame ++ frame] = ([], .error failure) := by
  have length := length_letters numeral count
  refine ⟨uint32 (count + 2) ++ Utf8.encode ((letters count).print numeral), ?_⟩
  have framed : serializeFrame numeral (letters count) =
      .ok (uint32 (count + 2) ++ Utf8.encode ((letters count).print numeral)) := by
    unfold serializeFrame
    dsimp only
    rw [length, refuse_of_not (Nat.not_lt.mpr small)]
    rfl
  obtain ⟨frame, named⟩ : ∃ frame, uint32 (count + 2) ++ Utf8.encode ((letters count).print numeral) = frame := ⟨_, rfl⟩
  have size : frame.length = count + 6 := by
    rw [← named, List.length_append, length_uint32, length]
    omega
  have refused : FrameBuffer.empty.push (frame ++ frame) = _ := push_refused (by
    rw [empty_totalLength, List.length_append, size]
    omega)
  rw [named] at framed ⊢
  refine ⟨frameTooLargeError (FrameBuffer.empty.totalLength + (frame ++ frame).length - HEADER_SIZE), framed, ?_⟩
  rw [receive, refused]
  rfl

/-- So a stream of frames is not decoded under every way of cutting it. -/
theorem receive_pipelined : ¬∀ (numeral : Rat → Text) (messages : List Json) (frames chunks : List Bytes),
    (∀ msg ∈ messages, msg.Printable numeral) → messages.mapM (serializeFrame numeral) = .ok frames →
    chunks.flatten = frames.flatten →
    ∃ last, receive .empty chunks = (messages, .ok last) ∧ last.totalLength = 0 := by
  intro decoded
  obtain ⟨frame, failure, framed, refused⟩ := receive_letters (fun _ => []) (show 5000000 + 2 ≤ MAX_TRANSPORT_FRAME_BYTES by decide)
    (by decide)
  obtain ⟨msg, named⟩ : ∃ msg, letters 5000000 = msg := ⟨_, rfl⟩
  have printable : msg.Printable fun _ => [] := by
    simp only [← named, letters, Json.Printable]
  rw [named] at framed
  have serialized : [msg, msg].mapM (serializeFrame fun _ => []) = .ok [frame, frame] := by
    simp [List.mapM_cons, framed, bind, Except.bind, pure, Except.pure]
  obtain ⟨last, received, -⟩ := decoded _ [msg, msg] [frame, frame] [frame ++ frame] (by simp [printable]) serialized
    (by simp)
  rw [refused] at received
  cases received

end Hrana

end AiryFS
