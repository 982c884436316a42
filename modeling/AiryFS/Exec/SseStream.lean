import AiryFS.Foundation.BlankLines
import AiryFS.Foundation.Utf8Stream
import AiryFS.Snapshots.Storage

/-! Server-sent events of the container, translated to lines of JSON.

The buffer is normalised and measured whenever a chunk is added to it, so what has been in it for several chunks
is treated several times, and what comes in one chunk is never measured while it is open.
-/

set_option autoImplicit false

namespace AiryFS

open Foundation

def MAX_SSE_BUFFER_BYTES : Nat := 1024 * 1024

def oversizedFrame : Failure := .error "Container SSE frame exceeds 1 MiB"

def incompleteFrame : Failure := .error "Container SSE stream ended with an incomplete frame"

/-- What a frame puts out. -/
def sseEmission (frame : Text) : Option Bytes :=
  let lines := frame.splitOn '\n'
  let event := (lines.find? fun line => "event:".toList.isPrefixOf line).map fun line => SnapshotStorage.trim (line.drop 6)
  let values := (lines.filter fun line => "data:".toList.isPrefixOf line).map fun line =>
    if (line.drop 5).head? = some ' ' then line.drop 6 else line.drop 5
  let data := ['\n'].intercalate values
  if event = some "heartbeat".toList then some (Utf8.encode ['\n'])
  else if data ≠ [] then some (Utf8.encode (data ++ ['\n']))
  else none

def oversized (buffer : Text) : Bool := decide ((Utf8.encode buffer).length > MAX_SSE_BUFFER_BYTES)

/-- The two variables of a conversion. -/
structure SseToNdjson where
  decoder : Utf8.Decoder
  buffer : Text
  deriving DecidableEq

/-- What came of a stream: the frames that were taken off the buffer, and whether it was rejected. -/
structure SseRun where
  frames : List Text
  failure : Option Failure

def SseRun.emitted (run : SseRun) : List Bytes := run.frames.filterMap sseEmission

namespace SseToNdjson

def fresh : SseToNdjson := ⟨.fresh, []⟩

/-- `drain`: the frames, and the buffer where it is not too large. -/
def drain (buffer : Text) : List Text × Except Failure Text :=
  let buffer := BlankLines.collapse '\r' '\n' buffer
  let (frames, buffer) := BlankLines.cutFrames '\n' buffer.length buffer
  (frames, if oversized buffer then .error oversizedFrame else .ok buffer)

def transform (state : SseToNdjson) (chunk : Bytes) : List Text × Except Failure SseToNdjson :=
  let decoded := state.decoder.decode chunk
  let drained := drain (state.buffer ++ decoded.1)
  (drained.1, drained.2.map fun buffer => ⟨decoded.2, buffer⟩)

def flush (state : SseToNdjson) : SseRun :=
  let drained := drain (state.buffer ++ state.decoder.finish)
  match drained.2 with
  | .error failure => ⟨drained.1, some failure⟩
  | .ok buffer => ⟨drained.1, if SnapshotStorage.trim buffer ≠ [] then some incompleteFrame else none⟩

/-- The chunks of a source, and its end. -/
def convert : SseToNdjson → List Bytes → SseRun
  | state, [] => state.flush
  | state, chunk :: chunks =>
    match state.transform chunk with
    | (frames, .error failure) => ⟨frames, some failure⟩
    | (frames, .ok state) =>
      let rest := convert state chunks
      { rest with frames := frames ++ rest.frames }

end SseToNdjson

/-! ## What the bytes say -/

/-- The frames that the first bytes of a stream complete, and the frame they leave open. -/
def framesRead (read : Bytes) : List Text × Text :=
  BlankLines.framesFrom '\n' [] (BlankLines.collapse '\r' '\n' (Utf8.Decoder.fresh.decode read).1)

/-- The frames of a stream, and what is behind them. -/
def framesOf (bytes : Bytes) : List Text × Text :=
  let decoded := Utf8.Decoder.fresh.decode bytes
  BlankLines.framesFrom '\n' [] (BlankLines.collapse '\r' '\n' (decoded.1 ++ decoded.2.finish))

/-- Why a stream with this behind its last frame is rejected. -/
def rejection (behind : Text) : Option Failure :=
  if oversized behind then some oversizedFrame
  else if SnapshotStorage.trim behind ≠ [] then some incompleteFrame
  else none

/-- However the bytes are cut, the same is put out, each frame once and in order, and the end is the same. -/
structure ChunkFree (bytes : Bytes) : Prop where
  emitted : ∀ chunks : List Bytes, chunks.flatten = bytes →
    (SseToNdjson.fresh.convert chunks).emitted = (framesOf bytes).1.filterMap sseEmission
  failure : ∀ chunks chunks' : List Bytes, chunks.flatten = bytes → chunks'.flatten = bytes →
    (SseToNdjson.fresh.convert chunks).failure = (SseToNdjson.fresh.convert chunks').failure
  event : ∀ chunks chunks' : List Bytes, chunks.flatten = bytes → chunks'.flatten = bytes →
    (SseToNdjson.fresh.convert chunks).failure ≠ none →
    (SseToNdjson.fresh.convert chunks).frames.length = (SseToNdjson.fresh.convert chunks').frames.length

/-- No carriage return is before the pair that ends a line. -/
def PlainReturns (bytes : Bytes) : Prop := ¬['\r', '\r', '\n'] <:+: (Utf8.Decoder.fresh.decode bytes).1

/-- A frame that is longer than the limit, up to its last line feed, is not completed. -/
def FramesFit (bytes : Bytes) : Prop :=
  ∀ read, read <+: bytes → oversized (framesRead read).2 = true → (framesRead read).1 = (framesRead bytes).1

variable {bytes read chunk : Bytes} {chunks : List Bytes}

/-! ## One chunk -/

theorem encode_length (text : Text) : (Utf8.encode text).length = (text.map fun c => (String.utf8EncodeChar c).length).sum := by
  rw [Utf8.encode, List.length_flatMap]

theorem decode_read (read chunk : Bytes) :
    (Utf8.Decoder.fresh.decode (read ++ chunk)).1 =
      (Utf8.Decoder.fresh.decode read).1 ++ ((Utf8.Decoder.fresh.decode read).2.decode chunk).1 ∧
    (Utf8.Decoder.fresh.decode (read ++ chunk)).2 = ((Utf8.Decoder.fresh.decode read).2.decode chunk).2 := by
  rw [Utf8.Decoder.decode_append]
  exact ⟨rfl, rfl⟩

theorem PlainReturns.earlier (plain : PlainReturns bytes) (earlier : read <+: bytes) : PlainReturns read := by
  obtain ⟨rest, rfl⟩ := earlier
  intro inside
  apply plain
  rw [(decode_read read rest).1]
  exact inside.trans (List.prefix_append _ _).isInfix

theorem drain_eq (buffer : Text) :
    SseToNdjson.drain buffer =
      ((BlankLines.framesFrom '\n' [] (BlankLines.collapse '\r' '\n' buffer)).1,
        if oversized (BlankLines.framesFrom '\n' [] (BlankLines.collapse '\r' '\n' buffer)).2 then .error oversizedFrame
        else .ok (BlankLines.framesFrom '\n' [] (BlankLines.collapse '\r' '\n' buffer)).2) := by
  unfold SseToNdjson.drain
  dsimp only
  rw [BlankLines.cutFrames_eq (Nat.le_refl _)]

/-- What is added to the buffer is read as if it had been there from the start. -/
theorem framesRead_drain (plain : PlainReturns read) (added : Text) :
    BlankLines.framesFrom '\n' [] (BlankLines.collapse '\r' '\n' ((Utf8.Decoder.fresh.decode read).1 ++ added)) =
      ((framesRead read).1 ++ (BlankLines.framesFrom '\n' [] (BlankLines.collapse '\r' '\n' ((framesRead read).2 ++ added))).1,
        (BlankLines.framesFrom '\n' [] (BlankLines.collapse '\r' '\n' ((framesRead read).2 ++ added))).2) :=
  BlankLines.framesFrom_resume (by decide) added plain

/-- The state of a conversion is a function of the bytes read. -/
def stateAfter (read : Bytes) : SseToNdjson := ⟨(Utf8.Decoder.fresh.decode read).2, (framesRead read).2⟩

theorem transform_read (plain : PlainReturns read) (chunk : Bytes) :
    ∃ frames, (framesRead (read ++ chunk)).1 = (framesRead read).1 ++ frames ∧ (stateAfter read).transform chunk =
      (frames, if oversized (framesRead (read ++ chunk)).2 then .error oversizedFrame else .ok (stateAfter (read ++ chunk))) := by
  obtain ⟨text, decoder⟩ := decode_read read chunk
  have resumed := framesRead_drain plain ((Utf8.Decoder.fresh.decode read).2.decode chunk).1
  rw [← text] at resumed
  have whole : framesRead (read ++ chunk) = _ := resumed
  refine ⟨_, by rw [whole], ?_⟩
  unfold SseToNdjson.transform
  dsimp only [stateAfter]
  rw [drain_eq, whole, decoder]
  dsimp only
  split
  · rfl
  · rfl

theorem flush_read (plain : PlainReturns read) :
    ∃ frames, (framesOf read).1 = (framesRead read).1 ++ frames ∧
      (stateAfter read).flush = ⟨frames, rejection (framesOf read).2⟩ := by
  have resumed := framesRead_drain plain (Utf8.Decoder.fresh.decode read).2.finish
  have whole : framesOf read = _ := resumed
  refine ⟨_, by rw [whole], ?_⟩
  unfold SseToNdjson.flush
  dsimp only [stateAfter]
  rw [drain_eq, whole, rejection]
  dsimp only
  generalize BlankLines.framesFrom '\n' [] (BlankLines.collapse '\r' '\n' ((framesRead read).2 ++ (Utf8.Decoder.fresh.decode read).2.finish)) =
    framed
  cases oversized framed.2 <;> rfl

/-- The end of a stream completes no frame. -/
theorem framesOf_eq (bytes : Bytes) :
    framesOf bytes = ((framesRead bytes).1, (framesRead bytes).2 ++ (Utf8.Decoder.fresh.decode bytes).2.finish) := by
  unfold framesOf framesRead
  dsimp only
  generalize (Utf8.Decoder.fresh.decode bytes) = decoded
  obtain ⟨text, decoder⟩ := decoded
  unfold Utf8.Decoder.finish
  dsimp only
  split
  · have other : Utf8.replacement ≠ '\n' := by decide
    rw [BlankLines.collapse_append [Utf8.replacement] (fun pair => other (Option.some.inj pair.2)), BlankLines.collapse_single,
      BlankLines.framesFrom_concat, if_neg fun doubled => other doubled.1]
  · rw [List.append_nil, List.append_nil]

/-- What is too long stays too long as long as it is open. -/
theorem oversized_later (plain : PlainReturns read) (earlier : read <+: bytes) (large : oversized (framesRead read).2 = true)
    (same : (framesRead read).1 = (framesRead bytes).1) : rejection (framesOf bytes).2 = some oversizedFrame := by
  obtain ⟨rest, rfl⟩ := earlier
  have heavier := BlankLines.open_weight (show '\r' ≠ '\n' by decide) (fun c => (String.utf8EncodeChar c).length) (by decide)
    ((Utf8.Decoder.fresh.decode read).2.decode rest).1 plain (by rw [← (decode_read read rest).1]; exact same.symm)
  rw [← (decode_read read rest).1, ← encode_length, ← encode_length] at heavier
  have large : MAX_SSE_BUFFER_BYTES < (Utf8.encode (framesRead read).2).length := of_decide_eq_true large
  have heavier : (Utf8.encode (framesRead read).2).length ≤ (Utf8.encode (framesRead (read ++ rest)).2).length := heavier
  have whole : oversized (framesOf (read ++ rest)).2 = true := by
    rw [framesOf_eq, oversized, Utf8.encode, List.flatMap_append, List.length_append]
    exact decide_eq_true (Nat.lt_of_lt_of_le (Nat.lt_of_lt_of_le large heavier) (Nat.le_add_right _ _))
  rw [rejection, if_pos whole]

/-! ## All chunks -/

/-- Wherever a chunk ends inside a frame that is too long, that frame is not completed. -/
theorem convert_read (plain : PlainReturns (read ++ chunks.flatten))
    (fit : ∀ front, front <+: chunks → front ≠ [] → oversized (framesRead (read ++ front.flatten)).2 = true →
      (framesRead (read ++ front.flatten)).1 = (framesRead (read ++ chunks.flatten)).1) :
    (framesOf (read ++ chunks.flatten)).1 = (framesRead read).1 ++ ((stateAfter read).convert chunks).frames ∧
      ((stateAfter read).convert chunks).failure = rejection (framesOf (read ++ chunks.flatten)).2 := by
  induction chunks generalizing read with
  | nil =>
    rw [List.flatten_nil, List.append_nil] at plain ⊢
    obtain ⟨frames, framed, flushed⟩ := flush_read plain
    rw [SseToNdjson.convert, flushed]
    exact ⟨framed, rfl⟩
  | cons chunk chunks ih =>
    rw [List.flatten_cons, ← List.append_assoc] at plain fit ⊢
    have before : PlainReturns read := plain.earlier (by rw [List.append_assoc]; exact List.prefix_append _ _)
    obtain ⟨frames, framed, transformed⟩ := transform_read before chunk
    rw [SseToNdjson.convert, transformed]
    cases large : oversized (framesRead (read ++ chunk)).2 with
    | true =>
      have last := fit [chunk] ⟨chunks, rfl⟩ (List.cons_ne_nil _ _) (by rwa [List.flatten_singleton])
      rw [List.flatten_singleton] at last
      have earlier : read ++ chunk <+: read ++ chunk ++ chunks.flatten := List.prefix_append _ _
      rw [oversized_later (plain.earlier earlier) earlier large last, framesOf_eq, ← last]
      exact ⟨framed, rfl⟩
    | false =>
      obtain ⟨rest, failure⟩ := ih plain fun front earlier filled large => by
        have inner := fit (chunk :: front) (List.cons_prefix_cons.mpr ⟨rfl, earlier⟩) (List.cons_ne_nil _ _)
        rw [List.flatten_cons, ← List.append_assoc] at inner
        exact inner large
      refine ⟨?_, failure⟩
      rw [rest, framed, List.append_assoc]
      rfl

theorem stateAfter_nil : stateAfter [] = SseToNdjson.fresh := rfl

theorem convert_fit (plain : PlainReturns bytes) (fit : FramesFit bytes) (cut : chunks.flatten = bytes) :
    (SseToNdjson.fresh.convert chunks).frames = (framesOf bytes).1 ∧
      (SseToNdjson.fresh.convert chunks).failure = rejection (framesOf bytes).2 := by
  subst cut
  obtain ⟨frames, failure⟩ := @convert_read [] chunks plain fun front earlier _ large =>
    fit front.flatten (by obtain ⟨rest, rfl⟩ := earlier; rw [List.flatten_append]; exact List.prefix_append _ _) large
  exact ⟨frames.symm, failure⟩

/-- The end of a stream that comes in one chunk. -/
theorem convert_whole (plain : PlainReturns bytes) :
    (SseToNdjson.fresh.convert [bytes]).frames = (framesOf bytes).1 ∧
      (SseToNdjson.fresh.convert [bytes]).failure = rejection (framesOf bytes).2 := by
  have single : [bytes].flatten = bytes := List.flatten_singleton
  obtain ⟨frames, failure⟩ := @convert_read [] [bytes] (by rw [single]; exact plain) fun front earlier filled _ => by
    obtain ⟨chunk, rest, rfl⟩ := List.exists_cons_of_ne_nil filled
    obtain ⟨rfl, nothing⟩ := List.cons_prefix_cons.mp earlier
    rw [List.prefix_nil.mp nothing]
  rw [single, List.nil_append] at frames failure
  exact ⟨frames.symm, failure⟩

def sampleEvents : Bytes := Utf8.encode "event: x\r\ndata: a\r\n\r\n".toList

end AiryFS
