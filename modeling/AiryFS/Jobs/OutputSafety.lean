import AiryFS.Container.Cursor
import AiryFS.Foundation.LineReader
import AiryFS.Foundation.Utf8Stream
import AiryFS.Jobs.JobLogs

/-! The events of a command, read from the byte stream of the container.

A chunk gives the events of all the lines that end in it, or an error and none of them.
-/

set_option autoImplicit false

namespace AiryFS

open Foundation

namespace Jobs

def DEFAULT_MAX_LINE_BYTES : Nat := 4 * 1024 * 1024

def bound (line : Text) : Except Failure Unit :=
  refuse ((Utf8.encode line).length > DEFAULT_MAX_LINE_BYTES)
    (.error s!"NDJSON line exceeds {DEFAULT_MAX_LINE_BYTES} bytes")

def malformed (line : Text) : Failure := .error (String.ofList ("Malformed NDJSON line: ".toList ++ sliceUnits 120 line))

/-- A value that a condition takes for false is dropped as a blank line is. -/
def parse (line : Text) : Except Failure (Option Json) :=
  if SnapshotStorage.trim line = [] then .ok none
  else
    match Json.parse line with
    | none => .error (malformed line)
    | some value => .ok (if Cursor.truthy value then some value else none)

/-- The events of a line: at most one. -/
def readLine (line : Text) : Except Failure (List Json) := do
  bound line
  let parsed ← parse line
  return parsed.toList

structure BoundedNdjsonDecoder where
  decoder : Utf8.Decoder
  buffer : Text
  deriving DecidableEq

namespace BoundedNdjsonDecoder

def fresh : BoundedNdjsonDecoder := ⟨.fresh, []⟩

/-- The loop of `push`, a line in each round. -/
def drain : Nat → Text → Except Failure (List Json × Text)
  | 0, buffer => .ok ([], buffer)
  | rounds + 1, buffer =>
    match buffer.dropWhile (· ≠ '\n') with
    | [] => .ok ([], buffer)
    | _ :: rest => do
      let parsed ← readLine (buffer.takeWhile (· ≠ '\n'))
      let (events, buffer) ← drain rounds rest
      return (parsed ++ events, buffer)

def push (decoder : BoundedNdjsonDecoder) (chunk : Bytes) : Except Failure (List Json × BoundedNdjsonDecoder) := do
  let decoded := decoder.decoder.decode chunk
  let buffer := decoder.buffer ++ decoded.1
  let (events, buffer) ← drain buffer.length buffer
  bound buffer
  return (events, { decoder := decoded.2, buffer })

def flush (decoder : BoundedNdjsonDecoder) : Except Failure (List Json) :=
  readLine (decoder.buffer ++ decoder.decoder.finish)

end BoundedNdjsonDecoder

/-! ## The events of a run -/

/-- What `handle` does with a value of the stream. -/
inductive Reaction where
  | event (event : ExecEvent)
  | ignored
  | throws (failure : Failure)
  deriving DecidableEq

/-- The messages of the decoder begin in one of these ways. -/
def Own (failure : Failure) : Prop :=
  "NDJSON line exceeds ".toList <+: conciseError failure ∨ "Malformed NDJSON line: ".toList <+: conciseError failure

/-- What is not part of the program: how base64 is read, and what becomes of a member that the
contract of the events does not allow. What is thrown then is no message of the decoder. -/
structure Platform where
  bufferFrom : Text → Bytes
  outside : Json → Reaction
  foreign : ∀ value failure, outside value = .throws failure → ¬Own failure

def textOf : Option Json → Option Text
  | some (.string text) => some text
  | _ => none

def integerOf : Option Json → Option Int
  | some (.number (some value)) => if value.den = 1 then some value.num else none
  | _ => none

def Platform.reaction (platform : Platform) (value : Json) : Reaction :=
  let type := Cursor.get (some value) "type"
  let id := textOf (Cursor.get (some value) "id")
  if Cursor.isText type "start" then id.elim (platform.outside value) fun id => .event (.start id)
  else if Cursor.isText type "stdout" || Cursor.isText type "stderr" then
    (textOf (Cursor.get (some value) "data")).elim (platform.outside value) fun data =>
      .event (.output (if Cursor.isText type "stdout" then .stdout else .stderr) (id.getD []) (platform.bufferFrom data))
  else if Cursor.isText type "exit" then
    (integerOf (Cursor.get (some value) "exitCode")).elim (platform.outside value) fun exitCode =>
      .event (.exit (id.getD []) exitCode)
  else .ignored

/-- The clock: its reading at each event, and at the end. -/
structure Clock where
  handled : Nat → Int
  finished : Int

end Jobs

open Jobs

namespace JobSystem

/-- `handle`, with the number of events before. A job that has ended makes nothing of an event. -/
def serve (platform : Platform) (clock : Clock) (state : Nat × JobSystem) (value : Json) : Nat × JobSystem :=
  (state.1 + 1,
    match platform.reaction value with
    | .event event => state.2.step (.event event (clock.handled state.1))
    | .ignored => state.2
    | .throws failure => state.2.step (.broken failure clock.finished))

/-- The loop of `runJob` over the chunks of the stream. -/
def readStream (platform : Platform) (clock : Clock) : BoundedNdjsonDecoder → List Bytes → Nat × JobSystem → JobSystem
  | decoder, [], state =>
    match decoder.flush with
    | .error failure => state.2.step (.broken failure clock.finished)
    | .ok events => (events.foldl (serve platform clock) state).2.step (.ended clock.finished)
  | decoder, chunk :: chunks, state =>
    match decoder.push chunk with
    | .error failure => state.2.step (.broken failure clock.finished)
    | .ok (events, decoder) => readStream platform clock decoder chunks (events.foldl (serve platform clock) state)

end JobSystem

/-! When the output of a job does not depend on how its stream is cut. -/

open Foundation LineReader

namespace Jobs

/-! ## The decoder as a reader of lines -/

def tooLong (line : Text) : Option Failure :=
  match bound line with
  | .error failure => some failure
  | .ok _ => none

theorem tooLong_eq (line : Text) : tooLong line =
    if (Utf8.encode line).length > DEFAULT_MAX_LINE_BYTES
    then some (.error s!"NDJSON line exceeds {DEFAULT_MAX_LINE_BYTES} bytes") else none := by
  by_cases long : (Utf8.encode line).length > DEFAULT_MAX_LINE_BYTES
  · simp [tooLong, bound, refuse, long]
  · simp [tooLong, bound, refuse, long]

theorem bounding : Bounding readLine tooLong where
  empty := by
    rw [tooLong_eq]
    rfl
  grows := by
    intro line more refusal long
    rw [tooLong_eq] at long ⊢
    split at long
    · rename_i exceeds
      rw [if_pos ?_]
      · exact long
      · rw [Utf8.encode, List.flatMap_append, List.length_append]
        exact Nat.lt_of_lt_of_le exceeds (Nat.le_add_right _ _)
    · cases long
  reads := by
    intro line refusal long
    unfold tooLong at long
    split at long
    · rename_i failure refused
      obtain rfl := Option.some.inj long
      rw [readLine, refused]
      rfl
    · cases long

/-- What was inspected, as the decoder returns it. -/
def answer {α : Type} : List Json × Option Failure → α → Except Failure (List Json × α)
  | (_, some failure), _ => .error failure
  | (values, none), rest => .ok (values, rest)

theorem answer_of_some {α : Type} {found : List Json × Option Failure} {failure : Failure} (late : found.2 = some failure)
    (rest : α) : answer found rest = .error failure := by
  obtain ⟨values, refusal⟩ := found
  subst late
  rfl

theorem answer_of_none {α : Type} {found : List Json × Option Failure} (fine : found.2 = none) (rest : α) :
    answer found rest = .ok (found.1, rest) := by
  obtain ⟨values, refusal⟩ := found
  subst fine
  rfl

theorem drain_eq (rounds : Nat) (buffer : Text) (enough : buffer.length ≤ rounds) :
    BoundedNdjsonDecoder.drain rounds buffer =
      answer (survey readLine (linesFrom '\n' [] buffer).1) (linesFrom '\n' [] buffer).2 := by
  induction rounds generalizing buffer with
  | zero =>
    rw [List.eq_nil_of_length_eq_zero (Nat.le_zero.mp enough)]
    rfl
  | succ rounds ih =>
    rw [BoundedNdjsonDecoder.drain]
    have joined := @List.takeWhile_append_dropWhile _ (· ≠ '\n') buffer
    have unmarked : '\n' ∉ buffer.takeWhile (· ≠ '\n') := by
      intro member
      simpa using List.mem_takeWhile_imp member
    split
    · rename_i nothing
      rw [nothing, List.append_nil] at joined
      rw [joined] at unmarked
      rw [linesFrom_open [] unmarked]
      rfl
    · rename_i first rest found
      have ends : first = '\n' := by
        have head := List.head?_dropWhile_not (· ≠ '\n') buffer
        rw [found] at head
        simpa using head
      rw [found, ends] at joined
      have shorter : rest.length ≤ rounds := by
        have total := congrArg List.length joined
        rw [List.length_append, List.length_cons] at total
        omega
      have lines := linesFrom_line [] rest unmarked
      rw [joined] at lines
      rw [lines, ih rest shorter]
      dsimp only
      rw [List.nil_append]
      cases reads : readLine (buffer.takeWhile (· ≠ '\n')) with
      | error failure =>
        rw [survey_of_error reads]
        rfl
      | ok parsed =>
        rw [survey_of_ok reads]
        cases surveyed : survey readLine (linesFrom '\n' [] rest).1 with
        | mk values refusal =>
          cases refusal with
          | some failure => rfl
          | none => rfl

theorem push_eq {decoder : BoundedNdjsonDecoder} (unmarked : '\n' ∉ decoder.buffer) (chunk : Bytes) :
    decoder.push chunk =
      answer (inspect '\n' readLine tooLong decoder.buffer (decoder.decoder.decode chunk).1)
        ⟨(decoder.decoder.decode chunk).2, (linesFrom '\n' decoder.buffer (decoder.decoder.decode chunk).1).2⟩ := by
  rw [BoundedNdjsonDecoder.push]
  dsimp only
  rw [drain_eq _ _ (Nat.le_refl _), linesFrom_nil unmarked]
  unfold inspect
  dsimp only
  cases surveyed : survey readLine (linesFrom '\n' decoder.buffer (decoder.decoder.decode chunk).1).1 with
  | mk values refusal =>
    cases refusal with
    | some failure => rfl
    | none =>
      cases long : bound (linesFrom '\n' decoder.buffer (decoder.decoder.decode chunk).1).2 with
      | error failure => simp [answer, tooLong, long, bind, Except.bind]
      | ok _ => simp [answer, tooLong, long, bind, Except.bind, pure, Except.pure]

end Jobs

open Jobs

namespace JobSystem

variable {platform : Platform} {clock : Clock}

/-- The end of a stream of which every chunk was fine. -/
def atEnd (platform : Platform) (clock : Clock) (decoder : BoundedNdjsonDecoder) (state : Nat × JobSystem) : JobSystem :=
  match decoder.flush with
  | .error failure => state.2.step (.broken failure clock.finished)
  | .ok events => (events.foldl (serve platform clock) state).2.step (.ended clock.finished)

/-- The loop reads the lines of the decoded texts. -/
theorem readStream_eq {decoder : BoundedNdjsonDecoder} (unmarked : '\n' ∉ decoder.buffer) (chunks : List Bytes)
    (state : Nat × JobSystem) :
    readStream platform clock decoder chunks state =
      match readAll '\n' readLine tooLong (serve platform clock) state decoder.buffer (decoder.decoder.decodeAll chunks).1 with
      | ((state', _), some failure) => state'.2.step (.broken failure clock.finished)
      | ((state', buffer), none) => atEnd platform clock ⟨(decoder.decoder.decodeAll chunks).2, buffer⟩ state' := by
  induction chunks generalizing decoder state with
  | nil => rfl
  | cons chunk chunks ih =>
    rw [readStream, push_eq unmarked]
    rw [Utf8.Decoder.decodeAll]
    cases late : (inspect '\n' readLine tooLong decoder.buffer (decoder.decoder.decode chunk).1).2 with
    | some failure =>
      rw [readAll_of_some late, answer_of_some late]
    | none =>
      rw [readAll_of_none late, answer_of_none late]
      exact ih (open_unmarked unmarked _) _

/-! ## The stream as a whole -/

/-- The text of the bytes, without what an unfinished character becomes. -/
def textOfStream (stream : Bytes) : Text := (Utf8.Decoder.fresh.decode stream).1

/-- The events before the first line that `push` refuses, and its refusal. -/
def inspected (stream : Bytes) : List Json × Option Failure := inspect '\n' readLine tooLong [] (textOfStream stream)

/-- The decoder after a stream of which every chunk was fine. -/
def lastDecoder (stream : Bytes) : BoundedNdjsonDecoder :=
  ⟨(Utf8.Decoder.fresh.decode stream).2, (linesFrom '\n' [] (textOfStream stream)).2⟩

theorem readStream_fine {stream : Bytes} (fine : (inspected stream).2 = none) {chunks : List Bytes}
    (cut : chunks.flatten = stream) (state : Nat × JobSystem) :
    readStream platform clock .fresh chunks state =
      atEnd platform clock (lastDecoder stream) ((inspected stream).1.foldl (serve platform clock) state) := by
  obtain ⟨text, last⟩ := Utf8.Decoder.fresh.decodeAll_spec chunks
  rw [cut] at text last
  have whole : (inspect '\n' readLine tooLong [] (Utf8.Decoder.fresh.decodeAll chunks).1.flatten).2 = none := by
    rw [text]
    exact fine
  have served := readAll_fine (serve platform clock) bounding _ bounding.empty whole state
  rw [readStream_eq List.not_mem_nil]
  unfold BoundedNdjsonDecoder.fresh
  rw [served, text, last]
  rfl

theorem readStream_refused {stream : Bytes} {failure : Failure} (refused : (inspected stream).2 = some failure)
    {chunks : List Bytes} (cut : chunks.flatten = stream) (state : Nat × JobSystem) :
    ∃ served rest, (inspected stream).1 = served ++ rest ∧
      readStream platform clock .fresh chunks state =
        (served.foldl (serve platform clock) state).2.step (.broken failure clock.finished) ∧
      ((∀ chunk ∈ chunks, chunk.length = 1) → rest = []) := by
  obtain ⟨text, last⟩ := Utf8.Decoder.fresh.decodeAll_spec chunks
  rw [cut] at text
  have whole : (inspect '\n' readLine tooLong [] (Utf8.Decoder.fresh.decodeAll chunks).1.flatten).2 = some failure := by
    rw [text]
    exact refused
  obtain ⟨served, rest, split, state', failed, fine⟩ :=
    readAll_refused (serve platform clock) bounding _ bounding.empty whole state
  rw [text] at split
  refine ⟨served, rest, split, ?_, fun bytes => fine (Utf8.Decoder.fresh.decodeAll_bytes bytes)⟩
  rw [readStream_eq List.not_mem_nil]
  unfold BoundedNdjsonDecoder.fresh
  dsimp only
  cases read : readAll '\n' readLine tooLong (serve platform clock) state [] (Utf8.Decoder.fresh.decodeAll chunks).1 with
  | mk reached late =>
    rw [read] at failed state'
    dsimp only at failed state'
    subst failed
    rw [← state']

/-- A chunk of everything loses what comes before the refused line. -/
theorem readStream_whole {stream : Bytes} {failure : Failure} (refused : (inspected stream).2 = some failure)
    (state : Nat × JobSystem) :
    readStream platform clock .fresh [stream] state = state.2.step (.broken failure clock.finished) := by
  rw [readStream, push_eq List.not_mem_nil]
  have late : (inspect '\n' readLine tooLong BoundedNdjsonDecoder.fresh.buffer
      (BoundedNdjsonDecoder.fresh.decoder.decode stream).1).2 = some failure := refused
  rw [answer_of_some late]

end JobSystem

end AiryFS
