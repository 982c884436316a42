import AiryFS.Foundation.JsonEnds
import AiryFS.Foundation.Utf8Lines
import AiryFS.Foundation.WhiteSpace
import AiryFS.Jobs.Runner

/-! The lines of JSON that the client reads from a byte stream.

Values that stand in front of a bad line are given only if a chunk ends between them and it, and the open line is counted
in raw bytes or in bytes of its text, depending on where the chunks end.
-/

set_option autoImplicit false

namespace AiryFS

open Foundation Utf8 LineReader

structure NdjsonError where
  message : Text
  deriving DecidableEq

structure NdjsonDecoder where
  decoder : Utf8.Decoder
  maxLineBytes : Nat
  buffer : Text
  bufferBytes : Nat
  deriving DecidableEq

namespace NdjsonDecoder

def DEFAULT_MAX_LINE_BYTES : Nat := 1024 * 1024

def new (maxLineBytes : Option Nat) : NdjsonDecoder := ⟨.fresh, maxLineBytes.getD DEFAULT_MAX_LINE_BYTES, [], 0⟩

def exceeds (maxLineBytes : Nat) : NdjsonError := ⟨s!"NDJSON line exceeds {maxLineBytes} bytes".toList⟩

def parse (line : Text) : Except NdjsonError Json :=
  match Json.parse line with
  | some value => .ok value
  | none => .error ⟨"Malformed NDJSON line: ".toList ++ Jobs.sliceUnits 120 line⟩

/-- The value of a line, unless it is blank. -/
def parseLine (line : Text) : Except NdjsonError (List Json) :=
  if WhiteSpace.trim line = [] then .ok [] else (parse line).map fun value => [value]

/-- The loop of `drain`, a line in each round. -/
def drainLines : Nat → NdjsonDecoder → Except NdjsonError (List Json × NdjsonDecoder)
  | 0, decoder => .ok ([], decoder)
  | rounds + 1, decoder =>
    match decoder.buffer.dropWhile (· ≠ '\n') with
    | [] => .ok ([], decoder)
    | _ :: rest =>
      let line := decoder.buffer.takeWhile (· ≠ '\n')
      if decoder.maxLineBytes < (encode line).length then .error (exceeds decoder.maxLineBytes)
      else do
        let parsed ← parseLine line
        let (values, decoder) ← drainLines rounds { decoder with buffer := rest, bufferBytes := (encode rest).length }
        return (parsed ++ values, decoder)

def drain (decoder : NdjsonDecoder) : Except NdjsonError (List Json × NdjsonDecoder) := do
  let (values, decoder) ← drainLines decoder.buffer.length decoder
  if decoder.maxLineBytes < decoder.bufferBytes then .error (exceeds decoder.maxLineBytes) else return (values, decoder)

def push (decoder : NdjsonDecoder) (chunk : Bytes) : Except NdjsonError (List Json × NdjsonDecoder) :=
  let decoded := decoder.decoder.decode chunk
  drain { decoder with
    bufferBytes := decoder.bufferBytes + chunk.length
    buffer := decoder.buffer ++ decoded.1
    decoder := decoded.2 }

def flush (decoder : NdjsonDecoder) : Except NdjsonError (List Json) :=
  let trailing := decoder.buffer ++ decoder.decoder.finish
  if trailing = [] then .ok [] else parseLine trailing

end NdjsonDecoder

/-- The values that are yielded, and what is thrown behind them. -/
def decodeNdjsonStream : NdjsonDecoder → List Bytes → List Json × Option NdjsonError
  | decoder, [] =>
    match decoder.flush with
    | .error failure => ([], some failure)
    | .ok values => (values, none)
  | decoder, chunk :: chunks =>
    match decoder.push chunk with
    | .error failure => ([], some failure)
    | .ok (values, decoder) => (values ++ (decodeNdjsonStream decoder chunks).1, (decodeNdjsonStream decoder chunks).2)

namespace NdjsonDecoder

/-! ## The decoder as a reader of lines of bytes -/

def readLine (maxLineBytes : Nat) (line : Text) : Except NdjsonError (List Json) :=
  if maxLineBytes < (encode line).length then .error (exceeds maxLineBytes) else parseLine line

/-- Counted anew, the open line has the bytes of its text, and what the decoder still holds does not count. -/
def meter (maxLineBytes : Nat) : Meter UInt8 Char Json NdjsonError where
  mark := newline
  limit := maxLineBytes
  excess := exceeds maxLineBytes
  text := lineText
  weight last := (encode (feed none last).1).length
  read := readLine maxLineBytes
  close begun last := parseLine (lineText begun last)

/-- A line that ends in a replacement is no JSON and not blank. -/
theorem parseLine_replacement (text : Text) : ∃ failure, parseLine (text ++ [replacement]) = .error failure := by
  have solid : WhiteSpace.trim (text ++ [replacement]) ≠ [] := by
    have parts := @WhiteSpace.trim_append text [] replacement (by decide) (by simp)
    rw [parts]
    simp
  unfold parseLine
  rw [if_neg solid, parse, Json.parse_ends (by decide)]
  exact ⟨_, rfl⟩

theorem meter_fair (maxLineBytes : Nat) : (meter maxLineBytes).Fair where
  empty := rfl
  grows first second := by
    show (encode (feed none first).1).length ≤ (encode (feed none (first ++ second)).1).length
    rw [feed_append, encode, encode, List.flatMap_append, List.length_append]
    exact Nat.le_add_right _ _
  read first second values read := by
    have within := length_le_of_split first second
    have read : readLine maxLineBytes (decodeFrom none (first ++ second)) = .ok values := read
    unfold readLine at read
    split at read
    · cases read
    · rename_i light
      exact Nat.le_trans within (Nat.le_of_not_lt light)
  closed first second values closed := by
    have within := length_le_of_split first second
    have closed : parseLine (decodeFrom none (first ++ second)) = .ok values := closed
    rw [decodeFrom_feed] at within closed
    split at closed
    · obtain ⟨failure, failed⟩ := parseLine_replacement (feed none (first ++ second)).1
      rw [failed] at closed
      cases closed
    · rename_i clean
      rw [if_neg clean, List.append_nil] at within
      exact within

/-- What was drained, as the loop returns it. -/
def drained (decoder : NdjsonDecoder) (lines : List Text × Text) : Except NdjsonError (List Json × NdjsonDecoder) :=
  match survey (readLine decoder.maxLineBytes) lines.1 with
  | (_, some failure) => .error failure
  | (values, none) => .ok (values, { decoder with
      buffer := lines.2
      bufferBytes := if lines.1 = [] then decoder.bufferBytes else (encode lines.2).length })

theorem drainLines_eq (rounds : Nat) (decoder : NdjsonDecoder) (enough : decoder.buffer.length ≤ rounds) :
    decoder.drainLines rounds = decoder.drained (linesFrom '\n' [] decoder.buffer) := by
  induction rounds generalizing decoder with
  | zero =>
    have none_ := List.eq_nil_of_length_eq_zero (Nat.le_zero.mp enough)
    obtain ⟨state, limit, buffer, count⟩ := decoder
    subst none_
    rfl
  | succ rounds ih =>
    rw [drainLines]
    have joined := @List.takeWhile_append_dropWhile _ (· ≠ '\n') decoder.buffer
    have unmarked : '\n' ∉ decoder.buffer.takeWhile (· ≠ '\n') := by
      intro member
      simpa using List.mem_takeWhile_imp member
    split
    · rename_i nothing
      rw [nothing, List.append_nil] at joined
      rw [joined] at unmarked
      rw [linesFrom_open [] unmarked]
      rfl
    · rename_i first rest found
      have ends : first = '\n' := by
        have head := List.head?_dropWhile_not (· ≠ '\n') decoder.buffer
        rw [found] at head
        simpa using head
      rw [found, ends] at joined
      have shorter : rest.length ≤ rounds := by
        have total := congrArg List.length joined
        rw [List.length_append, List.length_cons] at total
        omega
      have lines := linesFrom_line [] rest unmarked
      rw [joined, List.nil_append] at lines
      dsimp only
      rw [lines, ih { decoder with buffer := rest, bufferBytes := (encode rest).length } shorter]
      unfold drained
      dsimp only
      by_cases long : decoder.maxLineBytes < (encode (decoder.buffer.takeWhile (· ≠ '\n'))).length
      · rw [if_pos long, survey_of_error (if_pos long)]
      · rw [if_neg long]
        have reads : readLine decoder.maxLineBytes (decoder.buffer.takeWhile (· ≠ '\n')) =
            parseLine (decoder.buffer.takeWhile (· ≠ '\n')) := if_neg long
        cases parsed : parseLine (decoder.buffer.takeWhile (· ≠ '\n')) with
        | error failure =>
          rw [survey_of_error (reads.trans parsed)]
          rfl
        | ok values =>
          rw [survey_of_ok (reads.trans parsed)]
          cases surveyed : survey (readLine decoder.maxLineBytes) (linesFrom '\n' [] rest).1 with
          | mk later refusal =>
            cases refusal with
            | some failure => rfl
            | none =>
              -- The text behind the first line is the open one, if no other line ends in it.
              by_cases none_ : (linesFrom '\n' [] rest).1 = []
              · have open_ : (linesFrom '\n' [] rest).2 = rest := by
                  rcases Meter.linesFrom_extends '\n' [] rest with whole | ⟨more, others, shape⟩
                  · rw [whole]
                    rfl
                  · rw [shape] at none_
                    cases none_
                rw [if_pos none_, if_neg (List.cons_ne_nil _ _), open_]
                rfl
              · rw [if_neg none_, if_neg (List.cons_ne_nil _ _)]
                rfl

theorem drain_eq (decoder : NdjsonDecoder) : decoder.drain = (do
    let (values, decoder) ← decoder.drained (linesFrom '\n' [] decoder.buffer)
    if decoder.maxLineBytes < decoder.bufferBytes then .error (exceeds decoder.maxLineBytes) else return (values, decoder)) := by
  rw [drain, drainLines_eq _ decoder (Nat.le_refl _)]

/-- The decoder, and the line of bytes that is open. -/
structure Follows (maxLineBytes : Nat) (decoder : NdjsonDecoder) (reading : Meter.Reading UInt8) : Prop where
  limit : decoder.maxLineBytes = maxLineBytes
  state : decoder.decoder = ((Decoder.start reading.begun).decode reading.open_).2
  buffer : decoder.buffer = ((Decoder.start reading.begun).decode reading.open_).1
  count : decoder.bufferBytes = reading.count
  unmarked : newline ∉ reading.open_

variable {limit : Nat} {decoder : NdjsonDecoder} {reading : Meter.Reading UInt8}

theorem follows_new (maxLineBytes : Option Nat) :
    Follows (maxLineBytes.getD DEFAULT_MAX_LINE_BYTES) (new maxLineBytes) .fresh := ⟨rfl, rfl, rfl, rfl, List.not_mem_nil⟩

/-- The open line is counted as the reader of lines counts it. -/
theorem count_eq (begun : Bool) (lines : List (List UInt8) × List UInt8) (count : Nat) :
    (if texts lineText begun lines.1 = [] then count
      else (encode ((Decoder.start (begun || !lines.1.isEmpty)).decode lines.2).1).length) =
      if lines.1 = [] then count else (encode (feed none lines.2).1).length := by
  obtain ⟨_ | ⟨line, later⟩, last⟩ := lines
  · rfl
  · rw [decode_text, if_neg (show ¬texts lineText begun (line :: later) = [] from List.cons_ne_nil _ _),
      if_neg (List.cons_ne_nil _ _)]
    simp

/-- A chunk is read as the reader of lines reads it. -/
theorem push_follows (follows : Follows limit decoder reading) (chunk : Bytes) :
    (∃ failure, (meter limit).push reading chunk = .error failure ∧ decoder.push chunk = .error failure) ∨
      ∃ values next after, (meter limit).push reading chunk = .ok (values, next) ∧ decoder.push chunk = .ok (values, after) ∧
        Follows limit after next := by
  obtain ⟨rfl, state, buffer, count, unmarked⟩ := follows
  have decoded := Decoder.decode_append (Decoder.start reading.begun) reading.open_ chunk
  rw [← state, ← buffer] at decoded
  obtain ⟨read, last⟩ := decode_lines reading.begun (reading.open_ ++ chunk)
  rw [decoded, linesFrom_nil unmarked] at read last
  dsimp only at read last
  have clean : newline ∉ (linesFrom newline reading.open_ chunk).2 := open_unmarked unmarked chunk
  have completes : (meter decoder.maxLineBytes).completes reading chunk =
      texts lineText reading.begun (linesFrom newline reading.open_ chunk).1 := rfl
  have after : (meter decoder.maxLineBytes).after reading chunk =
      ⟨reading.begun || !(linesFrom newline reading.open_ chunk).1.isEmpty, (linesFrom newline reading.open_ chunk).2,
        if (linesFrom newline reading.open_ chunk).1 = [] then reading.count + chunk.length
        else (encode (feed none (linesFrom newline reading.open_ chunk).2).1).length⟩ := rfl
  generalize linesFrom newline reading.open_ chunk = lines at read last clean completes after
  rw [push, drain_eq]
  dsimp only
  rw [read, last, drained, Meter.push, completes, after]
  dsimp only
  rw [count_eq, count]
  cases surveyed : survey (readLine decoder.maxLineBytes) (texts lineText reading.begun lines.1) with
  | mk values refusal =>
    have same : survey (meter decoder.maxLineBytes).read (texts lineText reading.begun lines.1) = (values, refusal) := surveyed
    rw [same]
    cases refusal with
    | some failure => exact .inl ⟨failure, rfl, rfl⟩
    | none =>
      by_cases heavy : decoder.maxLineBytes <
          if lines.1 = [] then reading.count + chunk.length else (encode (feed none lines.2).1).length
      · exact .inl ⟨_, if_pos heavy, if_pos heavy⟩
      · exact .inr ⟨values, _, _, if_neg heavy, if_neg heavy, rfl, rfl, rfl, rfl, clean⟩

/-- A stream is read as the reader of lines reads it. -/
theorem decodeNdjsonStream_follows (follows : Follows limit decoder reading) (chunks : List Bytes) :
    ((decodeNdjsonStream decoder chunks).1, (decodeNdjsonStream decoder chunks).2.isSome) = (meter limit).run reading chunks := by
  induction chunks generalizing decoder reading with
  | nil =>
    have flushed : decoder.flush = parseLine (lineText reading.begun reading.open_) := by
      rw [flush, follows.state, follows.buffer, decode_finish]
      split
      · rename_i empty
        rw [empty]
        rfl
      · rfl
    rw [decodeNdjsonStream, flushed, Meter.run, Meter.ending]
    cases closed : parseLine (lineText reading.begun reading.open_) with
    | error failure => rw [show (meter limit).close reading.begun reading.open_ = .error failure from closed]; rfl
    | ok values => rw [show (meter limit).close reading.begun reading.open_ = .ok values from closed]; rfl
  | cons chunk chunks ih =>
    rcases push_follows follows chunk with ⟨failure, metered, pushed⟩ | ⟨values, next, after, metered, pushed, later⟩
    · rw [decodeNdjsonStream, pushed, Meter.run, metered]
      rfl
    · rw [decodeNdjsonStream, pushed, Meter.run, metered]
      dsimp only
      rw [← ih later]

end NdjsonDecoder

/-! ## The claim -/

/-- The values that are yielded, and whether something is thrown behind them. -/
def streamOutcome (maxLineBytes : Option Nat) (chunks : List Bytes) : List Json × Bool :=
  ((decodeNdjsonStream (.new maxLineBytes) chunks).1, (decodeNdjsonStream (.new maxLineBytes) chunks).2.isSome)

/-- Any two ways of cutting a stream have one streamOutcome. -/
def ChunkingIrrelevant (maxLineBytes : Option Nat) (stream : Bytes) : Prop :=
  ∀ first second : List Bytes, first.flatten = stream → second.flatten = stream →
    streamOutcome maxLineBytes first = streamOutcome maxLineBytes second

/-- **Chunks of a stream of values.** Where they end makes no difference if no line has ended, if every line reads within the
limit by either count, or if nothing but blank lines stands in front of the first fault. -/
theorem ndjson_chunking_iff (maxLineBytes : Option Nat) (stream : Bytes) :
    let meter := NdjsonDecoder.meter (maxLineBytes.getD NdjsonDecoder.DEFAULT_MAX_LINE_BYTES)
    let lines := linesFrom newline [] stream
    ChunkingIrrelevant maxLineBytes stream ↔ newline ∉ stream ∨ meter.Tame lines.1 lines.2 ∨ meter.Barren lines.1 lines.2 := by
  have runs (chunks : List Bytes) := NdjsonDecoder.decodeNdjsonStream_follows (NdjsonDecoder.follows_new maxLineBytes) chunks
  unfold ChunkingIrrelevant streamOutcome
  simp only [runs]
  exact Meter.run_independent_iff (NdjsonDecoder.meter_fair _) stream

/-- A value and a line that is none: in one chunk the value is lost. -/
theorem ndjson_chunk_drops_value : ¬ChunkingIrrelevant none (encode "true\nx\n".toList) := by
  intro same
  have whole := same [encode "true\nx\n".toList] [encode "true\n".toList, encode "x\n".toList] (by decide) (by decide)
  have lost : (streamOutcome none [encode "true\nx\n".toList]).1.length = 0 := by decide +kernel
  have given : (streamOutcome none [encode "true\n".toList, encode "x\n".toList]).1.length = 1 := by decide +kernel
  rw [whole, given] at lost
  cases lost

end AiryFS
