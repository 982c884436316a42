import AiryFS.Foundation.LengthPrefix
import AiryFS.Foundation.Utf8Lines
import AiryFS.Storage.Values

/-! The terminal of the container: frames on a TCP stream, and strings to and from the pseudoterminal.

The pseudoterminal takes and gives strings. A frame of input is made one string, so its bytes must be text by themselves; a
string of output is made one frame, so it must not be long.
-/

set_option autoImplicit false

namespace AiryFS

open Foundation

namespace Pty

def PTY_STDIN : UInt8 := 0x00

def PTY_RESIZE : UInt8 := 0x01

def PTY_SIGNAL : UInt8 := 0x02

def PTY_STDOUT : UInt8 := 0x10

def PTY_READY : UInt8 := 0x12

def MAX_FRAME_BYTES : Nat := 1024 * 1024

def encodePtyFrame (payload : Bytes) : Except Failure Bytes :=
  if MAX_FRAME_BYTES < payload.length then .error (.error "PTY frame too large") else .ok (LengthPrefix.frame payload)

/-- What is asked of the pseudoterminal. -/
inductive PtyCall where
  | write (data : Text)
  | resize (cols rows : Nat)
  | kill (signal : Text)
  deriving DecidableEq

def getUint16 (first second : UInt8) : Nat := first.toNat * 256 + second.toNat

def handleFrame (payload : Bytes) : List PtyCall :=
  match payload with
  | [] => []
  | type :: data =>
    if type = PTY_STDIN then [.write (Utf8.decodeFrom none data)]
    else if type = PTY_RESIZE then
      match data with
      | [colsHigh, colsLow, rowsHigh, rowsLow] =>
        let cols := getUint16 colsHigh colsLow
        let rows := getUint16 rowsHigh rowsLow
        if 0 < cols ∧ 0 < rows then [.resize cols rows] else []
      | _ => []
    else if type = PTY_SIGNAL ∧ data ≠ [] then
      let signal := Utf8.decode data
      if signal ≠ [] then [.kill signal] else []
    else []

/-- A connection. What is thrown in a listener of the pseudoterminal ends the process. -/
structure PtyServer where
  buffered : Bytes
  calls : List PtyCall
  written : Bytes
  destroyed : Option Failure
  thrown : Option Failure
  deriving DecidableEq

namespace PtyServer

def connect : PtyServer := ⟨[], [], LengthPrefix.frame [PTY_READY], none, none⟩

/-- The loop over the frames that are complete. -/
def readFrames : Nat → PtyServer → PtyServer
  | 0, server => server
  | rounds + 1, server =>
    if server.buffered.length < 4 then server
    else
      let length := LengthPrefix.readUInt32BE server.buffered
      if MAX_FRAME_BYTES < length then { server with destroyed := some (.error "PTY frame too large") }
      else if server.buffered.length < 4 + length then server
      else readFrames rounds { server with
        buffered := server.buffered.drop (4 + length)
        calls := server.calls ++ handleFrame ((server.buffered.drop 4).take length) }

def onChunk (server : PtyServer) (chunk : Bytes) : PtyServer :=
  let server := { server with buffered := server.buffered ++ chunk }
  readFrames server.buffered.length server

def onData (server : PtyServer) (data : Text) : PtyServer :=
  match encodePtyFrame (PTY_STDOUT :: Utf8.encode data) with
  | .error failure => { server with thrown := some failure }
  | .ok frame => if server.destroyed.isSome then server else { server with written := server.written ++ frame }

end PtyServer

/-- What happens to a connection: bytes from the client, or a string from the terminal. -/
inductive PtyEvent where
  | chunk (chunk : Bytes)
  | data (data : Text)
  deriving DecidableEq

namespace PtyServer

def step (server : PtyServer) (event : PtyEvent) : PtyServer :=
  if server.thrown.isSome then server
  else
    match event with
    | .chunk chunk => if server.destroyed.isSome then server else server.onChunk chunk
    | .data data => server.onData data

def run (server : PtyServer) (events : List PtyEvent) : PtyServer := events.foldl step server

end PtyServer

/-! ## The client's side -/

/-- The name of a signal is ASCII. -/
structure SignalName where
  name : Text
  ascii : ∀ c ∈ name, c.toNat < 0x80
  some_ : name ≠ []
  short : (Utf8.encode name).length < MAX_FRAME_BYTES

/-- A frame that the client sends. -/
inductive ClientFrame where
  | stdin (data : Bytes) (short : data.length < MAX_FRAME_BYTES)
  | resize (cols rows : UInt16) (proper : 0 < cols ∧ 0 < rows)
  | signal (name : SignalName)

namespace ClientFrame

def setUint16 (value : UInt16) : Bytes := [UInt8.ofNat (value.toNat / 256), UInt8.ofNat value.toNat]

def payload : ClientFrame → Bytes
  | stdin data _ => PTY_STDIN :: data
  | resize cols rows _ => PTY_RESIZE :: (setUint16 cols ++ setUint16 rows)
  | signal name => PTY_SIGNAL :: Utf8.encode name.name

/-- The relay puts a frame behind its length. -/
def wire (frame : ClientFrame) : Bytes := LengthPrefix.frame frame.payload

end ClientFrame

/-- What reaches the terminal. -/
inductive Effect where
  | byte (byte : UInt8)
  | resize (cols rows : Nat)
  | signal (name : Text)
  deriving DecidableEq

/-- A string is written to the terminal as UTF-8. -/
def PtyCall.effects : PtyCall → List Effect
  | write data => (Utf8.encode data).map .byte
  | resize cols rows => [.resize cols rows]
  | kill signal => [.signal signal]

def ClientFrame.effects : ClientFrame → List Effect
  | stdin data _ => data.map .byte
  | resize cols rows _ => [.resize cols.toNat rows.toNat]
  | signal name => [.signal name.name]

/-- What the client makes of the bytes that the relay reads. -/
def received (written : Bytes) : Bytes :=
  (LengthPrefix.readFrames MAX_FRAME_BYTES written.length written).flatMap fun payload =>
    if payload.head? = some PTY_STDOUT then payload.tail else []

def chunks (events : List PtyEvent) : List Bytes := events.filterMap fun event =>
  match event with
  | .chunk chunk => some chunk
  | .data _ => none

def outputs (events : List PtyEvent) : List Text := events.filterMap fun event =>
  match event with
  | .chunk _ => none
  | .data data => some data

/-- The terminal gets what was typed, resized and signalled, in this order; the client gets what the terminal said. -/
structure Transparent (frames : List ClientFrame) (said : List Text) (server : PtyServer) : Prop where
  typed : server.calls.flatMap PtyCall.effects = frames.flatMap ClientFrame.effects
  shown : received server.written = said.flatMap Utf8.encode
  thrown : server.thrown = none

/-! ## Frames -/

namespace ClientFrame

theorem payload_within (frame : ClientFrame) : frame.payload.length ≤ MAX_FRAME_BYTES := by
  cases frame with
  | stdin data short => exact short
  | resize cols rows proper => exact show 5 ≤ MAX_FRAME_BYTES by decide
  | signal name => exact name.short

theorem getUint16_set (value : UInt16) :
    getUint16 (UInt8.ofNat (value.toNat / 256)) (UInt8.ofNat value.toNat) = value.toNat := by
  have small := value.toNat_lt
  rw [getUint16, UInt8.toNat_ofNat', UInt8.toNat_ofNat']
  omega

theorem handleFrame_stdin (data : Bytes) (short : data.length < MAX_FRAME_BYTES) :
    handleFrame (stdin data short).payload = [.write (Utf8.decodeFrom none data)] := rfl

/-- Frames other than input have the effect they name. -/
theorem handleFrame_effects (frame : ClientFrame) : (handleFrame frame.payload).flatMap PtyCall.effects =
    match frame with
    | stdin data _ => (Utf8.encode (Utf8.decodeFrom none data)).map Effect.byte
    | other => other.effects := by
  cases frame with
  | stdin data short =>
    rw [handleFrame_stdin]
    exact List.append_nil _
  | resize cols rows proper =>
    have cols_ : 0 < cols.toNat := UInt16.lt_iff_toNat_lt.mp proper.1
    have rows_ : 0 < rows.toNat := UInt16.lt_iff_toNat_lt.mp proper.2
    have calls : handleFrame (resize cols rows proper).payload = [.resize cols.toNat rows.toNat] := by
      unfold payload setUint16 handleFrame
      dsimp only [List.cons_append, List.nil_append]
      rw [if_neg (by decide), if_pos rfl, getUint16_set, getUint16_set, if_pos ⟨cols_, rows_⟩]
    rw [calls]
    rfl
  | signal name =>
    have plain : name.name.head? ≠ some (Char.ofNat 0xFEFF) := by
      intro head
      have ascii := name.ascii _ (List.mem_of_mem_head? head)
      exact absurd ascii (by decide)
    have encoded : Utf8.encode name.name ≠ [] := Utf8.encode_ne_nil name.some_
    have calls : handleFrame (signal name).payload = [.kill name.name] := by
      unfold payload handleFrame
      dsimp only
      rw [if_neg (by decide), if_neg (by decide), if_pos ⟨rfl, encoded⟩, Utf8.decode_encode plain, if_pos name.some_]
    rw [calls]
    rfl

end ClientFrame

namespace PtyServer

variable {server : PtyServer} {payloads : List Bytes} {events : List PtyEvent}

theorem readFrames_done {done later : List Bytes} {part back : Bytes} (within : ∀ payload ∈ done ++ later, payload.length ≤ MAX_FRAME_BYTES)
    (same : server.buffered = done.flatMap LengthPrefix.frame ++ part) (next : part ++ back = later.flatMap LengthPrefix.frame)
    (shorter : ∀ payload ∈ later.head?, part.length < 4 + payload.length) {rounds : Nat} (enough : done.length ≤ rounds) :
    readFrames rounds server = { server with buffered := part, calls := server.calls ++ done.flatMap handleFrame } := by
  have small : MAX_FRAME_BYTES < 2 ^ 32 := by decide
  induction done generalizing server rounds with
  | nil =>
    obtain ⟨buffered, calls, written, destroyed, thrown⟩ := server
    rw [List.flatMap_nil, List.nil_append] at same
    obtain rfl : buffered = part := same
    rw [List.flatMap_nil, List.append_nil]
    cases rounds with
    | zero => rfl
    | succ rounds =>
      rw [readFrames]
      dsimp only
      by_cases few : buffered.length < 4
      · rw [if_pos few]
      · rw [if_neg few]
        cases later with
        | nil =>
          obtain ⟨rfl, -⟩ := List.append_eq_nil_iff.mp next
          exact absurd (Nat.zero_lt_succ 3) few
        | cons payload later =>
          have bound := within payload (by simp)
          have short := shorter payload rfl
          have size := LengthPrefix.readUInt32BE_part (Nat.lt_of_le_of_lt bound small)
            (show buffered <+: LengthPrefix.frame payload ++ later.flatMap LengthPrefix.frame from ⟨back, next⟩) (Nat.le_of_not_lt few)
          rw [size, if_neg (Nat.not_lt_of_le bound), if_pos short]
  | cons payload done ih =>
    cases rounds with
    | zero => cases enough
    | succ rounds =>
      have bound := within payload (by simp)
      rw [List.flatMap_cons, List.append_assoc] at same
      have size := LengthPrefix.readUInt32BE_frame (Nat.lt_of_le_of_lt bound small) (done.flatMap LengthPrefix.frame ++ part)
      have length := LengthPrefix.length_frame payload
      rw [readFrames]
      dsimp only
      rw [same, size, if_neg (by rw [List.length_append]; omega), if_neg (Nat.not_lt_of_le bound),
        if_neg (by rw [List.length_append]; omega), LengthPrefix.drop_frame, LengthPrefix.payload_frame,
        ih (fun payload member => within payload (List.mem_cons_of_mem _ member)) rfl (Nat.le_of_succ_le_succ enough),
        List.flatMap_cons, List.append_assoc]

theorem length_le_frames (payloads : List Bytes) : payloads.length ≤ (payloads.flatMap LengthPrefix.frame).length := by
  induction payloads with
  | nil => exact Nat.le_refl 0
  | cons payload payloads ih =>
    rw [List.flatMap_cons, List.length_append, LengthPrefix.length_frame, List.length_cons]
    omega

/-- The frame of an output. -/
def shownFrame (said : Text) : Bytes := LengthPrefix.frame (PTY_STDOUT :: Utf8.encode said)

/-- **A connection.** Its frames are handled in order, and its outputs framed in order, wherever the stream is cut. -/
theorem run_eq (alive : server.thrown = none ∧ server.destroyed = none)
    (within : ∀ payload ∈ payloads, payload.length ≤ MAX_FRAME_BYTES)
    (stream : server.buffered ++ (chunks events).flatten = payloads.flatMap LengthPrefix.frame)
    (shorter : ∀ payload ∈ payloads.head?, server.buffered.length < 4 + payload.length)
    (small : ∀ said ∈ outputs events, (Utf8.encode said).length < MAX_FRAME_BYTES) :
    server.run events = ⟨[], server.calls ++ payloads.flatMap handleFrame, server.written ++ (outputs events).flatMap shownFrame,
      none, none⟩ := by
  induction events generalizing server payloads with
  | nil =>
    obtain ⟨buffered, calls, written, destroyed, thrown⟩ := server
    obtain ⟨rfl, rfl⟩ := alive
    have stream : buffered = payloads.flatMap LengthPrefix.frame := by simpa [chunks] using stream
    subst stream
    cases payloads with
    | nil => simp [run, outputs]
    | cons payload payloads =>
      have short := shorter payload rfl
      rw [List.flatMap_cons, List.length_append, LengthPrefix.length_frame] at short
      omega
  | cons event events ih =>
    obtain ⟨buffered, calls, written, destroyed, thrown⟩ := server
    obtain ⟨rfl, rfl⟩ := alive
    cases event with
    | chunk chunk =>
      have stream : (buffered ++ chunk) ++ (chunks events).flatten = payloads.flatMap LengthPrefix.frame := by
        simpa [chunks] using stream
      obtain ⟨done, later, part, rfl, front, next, short⟩ := LengthPrefix.cut_frames stream
      have enough : done.length ≤ (buffered ++ chunk).length := by
        have counted := length_le_frames done
        rw [front, List.length_append]
        omega
      have stepped : step ⟨buffered, calls, written, none, none⟩ (.chunk chunk) =
          ⟨part, calls ++ done.flatMap handleFrame, written, none, none⟩ :=
        @readFrames_done ⟨buffered ++ chunk, calls, written, none, none⟩ done later part _ within front next short _ enough
      rw [run, List.foldl_cons, stepped]
      have rest := @ih ⟨part, calls ++ done.flatMap handleFrame, written, none, none⟩ later ⟨rfl, rfl⟩
        (fun payload member => within payload (List.mem_append_right _ member)) next short small
      rw [← run, rest, List.flatMap_append, List.append_assoc]
      rfl
    | data data =>
      have fits : ¬MAX_FRAME_BYTES < (PTY_STDOUT :: Utf8.encode data).length := Nat.not_lt_of_le (small data (by simp [outputs]))
      have stepped : step ⟨buffered, calls, written, none, none⟩ (.data data) =
          ⟨buffered, calls, written ++ shownFrame data, none, none⟩ := by
        show onData _ data = _
        rw [onData, encodePtyFrame, if_neg fits]
        rfl
      rw [run, List.foldl_cons, stepped]
      have rest := @ih ⟨buffered, calls, written ++ shownFrame data, none, none⟩ payloads ⟨rfl, rfl⟩ within stream shorter
        (fun said member => small said (List.mem_cons_of_mem data member))
      rw [← run, rest, List.append_assoc]
      rfl

theorem step_of_thrown {failure : Failure} (dead : server.thrown = some failure) (event : PtyEvent) : server.step event = server :=
  if_pos (by rw [dead]; rfl)

theorem run_of_thrown {failure : Failure} (dead : server.thrown = some failure) (events : List PtyEvent) : server.run events = server := by
  induction events with
  | nil => rfl
  | cons event events ih =>
    rw [run, List.foldl_cons, step_of_thrown dead]
    exact ih

/-- An output that is long ends the process. -/
theorem run_throws {said : Text} (long : said ∈ outputs events) (large : MAX_FRAME_BYTES ≤ (Utf8.encode said).length) :
    (server.run events).thrown ≠ none := by
  induction events generalizing server with
  | nil => cases long
  | cons event events ih =>
    rw [run, List.foldl_cons]
    cases event with
    | chunk chunk => exact ih long
    | data data =>
      rcases List.mem_cons.mp (show said ∈ data :: outputs events from long) with rfl | later
      · cases state : server.thrown with
        | some failure =>
          rw [step_of_thrown state, ← run, run_of_thrown state, state]
          exact Option.some_ne_none _
        | none =>
          have fails : server.step (.data said) = { server with thrown := some (.error "PTY frame too large") } := by
            have full : MAX_FRAME_BYTES < (PTY_STDOUT :: Utf8.encode said).length := Nat.lt_succ_of_le large
            rw [step, if_neg (by rw [state]; decide)]
            show onData _ said = _
            rw [onData, encodePtyFrame, if_pos full]
          rw [fails, ← run, run_of_thrown rfl]
          exact Option.some_ne_none _
      · exact ih later

end PtyServer

theorem received_frames {said : List Text} (small : ∀ text ∈ said, (Utf8.encode text).length < MAX_FRAME_BYTES) :
    received (LengthPrefix.frame [PTY_READY] ++ said.flatMap PtyServer.shownFrame) = said.flatMap Utf8.encode := by
  have payloads : LengthPrefix.frame [PTY_READY] ++ said.flatMap PtyServer.shownFrame =
      ([PTY_READY] :: said.map fun text => PTY_STDOUT :: Utf8.encode text).flatMap LengthPrefix.frame := by
    rw [List.flatMap_cons, List.flatMap_map]
    rfl
  have within : ∀ payload ∈ [PTY_READY] :: said.map (fun text => PTY_STDOUT :: Utf8.encode text), payload.length ≤ MAX_FRAME_BYTES := by
    refine List.forall_mem_cons.mpr ⟨by decide, fun payload member => ?_⟩
    obtain ⟨text, inside, rfl⟩ := List.mem_map.mp member
    exact small text inside
  rw [payloads, received, LengthPrefix.readFrames_frames (by decide) within (PtyServer.length_le_frames _), List.flatMap_cons,
    List.flatMap_map]
  rfl

/-- What the calls for the frames do to the terminal, frame by frame. -/
theorem effects_frames (frames : List ClientFrame) :
    ((frames.map ClientFrame.payload).flatMap handleFrame).flatMap PtyCall.effects =
      frames.flatMap fun frame => (handleFrame frame.payload).flatMap PtyCall.effects := by
  rw [List.flatMap_map, List.flatMap_assoc]

/-- A frame of input reaches the terminal as it is if it is text. -/
theorem effects_iff (frames : List ClientFrame) :
    (frames.flatMap fun frame => (handleFrame frame.payload).flatMap PtyCall.effects) = frames.flatMap ClientFrame.effects ↔
      ∀ data short, .stdin data short ∈ frames → Utf8.Valid data := by
  constructor
  · intro same data short member
    have shorter : ∀ frame ∈ frames, frame.effects.length ≤ ((handleFrame frame.payload).flatMap PtyCall.effects).length := by
      intro frame _
      rw [frame.handleFrame_effects]
      cases frame with
      | stdin data _ =>
        have longer := Utf8.length_le_decode data
        simpa [ClientFrame.effects] using longer
      | resize => exact Nat.le_refl _
      | signal => exact Nat.le_refl _
    have sized := Utf8.flatMap_sized shorter (congrArg List.length same.symm)
    have each := Utf8.flatMap_inj sized same.symm _ member
    rw [ClientFrame.handleFrame_effects] at each
    have injective : Function.Injective Effect.byte := fun _ _ same => Effect.byte.inj same
    exact (injective.list_map each).symm
  · intro valid
    refine List.flatMap_congr fun frame member => ?_
    rw [frame.handleFrame_effects]
    cases frame with
    | stdin data short =>
      have text : Utf8.encode (Utf8.decodeFrom none data) = data := valid data short member
      dsimp only
      rw [text]
      rfl
    | resize => rfl
    | signal => rfl

/-! ## The claim -/

/-- **The channel.** It is transparent if and only if every frame of input is UTF-8 by itself and every output leaves room in
a frame for its kind. -/
theorem pty_transparent_iff {frames : List ClientFrame} {events : List PtyEvent}
    (stream : (chunks events).flatten = frames.flatMap ClientFrame.wire) :
    Transparent frames (outputs events) (PtyServer.connect.run events) ↔
      (∀ data short, .stdin data short ∈ frames → Utf8.Valid data) ∧
        ∀ said ∈ outputs events, (Utf8.encode said).length < MAX_FRAME_BYTES := by
  by_cases small : ∀ said ∈ outputs events, (Utf8.encode said).length < MAX_FRAME_BYTES
  · have within : ∀ payload ∈ frames.map ClientFrame.payload, payload.length ≤ MAX_FRAME_BYTES := by
      intro payload member
      obtain ⟨frame, -, rfl⟩ := List.mem_map.mp member
      exact frame.payload_within
    have framed : PtyServer.connect.buffered ++ (chunks events).flatten = (frames.map ClientFrame.payload).flatMap LengthPrefix.frame := by
      rw [List.flatMap_map]
      exact stream
    have ended := PtyServer.run_eq ⟨rfl, rfl⟩ within framed (fun payload _ => Nat.lt_of_lt_of_le (Nat.zero_lt_succ 3) (Nat.le_add_right 4 _)) small
    have calls : (PtyServer.connect.run events).calls = (frames.map ClientFrame.payload).flatMap handleFrame := by
      rw [ended]
      exact List.nil_append _
    have shown : received (PtyServer.connect.run events).written = (outputs events).flatMap Utf8.encode := by
      rw [ended]
      exact received_frames small
    constructor
    · rintro ⟨typed, -, -⟩
      rw [calls, effects_frames, effects_iff] at typed
      exact ⟨typed, small⟩
    · rintro ⟨valid, -⟩
      refine ⟨?_, shown, by rw [ended]⟩
      rw [calls, effects_frames, effects_iff]
      exact valid
  · refine ⟨fun transparent => ?_, fun both => absurd both.2 small⟩
    simp only [not_forall, Nat.not_lt, exists_prop] at small
    obtain ⟨said, member, large⟩ := small
    exact absurd transparent.thrown (PtyServer.run_throws member large)

/-- A key of two bytes, a new size, and an answer, with a piece that ends inside the first frame. -/
theorem pty_transparent_sample :
    Transparent [.stdin [0xC3, 0xA9] (by decide), .resize 100 40 (by decide)] ["ok".toList]
      (PtyServer.connect.run [.chunk [0, 0, 0, 3, 0, 0xC3], .data "ok".toList, .chunk [0xA9, 0, 0, 0, 5, 1, 0, 100, 0, 40]]) ↔
      (∀ data short, .stdin data short ∈ [ClientFrame.stdin [0xC3, 0xA9] (by decide), .resize 100 40 (by decide)] → Utf8.Valid data) ∧
        ∀ said ∈ ["ok".toList], (Utf8.encode said).length < MAX_FRAME_BYTES :=
  @pty_transparent_iff [.stdin [0xC3, 0xA9] (by decide), .resize 100 40 (by decide)]
    [.chunk [0, 0, 0, 3, 0, 0xC3], .data "ok".toList, .chunk [0xA9, 0, 0, 0, 5, 1, 0, 100, 0, 40]] (by decide)

/-- The same key in two frames: the terminal gets two replacement characters. -/
theorem pty_splits_character :
    (chunks [.chunk [0, 0, 0, 2, 0, 0xC3, 0, 0, 0, 2, 0, 0xA9]]).flatten =
        [ClientFrame.stdin [0xC3] (by decide), .stdin [0xA9] (by decide)].flatMap ClientFrame.wire ∧
      ¬Transparent [.stdin [0xC3] (by decide), .stdin [0xA9] (by decide)] []
        (PtyServer.connect.run [.chunk [0, 0, 0, 2, 0, 0xC3, 0, 0, 0, 2, 0, 0xA9]]) := by
  refine ⟨by decide, fun transparent => ?_⟩
  have typed := transparent.typed
  revert typed
  decide

end Pty

end AiryFS
