import AiryFS.Foundation.JsonText
import AiryFS.Transfer.Frames

/-! Length-prefixed JSON messages on a byte stream, and the buffer that takes them apart again. -/

set_option autoImplicit false

namespace AiryFS

open Foundation

namespace Hrana

open Archive (uint32 getUint32)

def HEADER_SIZE : Nat := 4

def MAX_TRANSPORT_FRAME_BYTES : Nat := 8 * 1024 * 1024

def frameTooLargeError (frameLength : Nat) : Failure :=
  .coded "FrameTooLargeError" s!"Transport frame exceeds {MAX_TRANSPORT_FRAME_BYTES} bytes: {frameLength}"

section
variable (numeral : Rat → Text)

def serializeFrame (msg : Json) : Except Failure Bytes := do
  let json := Utf8.encode (Json.print numeral msg)
  refuse (json.length > MAX_TRANSPORT_FRAME_BYTES) (frameTooLargeError json.length)
  return uint32 json.length ++ json

end

/-- The message at the offset with the bytes it takes, or none while it is incomplete. -/
def deserializeFrame (buf : Bytes) (offset : Nat) : Except Failure (Option (Json × Nat)) :=
  let remaining := buf.length - offset
  if remaining < HEADER_SIZE then return none
  else do
    let jsonLength := getUint32 ((buf.drop offset).take HEADER_SIZE)
    refuse (jsonLength > MAX_TRANSPORT_FRAME_BYTES) (frameTooLargeError jsonLength)
    if remaining < HEADER_SIZE + jsonLength then return none
    else
      let jsonBytes := (buf.drop (offset + HEADER_SIZE)).take jsonLength
      let msg ← required (Json.parse (Utf8.decode jsonBytes)) (.coded "SyntaxError" "")
      return some (msg, HEADER_SIZE + jsonLength)

structure FrameBuffer where
  chunks : List Bytes
  totalLength : Nat
  counted : totalLength = chunks.flatten.length

/-- The loop of `drain`. Every message takes at least its header, so the bytes bound the rounds. -/
@[grind =]
def drainFrom (buf : Bytes) : Nat → Nat → Except Failure (List Json × Nat)
  | 0, offset => return ([], offset)
  | fuel + 1, offset => do
    match ← deserializeFrame buf offset with
    | none => return ([], offset)
    | some (msg, bytesConsumed) =>
      let (messages, last) ← drainFrom buf fuel (offset + bytesConsumed)
      return (msg :: messages, last)

namespace FrameBuffer

def empty : FrameBuffer := ⟨[], 0, rfl⟩

/-- A buffer of one chunk. -/
def holding (bytes : Bytes) : FrameBuffer := ⟨[bytes], bytes.length, by simp⟩

def push (buffer : FrameBuffer) (chunk : Bytes) : Except Failure FrameBuffer := do
  let bufferedLength := buffer.totalLength + chunk.length
  refuse (bufferedLength > MAX_TRANSPORT_FRAME_BYTES + HEADER_SIZE) (frameTooLargeError (bufferedLength - HEADER_SIZE))
  return ⟨buffer.chunks ++ [chunk], buffer.totalLength + chunk.length, by simp [buffer.counted]⟩

def consolidate (buffer : FrameBuffer) : Bytes := buffer.chunks.flatten

def drain (buffer : FrameBuffer) : Except Failure (List Json × FrameBuffer) :=
  if buffer.totalLength < HEADER_SIZE then return ([], buffer)
  else do
    let buf := buffer.consolidate
    let (messages, offset) ← drainFrom buf buf.length 0
    if offset < buf.length then return (messages, holding (buf.drop offset))
    else return (messages, empty)

end FrameBuffer

/-- The reading loop of `serve`: every chunk is pushed and the buffer drained, up to the first failure. -/
@[grind =]
def receive (buffer : FrameBuffer) : List Bytes → List Json × Except Failure FrameBuffer
  | [] => ([], .ok buffer)
  | chunk :: chunks =>
    match buffer.push chunk >>= FrameBuffer.drain with
    | .error failure => ([], .error failure)
    | .ok (messages, buffer) => (messages ++ (receive buffer chunks).1, (receive buffer chunks).2)

end Hrana

end AiryFS
