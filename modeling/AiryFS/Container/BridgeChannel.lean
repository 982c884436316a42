import AiryFS.Foundation.Runs
import AiryFS.Hrana.FrameBuffer

/-! One connection of the container bridge: HTTP requests admitted to it, the queue of those to
write, and the queue of those that wait for a response.

Responses carry no number of a request, so the queue of waiting requests is what matches them.
Every event handler is one step. What a socket reports about backpressure, and when it does,
is up to the environment.
-/

set_option autoImplicit false

namespace AiryFS

open Foundation

open Hrana (HEADER_SIZE MAX_TRANSPORT_FRAME_BYTES)

open Archive (uint32 getUint32)

namespace BridgeChannel

def MAX_PENDING_REQUESTS : Nat := 16

/-- A call of `resolve` or of `reject`. -/
inductive Settlement where
  | resolved (frame : Bytes)
  | rejected (message : String)
  deriving DecidableEq, Repr

structure PendingRequest where
  id : Nat
  payload : Bytes
  canceled : Bool
  settled : Bool
  /-- Whether the timer runs. -/
  timeout : Bool
  /-- Whether `detachAbort` has not been called. -/
  listening : Bool
  settlements : List Settlement
  deriving DecidableEq

inductive Phase where
  /-- `readBody` runs. -/
  | reading
  /-- The handler awaits the response frame. -/
  | waiting
  /-- The handler has returned. -/
  | over
  deriving DecidableEq, Repr

/-- A request of the HTTP server for which `reserveHttpRequest` succeeded. -/
structure HttpRequest where
  phase : Phase
  /-- `signal.aborted`. -/
  aborted : Bool
  released : Bool
  pending : Option PendingRequest
  deriving DecidableEq

end BridgeChannel

open BridgeChannel

/-- The queues hold requests by their place among the requests of the connection. -/
structure BridgeChannel where
  /-- `doSocket` is the socket of the connection. -/
  connected : Bool
  /-- `socket.destroyed`. -/
  destroyed : Bool
  /-- `socket.end()` was called. -/
  ended : Bool
  retired : Bool
  tcpBuffer : Bytes
  pendingQueue : List Nat
  writeQueue : List Nat
  writing : Bool
  nextRequestId : Nat
  admittedHttpRequests : Nat
  requests : List HttpRequest
  /-- Every request that was written to the socket, in order. -/
  written : List Nat
  /-- Every byte that the connection delivered. -/
  received : Bytes
  /-- Every response frame that was taken off the stream. -/
  frames : List Bytes
  deriving DecidableEq

namespace BridgeChannel

/-- A connection as it is accepted. -/
def accepted (nextRequestId : Nat) : BridgeChannel :=
  { connected := true, destroyed := false, ended := false, retired := false, tcpBuffer := [], pendingQueue := []
    writeQueue := [], writing := false, nextRequestId, admittedHttpRequests := 0, requests := [], written := []
    received := [], frames := [] }

/-! ## Requests -/

def newRequest (id : Nat) (payload : Bytes) : PendingRequest :=
  { id, payload, canceled := false, settled := false, timeout := false, listening := true, settlements := [] }

def settleReject (message : String) (request : PendingRequest) : PendingRequest :=
  let request := { request with timeout := false, listening := false }
  if request.settled then request
  else { request with settled := true, settlements := request.settlements ++ [.rejected message] }

def settleResolve (frame : Bytes) (request : PendingRequest) : PendingRequest :=
  if request.settled then request
  else
    { request with
      settled := true, timeout := false, listening := false
      settlements := request.settlements ++ [.resolved frame] }

/-- What `drainFrames` does with the request that a frame belongs to. -/
def receive (frame : Bytes) (request : PendingRequest) : PendingRequest :=
  let request := { request with timeout := false, listening := false }
  if request.canceled then request else settleResolve frame request

/-- `onAbort` of a request that is still to be written. -/
def cancelQueued (request : PendingRequest) : PendingRequest :=
  settleReject s!"Request {request.id} canceled" { request with canceled := true }

/-- `onAbort` of a request that was written: its place in the queue stays. -/
def cancelDispatched (request : PendingRequest) : PendingRequest :=
  let request := { request with canceled := true, listening := false }
  if request.settled then request
  else
    { request with
      settled := true, settlements := request.settlements ++ [.rejected s!"Request {request.id} canceled"] }

variable (channel : BridgeChannel)

/-- The `PendingRequest` of an HTTP request, from `sendAndReceive` on. -/
def pending? (r : Nat) : Option PendingRequest := channel.requests[r]?.bind HttpRequest.pending

def modify (r : Nat) (change : HttpRequest → HttpRequest) : BridgeChannel :=
  { channel with requests := channel.requests.modify r change }

def update (r : Nat) (change : PendingRequest → PendingRequest) : BridgeChannel :=
  channel.modify r fun request => { request with pending := request.pending.map change }

/-! ## The connection -/

def rejectPending (message : String) : BridgeChannel :=
  let rejected := (channel.pendingQueue ++ channel.writeQueue).foldl (fun channel r => channel.update r (settleReject message)) channel
  { rejected with pendingQueue := [], writeQueue := [], writing := false }

def closeRetiredChannelIfDrained : BridgeChannel :=
  if !channel.retired ∨ channel.admittedHttpRequests > 0 ∨ channel.pendingQueue ≠ [] ∨ channel.writeQueue ≠ [] ∨
      channel.writing then channel
  else if channel.connected && !channel.destroyed then { channel with ended := true }
  else channel

def failConnection (message : String) : BridgeChannel :=
  if !channel.connected then channel
  else { rejectPending { channel with connected := false, tcpBuffer := [] } message with destroyed := true }

/-- A round of `pumpWrites`: the request goes to the socket, and its timer starts. -/
def write (r : Nat) (rest : List Nat) : BridgeChannel :=
  { channel.update r fun request => { request with timeout := true } with
    writeQueue := rest, pendingQueue := channel.pendingQueue ++ [r], written := channel.written ++ [r] }

/-- A round of `drainFrames`: the request that has waited longest gets the frame. -/
def deliver (r : Nat) (rest : List Nat) (frame : Bytes) : BridgeChannel :=
  { channel.update r (receive frame) with
    tcpBuffer := channel.tcpBuffer.drop (HEADER_SIZE + frame.length), pendingQueue := rest
    frames := channel.frames ++ [frame] }

/-- The loop of `pumpWrites` over the queue. The socket takes `room` more writes before it
answers that its buffer is full, and the loop then waits for `drain`. -/
def writeAll (room : Nat) (channel : BridgeChannel) : List Nat → BridgeChannel
  | [] => closeRetiredChannelIfDrained { channel with writeQueue := [], writing := false }
  | r :: rest =>
    match room with
    | 0 => { channel.write r rest with writing := true }
    | room + 1 => writeAll room (channel.write r rest) rest

def pumpWrites (room : Nat) : BridgeChannel :=
  if channel.writing || channel.writeQueue.isEmpty then channel
  else if !channel.connected || channel.destroyed then channel.rejectPending "No DO TCP connection"
  else writeAll room channel channel.writeQueue

/-- The loop of `drainFrames` over the requests that wait. -/
def drainFrames (channel : BridgeChannel) : List Nat → BridgeChannel
  | [] =>
    if channel.tcpBuffer.length > 0 then channel.failConnection "Received a DO response without an active request"
    else channel
  | r :: rest =>
    if channel.tcpBuffer.length < HEADER_SIZE then channel
    else
      let jsonLen := getUint32 (channel.tcpBuffer.take HEADER_SIZE)
      if jsonLen > MAX_TRANSPORT_FRAME_BYTES then
        channel.failConnection s!"DO response frame exceeds {MAX_TRANSPORT_FRAME_BYTES} bytes"
      else if channel.tcpBuffer.length < HEADER_SIZE + jsonLen then channel
      else
        let frame := (channel.tcpBuffer.drop HEADER_SIZE).take jsonLen
        if (Json.parse (Utf8.decodeFrom none frame)).isNone then channel.failConnection "DO response is not valid JSON"
        else drainFrames (channel.deliver r rest frame).closeRetiredChannelIfDrained rest

def handleTcpData (data : Bytes) : BridgeChannel :=
  let received := { channel with received := channel.received ++ data }
  if channel.tcpBuffer.length + data.length > MAX_TRANSPORT_FRAME_BYTES + HEADER_SIZE then
    received.failConnection "Buffered DO response exceeds the frame limit"
  else
    let buffered := { received with tcpBuffer := channel.tcpBuffer ++ data }
    buffered.drainFrames buffered.pendingQueue

/-! ## The handler of an HTTP request -/

/-- Refused requests are answered with status 503 and leave no trace. -/
def reserveHttpRequest : BridgeChannel :=
  if !channel.connected || channel.destroyed then channel
  else if channel.admittedHttpRequests ≥ MAX_PENDING_REQUESTS then channel
  else
    { channel with
      admittedHttpRequests := channel.admittedHttpRequests + 1
      requests := channel.requests ++ [{ phase := .reading, aborted := false, released := false, pending := none }] }

/-- The handler leaves through its `catch` block. -/
def refuse (r : Nat) : BridgeChannel := channel.modify r fun request => { request with phase := .over }

def sendAndReceive (r : Nat) (aborted : Bool) (payload : Bytes) (room : Nat) : BridgeChannel :=
  if payload.length > MAX_TRANSPORT_FRAME_BYTES then channel.refuse r
  else if !channel.connected || channel.destroyed then channel.refuse r
  else
    let request := newRequest channel.nextRequestId payload
    let request := if aborted then cancelQueued request else request
    let channel :=
      { channel.modify r fun http => { http with phase := .waiting, pending := some request } with
        nextRequestId := channel.nextRequestId + 1 }
    if aborted then channel
    else pumpWrites { channel with writeQueue := channel.writeQueue ++ [r] } room

def onAbort (r : Nat) : BridgeChannel :=
  if r ∈ channel.writeQueue then
    closeRetiredChannelIfDrained { channel.update r cancelQueued with writeQueue := channel.writeQueue.erase r }
  else channel.update r cancelDispatched

/-- `controller.abort()`. -/
def abort (r : Nat) : BridgeChannel :=
  match channel.requests[r]? with
  | none => channel
  | some request =>
    if request.aborted then channel
    else
      let channel := channel.modify r fun request => { request with aborted := true }
      if request.pending.any PendingRequest.listening then channel.onAbort r else channel

/-- `release`, of the events `finish` and `close`. -/
def release (r : Nat) : BridgeChannel :=
  match channel.requests[r]? with
  | none => channel
  | some request =>
    if request.released then channel
    else
      closeRetiredChannelIfDrained
        { channel.modify r fun request => { request with released := true } with
          admittedHttpRequests := channel.admittedHttpRequests - 1 }

/-! ## Events -/

inductive Action where
  /-- The body of a request has been read. -/
  | body (r : Nat) (payload : Bytes) (room : Nat)
  /-- The body cannot be read, or is not what the endpoint takes. -/
  | unreadable (r : Nat)
  /-- The client goes away. -/
  | abort (r : Nat)
  /-- The handler resumes after the settlement, and ends the response. -/
  | respond (r : Nat)
  | finish (r : Nat)
  | close (r : Nat)
  /-- The socket has room again after it had none. -/
  | drain (room : Nat)
  | data (data : Bytes)
  | timeout (r : Nat)
  /-- `end`, `error` or `close` of the socket. -/
  | fail (message : String)
  /-- The socket is destroyed, and its events are still to come. -/
  | destroy
  deriving DecidableEq

def phase? (r : Nat) : Option Phase := channel.requests[r]?.map HttpRequest.phase

def step (channel : BridgeChannel) (action : Action) : BridgeChannel :=
  match action with
  | .body r payload room =>
    match channel.requests[r]? with
    | some request => if request.phase = .reading then channel.sendAndReceive r request.aborted payload room else channel
    | none => channel
  | .unreadable r => if channel.phase? r = some .reading then channel.refuse r else channel
  | .abort r => channel.abort r
  | .respond r =>
    if channel.phase? r = some .waiting ∧ (channel.pending? r).any PendingRequest.settled then channel.refuse r else channel
  | .finish r => if channel.phase? r = some .over then channel.release r else channel
  | .close r => if channel.phase? r = some .over then channel.release r else (channel.abort r).release r
  | .drain room =>
    if channel.connected ∧ channel.writing then
      closeRetiredChannelIfDrained (pumpWrites { channel with writing := false } room)
    else channel
  | .data data => if channel.connected ∧ ¬channel.destroyed then channel.handleTcpData data else channel
  | .timeout r =>
    match channel.pending? r with
    | some request =>
      if request.timeout then channel.failConnection s!"Request {request.id} timed out waiting for DO response" else channel
    | none => channel
  | .fail message => channel.failConnection message
  | .destroy => { channel with destroyed := true }

/-- A new connection takes the place of this one. -/
def retire : BridgeChannel := closeRetiredChannelIfDrained { channel with retired := true }

/-- `close` of the bridge. -/
def shutdown : BridgeChannel :=
  rejectPending { channel with destroyed := channel.connected || channel.destroyed } "Bridge channel closed"

end BridgeChannel

/-- What `startChannel` serves: every connection so far, and the current one. -/
structure Bridge where
  channels : List BridgeChannel
  channel : Option Nat
  deriving DecidableEq

namespace Bridge

def initial : Bridge := ⟨[], none⟩

inductive Action where
  /-- The durable object connects. -/
  | connect
  /-- A request for the pipeline or the cursor reaches the HTTP server. -/
  | post
  | on (connection : Nat) (action : BridgeChannel.Action)
  /-- The socket of a connection reports `close`. -/
  | closed (connection : Nat)
  /-- `close` of the bridge. -/
  | shutdown
  deriving DecidableEq

variable (bridge : Bridge)

def current? : Option BridgeChannel := bridge.channel.bind (bridge.channels[·]?)

def modifyCurrent (change : BridgeChannel → BridgeChannel) : List BridgeChannel :=
  match bridge.channel with
  | some connection => bridge.channels.modify connection change
  | none => bridge.channels

def step (bridge : Bridge) (action : Action) : Bridge :=
  match action with
  | .connect =>
    let nextRequestId := (bridge.current?.map BridgeChannel.nextRequestId).getD 1
    { channels := bridge.modifyCurrent BridgeChannel.retire ++ [BridgeChannel.accepted nextRequestId]
      channel := some bridge.channels.length }
  | .post => { bridge with channels := bridge.modifyCurrent BridgeChannel.reserveHttpRequest }
  | .on connection action => { bridge with channels := bridge.channels.modify connection fun channel => channel.step action }
  | .closed connection =>
    { channels := bridge.channels.modify connection fun channel => channel.failConnection "DO TCP connection closed"
      channel := if bridge.channel = some connection then none else bridge.channel }
  | .shutdown => { bridge with channels := bridge.channels.map BridgeChannel.shutdown }

end Bridge

end AiryFS
