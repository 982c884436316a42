import AiryFS.Storage.Values
import AiryFS.Foundation.ReadableStream

/-! The streams that are put around the output of a command.

Whatever happens to them is an action: what the consumer does, what the upstream answers to a read, the
heartbeat timer and the promises that are awaited. Between two of them anything else may happen. The callbacks
do not throw, and what they return may settle at any time or never.
-/

set_option autoImplicit false

namespace AiryFS

open Foundation

inductive UpstreamAnswer where
  | chunk (value : Bytes)
  | done
  | failed
  deriving DecidableEq

/-- How far `pull` has come. -/
inductive PullTask where
  | idle
  /-- It waits for `reader.read()`. -/
  | reading
  /-- It waits for `fail`. -/
  | failing
  | returning
  deriving DecidableEq

/-- What the upstream has answered so far. -/
structure Upstream where
  chunks : List Bytes
  finished : Bool
  failed : Bool
  deriving DecidableEq

namespace Upstream

def initial : Upstream := ⟨[], false, false⟩

def answered (upstream : Upstream) : UpstreamAnswer → Upstream
  | .chunk value => { upstream with chunks := upstream.chunks ++ [value] }
  | .done => { upstream with finished := true }
  | .failed => { upstream with failed := true }

end Upstream

/-! ## `holdStreamUntilDone` -/

structure HeldStream where
  stream : ReadableStream Bytes
  task : PullTask
  released : Bool
  /-- How often `release` was called. -/
  releases : Nat
  upstream : Upstream
  deriving DecidableEq

namespace HeldStream

inductive Action where
  /-- The stream has started. -/
  | started
  | read
  | cancel
  /-- The upstream has answered, and `pull` goes on. -/
  | answer (value : UpstreamAnswer)
  /-- The promise of `pull` is settled. -/
  | pulled
  deriving DecidableEq

def holdStreamUntilDone : HeldStream :=
  { stream := .initial, task := .idle, released := false, releases := 0, upstream := .initial }

section
variable (held : HeldStream)

def releaseOnce : HeldStream :=
  if held.released then held else { held with released := true, releases := held.releases + 1 }

/-- A pull that was called for asks the upstream. -/
def pull : HeldStream :=
  if held.stream.pulling ∧ held.task = .idle then { held with task := .reading } else held

/-- The `catch` of `pull`. -/
def recover : HeldStream :=
  let held := held.releaseOnce
  { held with stream := held.stream.error, task := .returning }

/-- `pull` from the answer on. -/
def resume (value : UpstreamAnswer) : HeldStream :=
  let held := { held with upstream := held.upstream.answered value }
  match value with
  | .chunk value =>
    match held.stream.enqueue value with
    | some stream => { held with stream, task := .returning }
    | none => held.recover
  | .done =>
    match held.stream.close with
    | some stream => { held with stream, task := .returning }.releaseOnce
    | none => held.recover
  | .failed => held.recover

def step : Action → HeldStream
  | .started => { held with stream := held.stream.start }.pull
  | .read => { held with stream := held.stream.read }.pull
  | .cancel =>
    let cancelled := { held with stream := held.stream.cancel }
    if held.stream.phase = .readable then cancelled.releaseOnce else cancelled
  | .answer value => if held.task = .reading then held.resume value else held
  | .pulled => if held.task = .returning then { held with stream := held.stream.pulled, task := .idle }.pull else held

end

end HeldStream

/-! ## `enforceStreamHeartbeat` -/

inductive HeartbeatCall where
  | onFailure
  | onComplete
  deriving DecidableEq

inductive FailStage where
  /-- The promise of `onFailure` is awaited. -/
  | handling
  /-- The promise of `reader.cancel` is. -/
  | cancelling
  deriving DecidableEq

structure MonitoredStream where
  stream : ReadableStream Bytes
  task : PullTask
  settled : Bool
  timer : Bool
  /-- How far `fail` has come. -/
  failure : Option FailStage
  calls : List HeartbeatCall
  upstream : Upstream
  deriving DecidableEq

namespace MonitoredStream

inductive Action where
  | started
  | read
  | cancel
  | answer (value : UpstreamAnswer)
  | pulled
  /-- The timer has expired. -/
  | expired
  /-- What `fail` awaits is settled. -/
  | continued
  deriving DecidableEq

/-- `start` has armed the timer. -/
def enforceStreamHeartbeat : MonitoredStream :=
  { stream := .initial, task := .idle, settled := false, timer := true, failure := none, calls := [], upstream := .initial }

section
variable (monitored : MonitoredStream)

def settle (call : HeartbeatCall) : MonitoredStream :=
  { monitored with settled := true, timer := false, calls := monitored.calls ++ [call] }

def fail : MonitoredStream :=
  if monitored.settled then monitored else { monitored.settle .onFailure with failure := some .handling }

/-- `fail` after what it awaits. -/
def continueFail : MonitoredStream :=
  match monitored.failure with
  | some .handling => { monitored with stream := monitored.stream.error, failure := some .cancelling }
  | some .cancelling =>
    let monitored := { monitored with failure := none }
    if monitored.task = .failing then { monitored with task := .returning } else monitored
  | none => monitored

def pull : MonitoredStream :=
  if monitored.stream.pulling ∧ monitored.task = .idle then
    if monitored.settled then { monitored with task := .returning } else { monitored with task := .reading }
  else monitored

/-- The `catch` of `pull`. -/
def recover : MonitoredStream :=
  if monitored.settled then { monitored with task := .returning } else { monitored.fail with task := .failing }

def resume (value : UpstreamAnswer) : MonitoredStream :=
  let monitored := { monitored with upstream := monitored.upstream.answered value }
  if value = .failed then monitored.recover
  else if monitored.settled then { monitored with task := .returning }
  else match value with
    | .chunk value =>
      let monitored := { monitored with timer := true }
      match monitored.stream.enqueue value with
      | some stream => { monitored with stream, task := .returning }
      | none => monitored.recover
    | _ =>
      let monitored := monitored.settle .onComplete
      match monitored.stream.close with
      | some stream => { monitored with stream, task := .returning }
      | none => monitored.recover

def step : Action → MonitoredStream
  | .started => { monitored with stream := monitored.stream.start }.pull
  | .read => { monitored with stream := monitored.stream.read }.pull
  | .cancel =>
    let cancelled := { monitored with stream := monitored.stream.cancel }
    if monitored.stream.phase = .readable ∧ ¬monitored.settled then cancelled.settle .onComplete else cancelled
  | .answer value => if monitored.task = .reading then monitored.resume value else monitored
  | .pulled =>
    if monitored.task = .returning then { monitored with stream := monitored.stream.pulled, task := .idle }.pull else monitored
  | .expired => if monitored.timer then monitored.fail else monitored
  | .continued => monitored.continueFail

end

end MonitoredStream

end AiryFS
