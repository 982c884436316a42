import AiryFS.Exec.Streams

/-! The streams around the output of a command end once.

Whatever the order of the events, what was read from the upstream is passed on until the stream ends, and what
has to happen at the end has happened by then, once.
-/

set_option autoImplicit false

namespace AiryFS

open Foundation

theorem Upstream.chunks_answered (upstream : Upstream) (value : UpstreamAnswer) :
    upstream.chunks <+: (upstream.answered value).chunks := by
  cases value with
  | chunk value => exact List.prefix_append _ _
  | done => exact List.prefix_refl _
  | failed => exact List.prefix_refl _

theorem Upstream.failed_answered {upstream : Upstream} (failed : upstream.failed = true) (value : UpstreamAnswer) :
    (upstream.answered value).failed = true := by
  cases value with
  | chunk value => exact failed
  | done => exact failed
  | failed => rfl

/-! ## `holdStreamUntilDone` -/

namespace HeldStream

/-- What holds also where a pull was called for and has not begun. -/
structure Steady (held : HeldStream) : Prop where
  stream : held.stream.Sound
  reading : held.task = .reading → held.stream.queue = []
  counted : held.releases = if held.released then 1 else 0
  released : held.released = true ↔ held.stream.phase ≠ .readable
  passes : held.stream.accepted <+: held.upstream.chunks
  unbroken : held.stream.phase = .readable → held.stream.accepted = held.upstream.chunks
  finished : held.stream.phase = .closed → held.stream.cancelled = false →
    held.upstream.finished = true ∧ held.stream.accepted = held.upstream.chunks ∧ held.task ≠ .reading
  failed : held.stream.phase = .errored → held.upstream.failed = true

structure Sound (held : HeldStream) : Prop extends Steady held where
  idle : held.task = .idle → held.stream.pulling = false

theorem sound_holdStreamUntilDone : holdStreamUntilDone.Sound where
  stream := ReadableStream.sound_initial
  idle _ := rfl
  reading := nofun
  counted := rfl
  released := ⟨nofun, fun ended => (ended rfl).elim⟩
  passes := List.prefix_refl _
  unbroken _ := rfl
  finished := nofun
  failed := nofun

variable {held : HeldStream} {stream : ReadableStream Bytes}

theorem Steady.pull (steady : held.Steady) (called : held.task = .idle → held.stream.pulling = true →
    held.stream.queue = [] ∧ held.stream.phase = .readable) : held.pull.Sound := by
  unfold HeldStream.pull
  split
  · rename_i begins
    obtain ⟨empty, readable⟩ := called begins.2 begins.1
    exact { steady with
      reading := fun _ => empty
      finished := fun closed => by cases readable.symm.trans closed
      idle := nofun }
  · rename_i waits
    exact { steady with idle := fun idle => Bool.eq_false_iff.mpr fun pulling => waits ⟨pulling, idle⟩ }

theorem Steady.idles (steady : held.Steady) (idles : held.stream.Idles stream) : Steady { held with stream } where
  stream := idles.sound
  reading reading := idles.empty (steady.reading reading)
  counted := steady.counted
  released := steady.released.trans (by rw [idles.phase])
  passes := by
    rw [idles.accepted]
    exact steady.passes
  unbroken readable := idles.accepted.trans (steady.unbroken (idles.phase.symm.trans readable))
  finished closed kept := by
    rw [idles.accepted]
    exact steady.finished (idles.phase.symm.trans closed) (idles.cancelled.symm.trans kept)
  failed errored := steady.failed (idles.phase.symm.trans errored)

theorem Sound.idles (sound : held.Sound) (idles : held.stream.Idles stream) : { held with stream }.pull.Sound :=
  (sound.toSteady.idles idles).pull fun idle pulling =>
    (idles.fresh pulling).resolve_left (by rw [sound.idle idle]; exact Bool.false_ne_true)

theorem releaseOnce_eq (counted : held.releases = if held.released then 1 else 0) :
    held.releaseOnce = { held with released := true, releases := 1 } := by
  unfold releaseOnce
  cases once : held.released with
  | true =>
    rw [once, if_pos rfl] at counted
    rw [if_pos rfl, ← once, ← counted]
  | false =>
    rw [once, if_neg Bool.false_ne_true] at counted
    rw [if_neg Bool.false_ne_true, counted]

/-- The stream is over, or the upstream has failed. -/
theorem Sound.recover (sound : held.Sound) (reading : held.task = .reading) {value : UpstreamAnswer}
    (why : held.stream.phase = .readable → value = .failed) :
    Sound { held with upstream := held.upstream.answered value }.recover := by
  have passes : held.stream.error.accepted <+: (held.upstream.answered value).chunks := by
    rw [ReadableStream.error_accepted]
    exact sound.passes.trans (held.upstream.chunks_answered value)
  have once : HeldStream.releaseOnce { held with upstream := held.upstream.answered value } = _ := releaseOnce_eq sound.counted
  rw [HeldStream.recover, once]
  by_cases readable : held.stream.phase = .readable
  · have past := ReadableStream.error_phase readable
    exact {
      stream := sound.stream.error
      reading := nofun
      counted := rfl
      released := ⟨fun _ => by rw [past]; nofun, fun _ => rfl⟩
      passes := passes
      unbroken := fun open_ => by cases past.symm.trans open_
      finished := fun closed => by cases past.symm.trans closed
      failed := fun _ => by rw [why readable]; rfl
      idle := nofun }
  · have same := ReadableStream.error_of_ended readable
    dsimp only
    rw [same] at passes ⊢
    exact {
      stream := sound.stream
      reading := nofun
      counted := rfl
      released := ⟨fun _ => readable, fun _ => rfl⟩
      passes := passes
      unbroken := fun open_ => (readable open_).elim
      -- Only a cancelled stream is closed while an answer is awaited.
      finished := fun closed kept => ((sound.finished closed kept).2.2 reading).elim
      failed := fun errored => Upstream.failed_answered (sound.failed errored) value
      idle := nofun }

theorem Sound.resume (sound : held.Sound) (reading : held.task = .reading) (value : UpstreamAnswer) :
    (held.resume value).Sound := by
  by_cases readable : held.stream.phase = .readable
  · have unbroken := sound.unbroken readable
    cases value with
    | chunk value =>
      obtain ⟨stream, enqueued, ended, still, accepted, -⟩ := ReadableStream.enqueue_eq sound.stream readable value
      unfold HeldStream.resume
      dsimp only
      rw [enqueued]
      have whole : stream.accepted = held.upstream.chunks ++ [value] := by rw [accepted, unbroken]
      exact { sound with
        stream := ended
        reading := nofun
        released := sound.released.trans (by rw [readable, still])
        passes := whole ▸ List.prefix_refl _
        unbroken := fun _ => whole
        finished := fun closed => by cases still.symm.trans closed
        failed := fun errored => by cases still.symm.trans errored
        idle := nofun }
    | done =>
      obtain ⟨stream, closed, ended, shut, -, accepted, -⟩ :=
        ReadableStream.close_eq sound.stream readable (sound.reading reading)
      unfold HeldStream.resume
      dsimp only
      rw [closed]
      have once : HeldStream.releaseOnce
          { held with upstream := held.upstream.answered .done, stream, task := .returning } = _ := releaseOnce_eq sound.counted
      dsimp only
      rw [once]
      have whole : stream.accepted = held.upstream.chunks := accepted.trans unbroken
      exact {
        stream := ended
        reading := nofun
        counted := rfl
        released := ⟨fun _ => by rw [shut]; nofun, fun _ => rfl⟩
        passes := whole ▸ List.prefix_refl _
        unbroken := fun open_ => by cases shut.symm.trans open_
        finished := fun _ _ => ⟨rfl, whole, nofun⟩
        failed := fun errored => by cases shut.symm.trans errored
        idle := nofun }
    | failed => exact sound.recover reading fun _ => rfl
  · have past (value : UpstreamAnswer) : HeldStream.Sound _ :=
      @Sound.recover _ sound reading value fun open_ => (readable open_).elim
    cases value with
    | chunk value =>
      unfold HeldStream.resume
      dsimp only
      rw [ReadableStream.enqueue_of_ended readable]
      exact past _
    | done =>
      unfold HeldStream.resume
      dsimp only
      rw [ReadableStream.close_of_ended readable]
      exact past _
    | failed => exact past _

theorem Sound.cancel (sound : held.Sound) : (held.step .cancel).Sound := by
  unfold HeldStream.step
  dsimp only
  split
  · rename_i readable
    have once : HeldStream.releaseOnce { held with stream := held.stream.cancel } = _ := releaseOnce_eq sound.counted
    rw [once]
    have given := sound.stream.cancel
    rw [ReadableStream.cancel, if_pos readable] at given ⊢
    exact { sound with
      stream := given
      reading := fun _ => rfl
      counted := rfl
      released := ⟨fun _ => nofun, fun _ => rfl⟩
      unbroken := nofun
      finished := nofun
      failed := nofun }
  · rename_i ended
    rw [ReadableStream.cancel_of_ended ended]
    exact sound

theorem sound_step (sound : held.Sound) (action : Action) : (held.step action).Sound := by
  cases action with
  | started => exact sound.idles (ReadableStream.idles_start sound.stream)
  | read => exact sound.idles (ReadableStream.idles_read sound.stream)
  | cancel => exact sound.cancel
  | answer value =>
    unfold step
    dsimp only
    split
    · rename_i reading
      exact sound.resume reading value
    · exact sound
  | pulled =>
    unfold step
    dsimp only
    split
    · rename_i returning
      -- The pull is over before another begins.
      have past : Steady { held with stream := { held.stream with pulling := false }, task := .idle } :=
        { sound.toSteady with
          stream := { sound.stream with }
          reading := nofun
          finished := fun closed kept => ⟨(sound.finished closed kept).1, (sound.finished closed kept).2.1, nofun⟩ }
      have idles := ReadableStream.idles_pulled sound.stream
      exact (past.idles idles).pull fun _ pulling => (idles.fresh pulling).resolve_left Bool.false_ne_true
    · exact sound

/-- What is seen of the stream from outside. -/
structure Settles (held : HeldStream) : Prop where
  passes : held.stream.delivered <+: held.upstream.chunks
  unbroken : held.stream.phase = .readable → held.stream.delivered ++ held.stream.queue = held.upstream.chunks
  completed : held.stream.phase = .closed → held.stream.cancelled = false →
    held.upstream.finished = true ∧ held.stream.delivered = held.upstream.chunks
  failed : held.stream.phase = .errored → held.upstream.failed = true
  releases : held.releases = if held.stream.phase = .readable then 0 else 1

theorem Sound.settles (sound : held.Sound) : held.Settles where
  passes := sound.stream.passed.trans sound.passes
  unbroken readable := (sound.stream.kept readable).trans (sound.unbroken readable)
  completed closed kept := ⟨(sound.finished closed kept).1, (sound.stream.whole closed kept).trans (sound.finished closed kept).2.1⟩
  failed := sound.failed
  releases := by
    rw [sound.counted]
    by_cases readable : held.stream.phase = .readable
    · rw [if_pos readable, if_neg fun released => sound.released.mp released readable]
    · rw [if_neg readable, if_pos (sound.released.mpr readable)]

end HeldStream

/-! ## `enforceStreamHeartbeat` -/

namespace MonitoredStream

structure Steady (monitored : MonitoredStream) : Prop where
  stream : monitored.stream.Sound
  reading : monitored.task = .reading → monitored.stream.queue = []
  timer : monitored.timer = !monitored.settled
  called : monitored.calls.length = if monitored.settled then 1 else 0
  settled : monitored.stream.phase ≠ .readable → monitored.settled = true
  passes : monitored.stream.accepted <+: monitored.upstream.chunks
  unbroken : monitored.settled = false → monitored.stream.accepted = monitored.upstream.chunks
  finished : monitored.stream.phase = .closed → monitored.stream.cancelled = false →
    monitored.calls = [.onComplete] ∧ monitored.upstream.finished = true ∧
      monitored.stream.accepted = monitored.upstream.chunks ∧ monitored.task ≠ .reading
  failed : monitored.stream.phase = .errored → monitored.calls = [.onFailure]
  failing : monitored.failure ≠ none → monitored.settled = true ∧ monitored.calls = [.onFailure]

structure Sound (monitored : MonitoredStream) : Prop extends Steady monitored where
  idle : monitored.task = .idle → monitored.stream.pulling = false

theorem sound_enforceStreamHeartbeat : enforceStreamHeartbeat.Sound where
  stream := ReadableStream.sound_initial
  idle _ := rfl
  reading := nofun
  timer := rfl
  called := rfl
  settled ended := (ended rfl).elim
  passes := List.prefix_refl _
  unbroken _ := rfl
  finished := nofun
  failed := nofun
  failing none_ := (none_ rfl).elim

variable {monitored : MonitoredStream} {stream : ReadableStream Bytes}

theorem Steady.pull (steady : monitored.Steady) (called : monitored.task = .idle → monitored.stream.pulling = true →
    monitored.stream.queue = [] ∧ monitored.stream.phase = .readable) : monitored.pull.Sound := by
  unfold MonitoredStream.pull
  split
  · rename_i begins
    obtain ⟨empty, readable⟩ := called begins.2 begins.1
    have finished (closed : monitored.stream.phase = .closed) : False := by cases readable.symm.trans closed
    split
    · exact { steady with reading := nofun, finished := fun closed => (finished closed).elim, idle := nofun }
    · exact { steady with reading := fun _ => empty, finished := fun closed => (finished closed).elim, idle := nofun }
  · rename_i waits
    exact { steady with idle := fun idle => Bool.eq_false_iff.mpr fun pulling => waits ⟨pulling, idle⟩ }

theorem Steady.idles (steady : monitored.Steady) (idles : monitored.stream.Idles stream) : Steady { monitored with stream } :=
  { steady with
    stream := idles.sound
    reading := fun reading => idles.empty (steady.reading reading)
    settled := fun ended => steady.settled (by rwa [← idles.phase])
    passes := by
      rw [idles.accepted]
      exact steady.passes
    unbroken := fun open_ => idles.accepted.trans (steady.unbroken open_)
    finished := fun closed kept => by
      rw [idles.accepted]
      exact steady.finished (idles.phase.symm.trans closed) (idles.cancelled.symm.trans kept)
    failed := fun errored => steady.failed (idles.phase.symm.trans errored) }

theorem Sound.idles (sound : monitored.Sound) (idles : monitored.stream.Idles stream) : { monitored with stream }.pull.Sound :=
  (sound.toSteady.idles idles).pull fun idle pulling =>
    (idles.fresh pulling).resolve_left (by rw [sound.idle idle]; exact Bool.false_ne_true)

/-- Nothing was called, and the stream can be read. -/
theorem Steady.fresh (steady : monitored.Steady) (open_ : monitored.settled = false) :
    monitored.calls = [] ∧ monitored.stream.phase = .readable := by
  refine ⟨List.length_eq_zero_iff.mp ?_, ?_⟩
  · rw [steady.called, if_neg (by rw [open_]; exact Bool.false_ne_true)]
  · by_contra ended
    rw [steady.settled ended] at open_
    cases open_

/-- An answer that comes too late is dropped. -/
theorem Sound.late (sound : monitored.Sound) (reading : monitored.task = .reading) (late : monitored.settled = true)
    (value : UpstreamAnswer) : Sound { monitored with upstream := monitored.upstream.answered value, task := .returning } :=
  { sound with
    reading := nofun
    passes := sound.passes.trans (monitored.upstream.chunks_answered value)
    unbroken := fun open_ => by cases late.symm.trans open_
    -- Only a cancelled stream is closed while an answer is awaited.
    finished := fun closed kept => ((sound.finished closed kept).2.2.2 reading).elim
    idle := nofun }

theorem Sound.fail (sound : monitored.Sound) : monitored.fail.Sound := by
  unfold MonitoredStream.fail
  split
  · exact sound
  · rename_i open_
    obtain ⟨none_, readable⟩ := sound.fresh (Bool.eq_false_iff.mpr open_)
    have called : monitored.calls ++ [.onFailure] = [.onFailure] := by rw [none_, List.nil_append]
    exact { sound with
      timer := rfl
      called := by
        dsimp only [settle]
        rw [called]
        rfl
      settled := fun _ => rfl
      unbroken := nofun
      finished := fun closed => by cases readable.symm.trans closed
      failed := fun errored => by cases readable.symm.trans errored
      failing := fun _ => ⟨rfl, called⟩ }

theorem Sound.continueFail (sound : monitored.Sound) : monitored.continueFail.Sound := by
  unfold MonitoredStream.continueFail
  split
  · rename_i handling
    obtain ⟨settled, called⟩ := sound.failing (by rw [handling]; nofun)
    by_cases readable : monitored.stream.phase = .readable
    · have past := ReadableStream.error_phase readable
      exact { sound with
        stream := sound.stream.error
        reading := fun _ => sound.stream.error.drained (by rw [past]; nofun)
        settled := fun _ => settled
        passes := by
          rw [ReadableStream.error_accepted]
          exact sound.passes
        unbroken := fun open_ => by cases settled.symm.trans open_
        finished := fun closed => by cases past.symm.trans closed
        failed := fun _ => called
        failing := fun _ => ⟨settled, called⟩
        idle := fun idle => ReadableStream.error_pulling.trans (sound.idle idle) }
    · rw [ReadableStream.error_of_ended readable]
      exact { sound with failing := fun _ => ⟨settled, called⟩ }
  · dsimp only
    split
    · rename_i failing
      exact { sound with
        reading := nofun
        finished := fun closed kept =>
          ⟨(sound.finished closed kept).1, (sound.finished closed kept).2.1, (sound.finished closed kept).2.2.1, nofun⟩
        failing := fun none_ => (none_ rfl).elim
        idle := nofun }
    · exact { sound with failing := fun none_ => (none_ rfl).elim }
  · exact sound

theorem Sound.resume (sound : monitored.Sound) (reading : monitored.task = .reading) (value : UpstreamAnswer) :
    (monitored.resume value).Sound := by
  cases settled : monitored.settled with
  | true =>
    have late := sound.late reading settled value
    unfold MonitoredStream.resume MonitoredStream.recover
    dsimp only
    rw [if_pos settled]
    split
    · exact late
    · exact late
  | false =>
    obtain ⟨none_, readable⟩ := sound.fresh settled
    have unbroken := sound.unbroken settled
    cases value with
    | chunk value =>
      obtain ⟨stream, enqueued, ended, still, accepted, -⟩ := ReadableStream.enqueue_eq sound.stream readable value
      unfold MonitoredStream.resume
      dsimp only
      rw [if_neg nofun, if_neg (by rw [settled]; exact Bool.false_ne_true), enqueued]
      have whole : stream.accepted = monitored.upstream.chunks ++ [value] := by rw [accepted, unbroken]
      exact { sound with
        stream := ended
        reading := nofun
        timer := by
          dsimp only
          rw [settled]
          rfl
        settled := fun past => (past still).elim
        passes := whole ▸ List.prefix_refl _
        unbroken := fun _ => whole
        finished := fun closed => by cases still.symm.trans closed
        failed := fun errored => by cases still.symm.trans errored
        idle := nofun }
    | done =>
      obtain ⟨stream, closed, ended, shut, -, accepted, -⟩ :=
        ReadableStream.close_eq sound.stream readable (sound.reading reading)
      unfold MonitoredStream.resume
      dsimp only
      rw [if_neg nofun, if_neg (by rw [settled]; exact Bool.false_ne_true), settle]
      dsimp only
      rw [closed]
      have whole : stream.accepted = monitored.upstream.chunks := accepted.trans unbroken
      have called : monitored.calls ++ [.onComplete] = [.onComplete] := by rw [none_, List.nil_append]
      exact { sound with
        stream := ended
        reading := nofun
        timer := rfl
        called := by
          dsimp only
          rw [called]
          rfl
        settled := fun _ => rfl
        passes := whole ▸ List.prefix_refl _
        unbroken := nofun
        finished := fun _ _ => ⟨called, rfl, whole, nofun⟩
        failed := fun errored => by cases shut.symm.trans errored
        failing := fun some_ => by
          have := (sound.failing some_).1
          cases settled.symm.trans this
        idle := nofun }
    | failed =>
      have told : Sound { monitored with upstream := monitored.upstream.answered .failed } := { sound with }
      have failed := told.fail
      unfold MonitoredStream.resume MonitoredStream.recover
      dsimp only
      rw [if_pos rfl, if_neg (by rw [settled]; exact Bool.false_ne_true)]
      exact { failed with
        reading := nofun
        finished := fun closed kept =>
          ⟨(failed.finished closed kept).1, (failed.finished closed kept).2.1, (failed.finished closed kept).2.2.1, nofun⟩
        idle := nofun }

theorem Sound.cancel (sound : monitored.Sound) : (monitored.step .cancel).Sound := by
  unfold MonitoredStream.step
  dsimp only
  by_cases readable : monitored.stream.phase = .readable
  · have given := sound.stream.cancel
    rw [ReadableStream.cancel, if_pos readable] at given ⊢
    split
    · rename_i both
      obtain ⟨none_, -⟩ := sound.fresh (Bool.eq_false_iff.mpr both.2)
      exact { sound with
        stream := given
        reading := fun _ => rfl
        timer := rfl
        called := by
          dsimp only [settle]
          rw [none_]
          rfl
        settled := fun _ => rfl
        unbroken := nofun
        finished := nofun
        failed := nofun
        failing := fun some_ => (both.2 (sound.failing some_).1).elim }
    · rename_i late
      have settled : monitored.settled = true := by
        by_contra open_
        exact late ⟨readable, open_⟩
      exact { sound with
        stream := given
        reading := fun _ => rfl
        settled := fun _ => settled
        finished := nofun
        failed := nofun }
  · rw [ReadableStream.cancel_of_ended readable, if_neg fun both => readable both.1]
    exact sound

theorem sound_step (sound : monitored.Sound) (action : Action) : (monitored.step action).Sound := by
  cases action with
  | started => exact sound.idles (ReadableStream.idles_start sound.stream)
  | read => exact sound.idles (ReadableStream.idles_read sound.stream)
  | cancel => exact sound.cancel
  | answer value =>
    unfold step
    dsimp only
    split
    · rename_i reading
      exact sound.resume reading value
    · exact sound
  | pulled =>
    unfold step
    dsimp only
    split
    · rename_i returning
      -- The pull is over before another begins.
      have past : Steady { monitored with stream := { monitored.stream with pulling := false }, task := .idle } :=
        { sound.toSteady with
          stream := { sound.stream with }
          reading := nofun
          finished := fun closed kept =>
            ⟨(sound.finished closed kept).1, (sound.finished closed kept).2.1, (sound.finished closed kept).2.2.1, nofun⟩ }
      have idles := ReadableStream.idles_pulled sound.stream
      exact (past.idles idles).pull fun _ pulling => (idles.fresh pulling).resolve_left Bool.false_ne_true
    · exact sound
  | expired =>
    unfold step
    dsimp only
    split
    · exact sound.fail
    · exact sound
  | continued => exact sound.continueFail

structure Settles (monitored : MonitoredStream) : Prop where
  passes : monitored.stream.delivered <+: monitored.upstream.chunks
  unbroken : monitored.calls = [] → monitored.stream.delivered ++ monitored.stream.queue = monitored.upstream.chunks
  completed : monitored.stream.phase = .closed → monitored.stream.cancelled = false →
    monitored.calls = [.onComplete] ∧ monitored.upstream.finished = true ∧ monitored.stream.delivered = monitored.upstream.chunks
  failed : monitored.stream.phase = .errored → monitored.calls = [.onFailure]
  once : monitored.calls.length ≤ 1
  ended : monitored.stream.phase ≠ .readable → monitored.calls.length = 1

theorem Sound.settles (sound : monitored.Sound) : monitored.Settles where
  passes := sound.stream.passed.trans sound.passes
  unbroken none_ := by
    have called := sound.called
    cases settled : monitored.settled with
    | true =>
      rw [settled, none_] at called
      cases called
    | false => exact (sound.stream.kept (sound.fresh settled).2).trans (sound.unbroken settled)
  completed closed kept :=
    have finished := sound.finished closed kept
    ⟨finished.1, finished.2.1, (sound.stream.whole closed kept).trans finished.2.2.1⟩
  failed := sound.failed
  once := by
    rw [sound.called]
    split <;> decide
  ended past := by
    rw [sound.called, if_pos (sound.settled past)]

end MonitoredStream

end AiryFS
