import AiryFS.Foundation.Runs

/-! A readable stream with a default controller that wants one chunk ahead.

The source of the stream is asked for a chunk by a pull, and for no other before that pull is over.
Whoever writes the source sees the operations of the controller, whoever reads the stream `read` and
`cancel`. What was accepted and what was delivered is kept beside the stream.
-/

set_option autoImplicit false

namespace Foundation

inductive ReadableStream.Phase where
  | readable
  | closed
  | errored
  deriving DecidableEq

structure ReadableStream (α : Type) where
  phase : ReadableStream.Phase
  started : Bool
  closeRequested : Bool
  pulling : Bool
  pullAgain : Bool
  queue : List α
  /-- Reads that wait for a chunk. -/
  requests : Nat
  accepted : List α
  delivered : List α
  /-- The reader has given the stream up. -/
  cancelled : Bool
  deriving DecidableEq

namespace ReadableStream

variable {α : Type}

def initial : ReadableStream α :=
  { phase := .readable, started := false, closeRequested := false, pulling := false, pullAgain := false, queue := [],
    requests := 0, accepted := [], delivered := [], cancelled := false }

section
variable (stream : ReadableStream α)

def shouldPull : Bool :=
  stream.phase = .readable && !stream.closeRequested && stream.started && (0 < stream.requests || stream.queue.isEmpty)

/-- The pull that this calls for begins at once. -/
def callPullIfNeeded : ReadableStream α :=
  if stream.shouldPull then
    if stream.pulling then { stream with pullAgain := true } else { stream with pulling := true }
  else stream

def start : ReadableStream α := { stream with started := true }.callPullIfNeeded

/-- The pull has come to its end. -/
def pulled : ReadableStream α :=
  if stream.pullAgain then { stream with pulling := false, pullAgain := false }.callPullIfNeeded
  else { stream with pulling := false }

/-! ## The controller -/

/-- Nothing where it throws. -/
def enqueue (chunk : α) : Option (ReadableStream α) :=
  if stream.phase = .readable ∧ stream.closeRequested = false then
    some (match stream.requests with
      | 0 => { stream with queue := stream.queue ++ [chunk], accepted := stream.accepted ++ [chunk] }
      | requests + 1 =>
        { stream with requests, accepted := stream.accepted ++ [chunk], delivered := stream.delivered ++ [chunk] }).callPullIfNeeded
  else none

def close : Option (ReadableStream α) :=
  if stream.phase = .readable ∧ stream.closeRequested = false then
    if stream.queue = [] then some { stream with closeRequested := true, phase := .closed, requests := 0 }
    else some { stream with closeRequested := true }
  else none

def error : ReadableStream α :=
  if stream.phase = .readable then { stream with phase := .errored, queue := [], requests := 0 } else stream

/-! ## The reader -/

def read : ReadableStream α :=
  if stream.phase = .readable then
    match stream.queue with
    | [] => { stream with requests := stream.requests + 1 }.callPullIfNeeded
    | chunk :: queue =>
      let stream := { stream with queue, delivered := stream.delivered ++ [chunk] }
      if stream.closeRequested ∧ queue = [] then { stream with phase := .closed } else stream.callPullIfNeeded
  else stream

/-- The source is told, where the stream was readable. -/
def cancel : ReadableStream α :=
  if stream.phase = .readable then { stream with phase := .closed, queue := [], requests := 0, cancelled := true } else stream

end

section Projections
variable (stream : ReadableStream α)

@[simp] theorem callPullIfNeeded_phase : stream.callPullIfNeeded.phase = stream.phase := by
  unfold callPullIfNeeded
  split <;> [split; skip] <;> rfl

@[simp] theorem callPullIfNeeded_closeRequested : stream.callPullIfNeeded.closeRequested = stream.closeRequested := by
  unfold callPullIfNeeded
  split <;> [split; skip] <;> rfl

@[simp] theorem callPullIfNeeded_queue : stream.callPullIfNeeded.queue = stream.queue := by
  unfold callPullIfNeeded
  split <;> [split; skip] <;> rfl

@[simp] theorem callPullIfNeeded_requests : stream.callPullIfNeeded.requests = stream.requests := by
  unfold callPullIfNeeded
  split <;> [split; skip] <;> rfl

@[simp] theorem callPullIfNeeded_accepted : stream.callPullIfNeeded.accepted = stream.accepted := by
  unfold callPullIfNeeded
  split <;> [split; skip] <;> rfl

@[simp] theorem callPullIfNeeded_delivered : stream.callPullIfNeeded.delivered = stream.delivered := by
  unfold callPullIfNeeded
  split <;> [split; skip] <;> rfl

@[simp] theorem callPullIfNeeded_cancelled : stream.callPullIfNeeded.cancelled = stream.cancelled := by
  unfold callPullIfNeeded
  split <;> [split; skip] <;> rfl

theorem callPullIfNeeded_pulling {stream : ReadableStream α} (pulling : stream.pulling = true) :
    stream.callPullIfNeeded.pulling = true := by
  rw [callPullIfNeeded, if_pos pulling]
  split <;> exact pulling

end Projections

/-! ## What the operations keep -/

/-- A source that closes within a pull finds the queue empty, so that closing is the end of the stream. -/
structure Sound (stream : ReadableStream α) : Prop where
  waits : 0 < stream.requests → stream.queue = []
  drained : stream.phase ≠ .readable → stream.queue = []
  shut : stream.phase = .readable → stream.closeRequested = false
  kept : stream.phase = .readable → stream.delivered ++ stream.queue = stream.accepted
  passed : stream.delivered <+: stream.accepted
  whole : stream.phase = .closed → stream.cancelled = false → stream.delivered = stream.accepted

variable {stream stream' : ReadableStream α}

theorem Sound.idle (sound : stream.Sound) (held : stream.queue ≠ []) : stream.requests = 0 := by
  by_contra waiting
  exact held (sound.waits (Nat.pos_of_ne_zero waiting))

theorem sound_initial : (initial : ReadableStream α).Sound where
  waits := nofun
  drained := nofun
  shut _ := rfl
  kept _ := rfl
  passed := List.prefix_refl _
  whole := nofun

theorem Sound.callPullIfNeeded (sound : stream.Sound) : stream.callPullIfNeeded.Sound where
  waits := by simpa using sound.waits
  drained := by simpa using sound.drained
  shut := by simpa using sound.shut
  kept := by simpa using sound.kept
  passed := by simpa using sound.passed
  whole := by simpa using sound.whole

theorem Sound.error (sound : stream.Sound) : stream.error.Sound := by
  unfold ReadableStream.error
  split
  · exact { sound with waits := nofun, drained := fun _ => rfl, shut := nofun, kept := nofun, whole := nofun }
  · exact sound

theorem Sound.cancel (sound : stream.Sound) : stream.cancel.Sound := by
  unfold ReadableStream.cancel
  split
  · exact { sound with waits := nofun, drained := fun _ => rfl, shut := nofun, kept := nofun, whole := nofun }
  · exact sound

theorem error_phase (readable : stream.phase = .readable) : stream.error.phase = .errored := by
  rw [error, if_pos readable]

theorem error_of_ended (ended : stream.phase ≠ .readable) : stream.error = stream := if_neg ended

theorem error_accepted : stream.error.accepted = stream.accepted := by
  unfold error
  split <;> rfl

theorem error_pulling : stream.error.pulling = stream.pulling := by
  unfold error
  split <;> rfl

theorem cancel_of_ended (ended : stream.phase ≠ .readable) : stream.cancel = stream := if_neg ended

theorem enqueue_of_ended (ended : stream.phase ≠ .readable) (chunk : α) : stream.enqueue chunk = none :=
  if_neg fun both => ended both.1

theorem close_of_ended (ended : stream.phase ≠ .readable) : stream.close = none := if_neg fun both => ended both.1

theorem enqueue_eq (sound : stream.Sound) (readable : stream.phase = .readable) (chunk : α) :
    ∃ stream', stream.enqueue chunk = some stream' ∧ stream'.Sound ∧ stream'.phase = .readable ∧
      stream'.accepted = stream.accepted ++ [chunk] ∧ (stream.pulling = true → stream'.pulling = true) := by
  have shut := sound.shut readable
  have kept := sound.kept readable
  refine ⟨_, if_pos ⟨readable, shut⟩, .callPullIfNeeded ?_, ?_, ?_, fun pulling => callPullIfNeeded_pulling ?_⟩
  all_goals split
  · rename_i none_
    exact { sound with
      waits := fun waiting => by
        rw [none_] at waiting
        cases waiting
      drained := fun ended => (ended readable).elim
      kept := fun _ => by rw [← kept, List.append_assoc]
      passed := sound.passed.trans (List.prefix_append _ _)
      whole := fun closed => by cases readable.symm.trans closed }
  · rename_i requests waiting
    have empty := sound.waits (by rw [waiting]; exact Nat.succ_pos _)
    rw [empty, List.append_nil] at kept
    exact { sound with
      waits := fun _ => empty
      kept := fun _ => by rw [← kept, empty, List.append_nil]
      passed := by rw [kept]
      whole := fun closed => by cases readable.symm.trans closed }
  · simpa using readable
  · simpa using readable
  · simp
  · simp
  · exact pulling
  · exact pulling

theorem close_eq (sound : stream.Sound) (readable : stream.phase = .readable) (empty : stream.queue = []) :
    ∃ stream', stream.close = some stream' ∧ stream'.Sound ∧ stream'.phase = .closed ∧ stream'.queue = [] ∧
      stream'.accepted = stream.accepted ∧ stream'.cancelled = stream.cancelled ∧ stream'.pulling = stream.pulling := by
  have whole : stream.delivered = stream.accepted := by
    rw [← sound.kept readable, empty, List.append_nil]
  refine ⟨{ stream with closeRequested := true, phase := .closed, requests := 0 }, ?_, ?_, rfl, empty, rfl, rfl, rfl⟩
  · rw [close, if_pos ⟨readable, sound.shut readable⟩, if_pos empty]
  · exact { sound with waits := nofun, drained := fun _ => empty, shut := nofun, kept := nofun, whole := fun _ _ => whole }

/-! ## What neither adds to a stream nor ends it -/

structure Idles (stream stream' : ReadableStream α) : Prop where
  sound : stream'.Sound
  phase : stream'.phase = stream.phase
  accepted : stream'.accepted = stream.accepted
  cancelled : stream'.cancelled = stream.cancelled
  /-- A pull that begins finds the queue empty. -/
  fresh : stream'.pulling = true → stream.pulling = true ∨ stream'.queue = [] ∧ stream'.phase = .readable
  empty : stream.queue = [] → stream'.queue = []

theorem idles_callPullIfNeeded (sound : stream.Sound) : Idles stream stream.callPullIfNeeded where
  sound := sound.callPullIfNeeded
  phase := callPullIfNeeded_phase stream
  accepted := callPullIfNeeded_accepted stream
  cancelled := callPullIfNeeded_cancelled stream
  fresh pulls := by
    rw [callPullIfNeeded_queue, callPullIfNeeded_phase]
    unfold callPullIfNeeded at pulls
    split at pulls
    · rename_i should
      simp only [shouldPull, Bool.and_eq_true, Bool.or_eq_true, decide_eq_true_eq, List.isEmpty_iff] at should
      exact .inr ⟨should.2.elim sound.waits id, should.1.1.1⟩
    · exact .inl pulls
  empty := by simp

theorem idles_start (sound : stream.Sound) : Idles stream stream.start :=
  { @idles_callPullIfNeeded _ { stream with started := true } { sound with } with }

/-- Another pull begins where it was called for meanwhile. -/
theorem idles_pulled (sound : stream.Sound) : Idles { stream with pulling := false } stream.pulled := by
  unfold pulled
  split
  · exact { @idles_callPullIfNeeded _ { stream with pulling := false, pullAgain := false } { sound with } with }
  · exact ⟨{ sound with }, rfl, rfl, rfl, .inl, id⟩

theorem idles_read (sound : stream.Sound) : Idles stream stream.read := by
  unfold read
  split
  · rename_i readable
    have kept := sound.kept readable
    split
    · rename_i empty
      exact { @idles_callPullIfNeeded _ { stream with requests := stream.requests + 1 } { sound with waits := fun _ => empty } with }
    · rename_i chunk queue held
      have none_ : stream.requests = 0 := sound.idle (by rw [held]; exact List.cons_ne_nil _ _)
      rw [held] at kept
      rw [if_neg (by rw [sound.shut readable]; exact fun both => Bool.false_ne_true both.1)]
      have taken : Sound { stream with queue, delivered := stream.delivered ++ [chunk] } := { sound with
        waits := fun waiting => by
          rw [none_] at waiting
          cases waiting
        drained := fun ended => (ended readable).elim
        kept := fun _ => by
          rw [← kept, List.append_assoc]
          rfl
        passed := ⟨queue, by rw [← kept, List.append_assoc]; rfl⟩
        whole := fun closed => by cases readable.symm.trans closed }
      exact { idles_callPullIfNeeded taken with empty := fun none_ => by rw [held] at none_; cases none_ }
  · exact ⟨sound, rfl, rfl, rfl, .inl, id⟩

end ReadableStream

end Foundation
