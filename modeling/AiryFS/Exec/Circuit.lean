import AiryFS.Foundation.Runs

/-! The circuit breaker in front of the container, over any sequence of calls.

Times are milliseconds of one clock that does not go back. The circuit is not told which request
a result belongs to: requests are only there to say what it is not told.
-/

set_option autoImplicit false

namespace AiryFS

open Foundation

/-- The window and the cooldown in milliseconds. -/
structure ExecCircuitOptions where
  threshold : Nat
  windowMs : Nat
  cooldownMs : Nat
  cooldownPositive : 0 < cooldownMs

@[ext] structure ExecCircuit where
  failures : List Int
  openUntil : Int
  halfOpenClaimed : Bool
  halfOpenLeaseUntil : Int
  deriving DecidableEq, Repr

inductive CircuitState where
  | closed
  | opened
  | halfOpen
  deriving DecidableEq, Repr

structure ExecCircuitSnapshot where
  state : CircuitState
  failures : Nat
  retryAfterMs : Int
  deriving DecidableEq, Repr

namespace ExecCircuit

/-- The circuit of a new object. -/
def new : ExecCircuit := ⟨[], 0, false, 0⟩

section
variable (options : ExecCircuitOptions) (circuit : ExecCircuit) (now : Int)

def prune : ExecCircuit :=
  let cutoff := now - options.windowMs
  { circuit with failures := circuit.failures.filter fun timestamp => cutoff ≤ timestamp }

/-- `admit`: the retry delay, zero where this attempt is permitted. -/
def admitExec : Int × ExecCircuit :=
  let circuit := circuit.prune options now
  if circuit.openUntil > now then (circuit.openUntil - now, circuit)
  else if circuit.openUntil > 0 then
    if circuit.halfOpenClaimed && circuit.halfOpenLeaseUntil > now then (circuit.halfOpenLeaseUntil - now, circuit)
    else (0, { circuit with halfOpenClaimed := true, halfOpenLeaseUntil := now + options.cooldownMs })
  else (0, circuit)

def recordFailure : ExecCircuit :=
  let circuit := circuit.prune options now
  let failures := circuit.failures ++ [now]
  if circuit.halfOpenClaimed ∨ failures.length ≥ options.threshold then
    ⟨failures, now + options.cooldownMs, false, 0⟩
  else { circuit with failures }

def recordSuccess : ExecCircuit := if circuit.halfOpenClaimed then new else circuit

def snapshot : ExecCircuitSnapshot :=
  let circuit := circuit.prune options now
  { state := if circuit.openUntil > now then .opened else if circuit.openUntil > 0 then .halfOpen else .closed
    failures := circuit.failures.length
    retryAfterMs := max 0 (circuit.openUntil - now) }

end

end ExecCircuit

/-! ## Calls -/

inductive CircuitCall where
  | admitExec
  | success
  | failure
  deriving DecidableEq, Repr

structure CircuitEvent where
  time : Int
  request : Nat
  call : CircuitCall
  deriving DecidableEq, Repr

/-- The clock does not go back, and it started after 1970. -/
def Timely (events : List CircuitEvent) : Prop := (0 :: events.map (·.time)).Pairwise (· ≤ ·)

instance (events : List CircuitEvent) : Decidable (Timely events) := inferInstanceAs (Decidable (List.Pairwise _ _))

/-- The circuit, and what has happened to it. -/
structure CircuitWatch where
  circuit : ExecCircuit
  /-- The times of the failures since a probe last closed the circuit. -/
  history : List Int
  /-- When the circuit moved to open. -/
  openings : List Int
  /-- The requests that were admitted half-open, and when. -/
  probes : List (Nat × Int)
  /-- No result was recorded since the last of them. -/
  outstanding : Bool
  deriving DecidableEq, Repr

namespace CircuitWatch

def new : CircuitWatch := ⟨.new, [], [], [], false⟩

section
variable (options : ExecCircuitOptions) (watch : CircuitWatch) (now : Int)

def state : CircuitState := (watch.circuit.snapshot options now).state

/-- Failures within the window. -/
def recent : Nat := watch.history.countP fun timestamp => now - options.windowMs ≤ timestamp

/-- With another circuit in its place, the circuit moves to open. -/
def MovesToOpen (circuit : ExecCircuit) : Prop :=
  watch.state options now ≠ .opened ∧ (circuit.snapshot options now).state = .opened

instance (circuit : ExecCircuit) : Decidable (watch.MovesToOpen options now circuit) := inferInstanceAs (Decidable (_ ∧ _))

def step (event : CircuitEvent) : CircuitWatch :=
  match event.call with
  | .admitExec =>
    let (retryAfterMs, circuit) := watch.circuit.admitExec options event.time
    if retryAfterMs = 0 ∧ watch.state options event.time = .halfOpen then
      { watch with circuit, probes := watch.probes ++ [(event.request, event.time)], outstanding := true }
    else { watch with circuit }
  | .success =>
    let circuit := watch.circuit.recordSuccess
    if watch.outstanding then { watch with circuit, history := [], outstanding := false } else { watch with circuit }
  | .failure =>
    let circuit := watch.circuit.recordFailure options event.time
    { watch with
      circuit
      history := watch.history ++ [event.time]
      openings := if watch.MovesToOpen options event.time circuit then watch.openings ++ [event.time] else watch.openings
      outstanding := false }

/-- Two probes are a cooldown apart. -/
def Spaced : List (Nat × Int) → Prop := List.Pairwise fun earlier later => earlier.2 + (options.cooldownMs : Int) ≤ later.2

/-- What is asked of a call, where the result that it records is the probe's or is not. -/
structure Keeps (ofProbe : Prop) (event : CircuitEvent) : Prop where
  opens : watch.MovesToOpen options event.time (watch.step options event).circuit ↔
    event.call = .failure ∧ watch.state options event.time ≠ .opened ∧
      (ofProbe ∨ options.threshold ≤ watch.recent options event.time + 1)
  waits : event.call = .admitExec → (watch.circuit.admitExec options event.time).1 = 0 →
    ∀ opening ∈ watch.openings, opening + options.cooldownMs ≤ event.time
  leased : Spaced options (watch.step options event).probes
  closes : event.call = .success → ofProbe →
    (watch.step options event).state options event.time = .closed ∧ (watch.step options event).circuit.failures = []

end

/-! ## What the fields stand for -/

/-- From one moment on. -/
structure Tracks (options : ExecCircuitOptions) (watch : CircuitWatch) (clock : Int) : Prop where
  started : 0 ≤ clock
  failures : ∀ now, clock ≤ now → (watch.circuit.prune options now).failures =
    watch.history.filter fun timestamp => now - options.windowMs ≤ timestamp
  claimed : watch.circuit.halfOpenClaimed = watch.outstanding
  elapsed : watch.outstanding = true → 0 < watch.circuit.openUntil ∧ watch.circuit.openUntil ≤ clock
  lease : watch.outstanding = true →
    ∀ probe ∈ watch.probes, probe.2 + options.cooldownMs ≤ watch.circuit.halfOpenLeaseUntil
  rested : watch.outstanding = false → 0 < watch.circuit.openUntil →
    ∀ probe ∈ watch.probes, probe.2 + options.cooldownMs ≤ watch.circuit.openUntil
  past : ∀ probe ∈ watch.probes, probe.2 ≤ clock
  spaced : Spaced options watch.probes
  begun : ∀ opening ∈ watch.openings, opening ≤ clock
  opened : 0 < watch.circuit.openUntil → ∀ opening ∈ watch.openings, opening + options.cooldownMs ≤ watch.circuit.openUntil
  closed : ¬0 < watch.circuit.openUntil → ∀ opening ∈ watch.openings, opening + options.cooldownMs ≤ clock

namespace Tracks

variable {options : ExecCircuitOptions} {watch : CircuitWatch} {clock now : Int}

theorem new (options : ExecCircuitOptions) : Tracks options .new 0 where
  started := Int.le_refl 0
  failures _ _ := rfl
  claimed := rfl
  elapsed := nofun
  lease := nofun
  rested := nofun
  past := nofun
  spaced := .nil
  begun := nofun
  opened := nofun
  closed := nofun

theorem recent_eq (tracks : Tracks options watch clock) (later : clock ≤ now) :
    (watch.circuit.prune options now).failures.length = watch.recent options now := by
  rw [tracks.failures now later, recent, List.countP_eq_length_filter]

/-- Pruning once more, later, is pruning later. -/
theorem pruned (tracks : Tracks options watch clock) (later : clock ≤ now) (after : Int) (latest : now ≤ after) :
    ((watch.circuit.prune options now).prune options after).failures =
      watch.history.filter fun timestamp => after - options.windowMs ≤ timestamp := by
  have earlier := tracks.failures now later
  unfold ExecCircuit.prune at earlier ⊢
  dsimp only at earlier ⊢
  rw [earlier, List.filter_filter]
  apply List.filter_congr
  intro timestamp _
  simp only [Bool.and_eq_left_iff_imp, decide_eq_true_eq]
  omega

theorem mono (tracks : Tracks options watch clock) (later : clock ≤ now) : Tracks options watch now :=
  { tracks with
    started := by have := tracks.started; omega
    failures := fun after latest => tracks.failures after (by omega)
    elapsed := fun outstanding => ⟨(tracks.elapsed outstanding).1, by have := (tracks.elapsed outstanding).2; omega⟩
    past := fun probe member => Int.le_trans (tracks.past probe member) later
    begun := fun opening member => Int.le_trans (tracks.begun opening member) later
    closed := fun shut opening member => Int.le_trans (tracks.closed shut opening member) later }

theorem prune (tracks : Tracks options watch now) :
    Tracks options { watch with circuit := watch.circuit.prune options now } now :=
  { tracks with failures := tracks.pruned (Int.le_refl now) }

end Tracks

theorem state_opened (options : ExecCircuitOptions) (circuit : ExecCircuit) (now : Int) :
    (circuit.snapshot options now).state = .opened ↔ now < circuit.openUntil := by
  by_cases ahead : now < circuit.openUntil <;> by_cases set : 0 < circuit.openUntil <;>
    simp [ExecCircuit.snapshot, ExecCircuit.prune, ahead, set]

theorem state_halfOpen (options : ExecCircuitOptions) (circuit : ExecCircuit) (now : Int) :
    (circuit.snapshot options now).state = .halfOpen ↔ ¬now < circuit.openUntil ∧ 0 < circuit.openUntil := by
  by_cases ahead : now < circuit.openUntil <;> by_cases set : 0 < circuit.openUntil <;>
    simp [ExecCircuit.snapshot, ExecCircuit.prune, ahead, set]

/-! ## One call -/

/-- A request waits, or it is the probe, or it passes a closed circuit. -/
theorem admit_cases (options : ExecCircuitOptions) (circuit : ExecCircuit) (now : Int) :
    (∃ delay ≠ 0, circuit.admitExec options now = (delay, circuit.prune options now)) ∨
    ((¬now < circuit.openUntil ∧ 0 < circuit.openUntil) ∧
      (circuit.halfOpenClaimed = true → circuit.halfOpenLeaseUntil ≤ now) ∧ circuit.admitExec options now =
        (0, { circuit.prune options now with halfOpenClaimed := true, halfOpenLeaseUntil := now + options.cooldownMs })) ∨
    ((¬now < circuit.openUntil ∧ ¬0 < circuit.openUntil) ∧ circuit.admitExec options now = (0, circuit.prune options now)) := by
  by_cases ahead : now < circuit.openUntil
  · exact .inl ⟨circuit.openUntil - now, by omega, by simp [ExecCircuit.admitExec, ExecCircuit.prune, ahead]⟩
  by_cases set : 0 < circuit.openUntil
  · by_cases leased : circuit.halfOpenClaimed = true ∧ now < circuit.halfOpenLeaseUntil
    · refine .inl ⟨circuit.halfOpenLeaseUntil - now, by omega, ?_⟩
      simp [ExecCircuit.admitExec, ExecCircuit.prune, ahead, set, leased]
    · refine .inr (.inl ⟨⟨ahead, set⟩, fun claimed => by_contra fun early => leased ⟨claimed, by omega⟩, ?_⟩)
      simp [ExecCircuit.admitExec, ExecCircuit.prune, ahead, set, leased]
  · exact .inr (.inr ⟨⟨ahead, set⟩, by simp [ExecCircuit.admitExec, ExecCircuit.prune, ahead, set]⟩)

section
variable {options : ExecCircuitOptions} {watch : CircuitWatch} {event : CircuitEvent}

/-- A call that leaves the deadline where it is does not open the circuit. -/
theorem not_opens {circuit : ExecCircuit} (same : circuit.openUntil ≤ watch.circuit.openUntil) (now : Int) :
    ¬watch.MovesToOpen options now circuit := by
  intro moves
  have before := mt (state_opened options watch.circuit now).mpr moves.1
  have after := (state_opened options circuit now).mp moves.2
  omega

/-- Once the circuit is not open any more, the cooldown of every opening is over. -/
theorem Tracks.cooled {now : Int} (tracks : Tracks options watch now) (shut : ¬now < watch.circuit.openUntil) :
    ∀ opening ∈ watch.openings, opening + options.cooldownMs ≤ now := by
  intro opening member
  by_cases set : 0 < watch.circuit.openUntil
  · have := tracks.opened set opening member
    omega
  · exact tracks.closed set opening member

theorem step_admitExec (call : event.call = .admitExec) {delay : Int} {circuit : ExecCircuit}
    (admitted : watch.circuit.admitExec options event.time = (delay, circuit)) : watch.step options event =
      if delay = 0 ∧ watch.state options event.time = .halfOpen then
        { watch with circuit, probes := watch.probes ++ [(event.request, event.time)], outstanding := true }
      else { watch with circuit } := by
  unfold step
  simp only [call, admitted]

theorem admit_tracks (tracks : Tracks options watch event.time) (call : event.call = .admitExec) :
    Tracks options (watch.step options event) event.time := by
  have halfOpen := state_halfOpen options watch.circuit event.time
  rcases admit_cases options watch.circuit event.time with ⟨delay, waiting, admitted⟩ | ⟨half, ended, admitted⟩ | ⟨shut, admitted⟩
  · rw [step_admitExec call admitted, if_neg fun both => waiting both.1]
    exact tracks.prune
  · rw [step_admitExec call admitted, if_pos ⟨rfl, halfOpen.mpr half⟩]
    -- The probe before it was admitted a cooldown ago, or its result has opened the circuit since.
    have apart : ∀ probe ∈ watch.probes, probe.2 + (options.cooldownMs : Int) ≤ event.time := by
      intro probe member
      cases outstanding : watch.outstanding with
      | true =>
        have lease := tracks.lease outstanding probe member
        have past := ended (tracks.claimed.trans outstanding)
        omega
      | false =>
        have rested := tracks.rested outstanding half.2 probe member
        omega
    exact {
      started := tracks.started
      failures := tracks.prune.failures
      claimed := rfl
      elapsed := fun _ => ⟨half.2, Int.not_lt.mp half.1⟩
      lease := by
        intro _ probe member
        rcases List.mem_append.mp member with earlier | own
        · have := apart probe earlier
          have := options.cooldownPositive
          change _ ≤ event.time + (options.cooldownMs : Int)
          omega
        · cases List.mem_singleton.mp own
          exact Int.le_refl _
      rested := nofun
      past := by
        intro probe member
        rcases List.mem_append.mp member with earlier | own
        · exact tracks.past probe earlier
        · cases List.mem_singleton.mp own
          exact Int.le_refl _
      spaced := by
        refine List.pairwise_append.mpr ⟨tracks.spaced, List.pairwise_singleton _ _, ?_⟩
        intro earlier member later own
        rw [List.mem_singleton.mp own]
        exact apart earlier member
      begun := tracks.begun
      opened := tracks.opened
      closed := tracks.closed }
  · rw [step_admitExec call admitted, if_neg fun both => shut.2 (halfOpen.mp both.2).2]
    exact tracks.prune

theorem admit_keeps (tracks : Tracks options watch event.time) (call : event.call = .admitExec) {ofProbe : Prop} :
    watch.Keeps options ofProbe event := by
  have shut : ¬event.call = .failure := by rw [call]; decide
  have stepped : (watch.step options event).circuit = (watch.circuit.admitExec options event.time).2 := by
    rw [step_admitExec call rfl, apply_ite CircuitWatch.circuit]
    exact ite_self _
  constructor
  · rw [stepped]
    refine iff_of_false (not_opens ?_ _) fun opens => shut opens.1
    rcases admit_cases options watch.circuit event.time with ⟨delay, waiting, admitted⟩ | ⟨half, ended, admitted⟩ | ⟨shut, admitted⟩
    · rw [admitted]
      exact Int.le_refl _
    · rw [admitted]
      exact Int.le_refl _
    · rw [admitted]
      exact Int.le_refl _
  · intro _ passed
    rcases admit_cases options watch.circuit event.time with ⟨delay, waiting, admitted⟩ | ⟨half, ended, admitted⟩ | ⟨shut, admitted⟩
    · rw [admitted] at passed
      exact absurd passed waiting
    · exact tracks.cooled half.1
    · exact tracks.cooled shut.1
  · exact (admit_tracks tracks call).spaced
  · intro success
    rw [call] at success
    cases success

theorem success_tracks (tracks : Tracks options watch event.time) (call : event.call = .success) :
    Tracks options (watch.step options event) event.time := by
  have claimed := tracks.claimed
  unfold step ExecCircuit.recordSuccess
  cases outstanding : watch.outstanding with
  | true =>
    have elapsed := tracks.elapsed outstanding
    simp only [call, claimed, outstanding, if_true]
    exact {
      started := tracks.started
      failures := fun _ _ => rfl
      claimed := rfl
      elapsed := nofun
      lease := nofun
      rested := fun _ set => absurd set (Int.lt_irrefl 0)
      past := tracks.past
      spaced := tracks.spaced
      begun := tracks.begun
      opened := fun set => absurd set (Int.lt_irrefl 0)
      closed := fun _ => tracks.cooled (by omega) }
  | false =>
    simp only [call, claimed, outstanding, Bool.false_eq_true, if_false]
    rw [← outstanding]
    exact tracks

theorem success_keeps (tracks : Tracks options watch event.time) (call : event.call = .success) :
    watch.Keeps options (watch.outstanding = true) event := by
  have shut : ¬event.call = .failure := by rw [call]; decide
  have claimed := tracks.claimed
  have started := tracks.started
  have stepped : (watch.step options event).circuit = if watch.outstanding then .new else watch.circuit := by
    unfold step ExecCircuit.recordSuccess
    cases outstanding : watch.outstanding <;> simp [call, claimed, outstanding]
  constructor
  · rw [stepped]
    refine iff_of_false ?_ fun opens => shut opens.1
    split
    · intro moves
      have ahead := (state_opened options .new event.time).mp moves.2
      change event.time < 0 at ahead
      omega
    · exact not_opens (Int.le_refl _) _
  · intro admitExec
    rw [call] at admitExec
    cases admitExec
  · exact (success_tracks tracks call).spaced
  · intro _ outstanding
    rw [state, stepped, if_pos outstanding]
    refine ⟨?_, rfl⟩
    simpa [ExecCircuit.snapshot, ExecCircuit.prune, ExecCircuit.new] using started

/-- A failure opens the circuit for a cooldown, or is only counted. -/
theorem recordFailure_eq (tracks : Tracks options watch event.time) : watch.circuit.recordFailure options event.time =
    if watch.outstanding = true ∨ options.threshold ≤ watch.recent options event.time + 1 then
      ⟨(watch.circuit.prune options event.time).failures ++ [event.time], event.time + options.cooldownMs, false, 0⟩
    else { watch.circuit with failures := (watch.circuit.prune options event.time).failures ++ [event.time] } := by
  rw [ExecCircuit.recordFailure]
  simp only [List.length_append, List.length_singleton, tracks.recent_eq (Int.le_refl _), ge_iff_le]
  rw [← tracks.claimed]
  rfl

theorem failure_tracks (tracks : Tracks options watch event.time) (call : event.call = .failure) :
    Tracks options (watch.step options event) event.time := by
  have failures := tracks.pruned (Int.le_refl event.time)
  have started := tracks.started
  have positive := options.cooldownPositive
  have counted : ∀ now, event.time ≤ now → ∀ rest : ExecCircuit,
      rest.failures = (watch.circuit.prune options event.time).failures ++ [event.time] →
      (rest.prune options now).failures = (watch.history ++ [event.time]).filter fun timestamp => now - options.windowMs ≤ timestamp := by
    intro now later rest same
    rw [List.filter_append, ← failures now later, ExecCircuit.prune, same]
    exact List.filter_append _ _
  have result := recordFailure_eq tracks
  unfold step
  simp only [call]
  rw [result]
  split
  · -- The circuit is open for a cooldown from now on, whatever it was before.
    have begun : ∀ opening ∈ (if watch.MovesToOpen options event.time ⟨(watch.circuit.prune options event.time).failures ++
        [event.time], event.time + options.cooldownMs, false, 0⟩ then watch.openings ++ [event.time] else watch.openings),
        opening ≤ event.time := by
      intro opening member
      split at member
      · rcases List.mem_append.mp member with earlier | own
        · exact tracks.begun opening earlier
        · cases List.mem_singleton.mp own
          exact Int.le_refl _
      · exact tracks.begun opening member
    exact {
      started
      failures := fun now later => counted now later _ rfl
      claimed := rfl
      elapsed := nofun
      lease := nofun
      rested := by
        intro _ _ probe member
        have := tracks.past probe member
        change _ ≤ event.time + (options.cooldownMs : Int)
        omega
      past := tracks.past
      spaced := tracks.spaced
      begun
      opened := by
        intro _ opening member
        change _ ≤ event.time + (options.cooldownMs : Int)
        have := begun opening member
        omega
      closed := fun shut => absurd (show 0 < event.time + (options.cooldownMs : Int) by omega) shut }
  · rename_i few
    have unclaimed : watch.outstanding = false := by simpa using fun outstanding => few (.inl outstanding)
    have quiet : ∀ failures, ¬watch.MovesToOpen options event.time { watch.circuit with failures } :=
      fun _ => not_opens (Int.le_refl _) _
    simp only [quiet, if_false]
    exact {
      started
      failures := fun now later => counted now later _ rfl
      claimed := tracks.claimed.trans unclaimed
      elapsed := nofun
      lease := nofun
      rested := fun _ => tracks.rested unclaimed
      past := tracks.past
      spaced := tracks.spaced
      begun := tracks.begun
      opened := tracks.opened
      closed := tracks.closed }

theorem failure_keeps (tracks : Tracks options watch event.time) (call : event.call = .failure) :
    watch.Keeps options (watch.outstanding = true) event := by
  have positive := options.cooldownPositive
  have stepped : (watch.step options event).circuit = watch.circuit.recordFailure options event.time := by
    unfold step
    simp only [call]
  constructor
  · rw [stepped, recordFailure_eq tracks]
    split
    · rename_i counts
      constructor
      · exact fun moves => ⟨call, moves.1, counts⟩
      · intro ⟨_, shut, _⟩
        refine ⟨shut, (state_opened options _ event.time).mpr ?_⟩
        change event.time < event.time + (options.cooldownMs : Int)
        omega
    · rename_i few
      exact iff_of_false (not_opens (Int.le_refl _) _) fun opens => few opens.2.2
  · intro admitExec
    rw [call] at admitExec
    cases admitExec
  · exact (failure_tracks tracks call).spaced
  · intro success
    rw [call] at success
    cases success

theorem step_tracks {clock : Int} (tracks : Tracks options watch clock) (later : clock ≤ event.time) :
    Tracks options (watch.step options event) event.time ∧ watch.Keeps options (watch.outstanding = true) event := by
  have now := tracks.mono later
  cases call : event.call with
  | admitExec => exact ⟨admit_tracks now call, admit_keeps now call⟩
  | success => exact ⟨success_tracks now call, success_keeps now call⟩
  | failure => exact ⟨failure_tracks now call, failure_keeps now call⟩

end

/-! ## Any sequence of calls -/

section
variable (options : ExecCircuitOptions)

def after (events : List CircuitEvent) : CircuitWatch := run (fun watch event => watch.step options event) .new events

theorem Timely.concat {events : List CircuitEvent} {event : CircuitEvent} (timely : Timely (events ++ [event])) :
    Timely events ∧ 0 ≤ event.time ∧ ∀ earlier ∈ events, earlier.time ≤ event.time := by
  unfold Timely at timely ⊢
  rw [List.map_append, ← List.cons_append, List.pairwise_append] at timely
  obtain ⟨before, -, between⟩ := timely
  refine ⟨before, between 0 List.mem_cons_self event.time (by simp), ?_⟩
  exact fun earlier member => between earlier.time (List.mem_cons_of_mem _ (List.mem_map_of_mem member)) event.time (by simp)

/-- The fields stand for what happened up to the last call. -/
theorem after_tracks (events : List CircuitEvent) (timely : Timely events) :
    Tracks options (after options events) ((events.getLast?.map (·.time)).getD 0) := by
  induction events using List.reverseRecOn with
  | nil => exact .new options
  | append_singleton events event ih =>
    obtain ⟨before, started, between⟩ := Timely.concat timely
    rw [after, run_concat, List.getLast?_concat]
    refine (step_tracks (ih before) ?_).1
    cases last : events.getLast? with
    | none => exact started
    | some earlier => exact between earlier (List.mem_of_getLast? last)

end

end CircuitWatch

open CircuitWatch in
/-- Whatever is recorded while a probe is outstanding counts as the result of the probe. -/
theorem circuit_breaks (options : ExecCircuitOptions) (events : List CircuitEvent) (event : CircuitEvent)
    (timely : Timely (events ++ [event])) :
    (after options events).Keeps options ((after options events).outstanding = true) event := by
  obtain ⟨before, started, between⟩ := Timely.concat timely
  refine (step_tracks (after_tracks options events before) ?_).2
  cases last : events.getLast? with
  | none => exact started
  | some earlier => exact between earlier (List.mem_of_getLast? last)

/-- As in the tests, with a threshold of two. -/
def sampleOptions : ExecCircuitOptions := ⟨2, 100, 50, by decide⟩

/-- Three requests are admitted, and two of them fail. The probe is out when the third one fails. -/
def lateFailure : List CircuitEvent :=
  [⟨1000, 1, .admitExec⟩, ⟨1000, 2, .admitExec⟩, ⟨1000, 3, .admitExec⟩, ⟨1000, 1, .failure⟩, ⟨1000, 2, .failure⟩, ⟨1200, 4, .admitExec⟩]

def lateEvent : CircuitEvent := ⟨1210, 3, .failure⟩

open CircuitWatch in
theorem circuit_breaks_lateFailure :
    (after sampleOptions lateFailure).Keeps sampleOptions ((after sampleOptions lateFailure).outstanding = true) lateEvent :=
  circuit_breaks sampleOptions lateFailure lateEvent (by decide)

open CircuitWatch in
/-- The failure of a request that is no probe opens the circuit, with one failure in the window. -/
theorem lateFailure_opens : Timely (lateFailure ++ [lateEvent]) ∧
    (∀ probe ∈ (after sampleOptions lateFailure).probes, probe.1 ≠ lateEvent.request) ∧
    ¬(after sampleOptions lateFailure).Keeps sampleOptions
      (∃ probe ∈ (after sampleOptions lateFailure).probes, probe.1 = lateEvent.request) lateEvent := by
  refine ⟨by decide, by decide, ?_⟩
  intro keeps
  have moves := keeps.opens.mp (by decide)
  revert moves
  decide

end AiryFS
