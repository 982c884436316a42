import AiryFS.Container.CommandServer
import AiryFS.Foundation.Runs
import Mathlib.Data.List.Nodup

/-! One command at a time, as long as nobody takes the slot from a running one.

The slot names the running process and nothing else. Callbacks of older commands compare the
slot with their own command first, so only a request that takes the slot late can break this.
-/

set_option autoImplicit false

namespace AiryFS

open Foundation

namespace CommandServer

variable {state : CommandServer}

/-- At most one process runs, and the slot is that process, or empty when none runs. -/
structure Exclusive (state : CommandServer) : Prop where
  single : ∀ first ∈ state.processes, first.running = true → ∀ second ∈ state.processes, second.running = true →
    first = second
  named : ∀ execution ∈ state.active, ∃ process ∈ state.processes, process.running = true ∧
    process.number = execution.process ∧ process.id = execution.id
  owned : ∀ process ∈ state.processes, process.running = true → state.active = some ⟨process.id, process.number⟩

/-- A cancel request changes no process but one with the identifier that it carries. -/
def Targeted (state : CommandServer) : Prop :=
  ∀ id, ∀ process ∈ (state.cancel id).processes, process ∈ state.processes ∨ id = some (some process.id)

/-- Whether the request, when its body has been read, starts a process. -/
def starts (state : CommandServer) (number : Nat) (body : Body) (spawn : Spawn) : Bool :=
  match state.requests.find? fun request => request.number = number with
  | none => false
  | some request =>
    match parseBody request.endpoint body with
    | .ok _ => spawn ≠ .throws
    | .error _ => false

/-- A command that is about to be started finds the slot empty. -/
def freeSlot (state : CommandServer) : Action → Bool
  | .body number body _ spawn => !state.starts number body spawn || state.active.isNone
  | _ => true

/-! ## Numbers -/

/-- Processes are told apart by their numbers, and the slot names one that was started. -/
structure Numbered (state : CommandServer) : Prop where
  unique : (state.processes.map Process.number).Nodup
  recent : ∀ process ∈ state.processes, process.number < state.started
  known : ∀ execution ∈ state.active, ∃ process ∈ state.processes, process.number = execution.process ∧
    process.id = execution.id

/-- A change that leaves alone what the slot is about. -/
def Keeps (change : Process → Process) : Prop :=
  ∀ process, (change process).number = process.number ∧ (change process).id = process.id ∧
    (change process).running = process.running

theorem terminate_keeps : Keeps Process.terminate := by
  intro process
  unfold Process.terminate
  cases process.endpoint with
  | exec => exact ⟨rfl, rfl, rfl⟩
  | execStream => dsimp only; split <;> exact ⟨rfl, rfl, rfl⟩
  | pty => exact ⟨rfl, rfl, rfl⟩

theorem escalate_keeps : Keeps Process.escalate := by
  intro process
  unfold Process.escalate
  split <;> exact ⟨rfl, rfl, rfl⟩

theorem mem_updateProcess {number : Nat} {change : Process → Process} {process : Process} :
    process ∈ (state.updateProcess number change).processes ↔
      ∃ old ∈ state.processes, process = if old.number = number then change old else old := by
  simp only [updateProcess, List.mem_map, eq_comm]

theorem numbers_updateProcess {number : Nat} {change : Process → Process}
    (same : ∀ process, (change process).number = process.number) :
    (state.updateProcess number change).processes.map Process.number = state.processes.map Process.number := by
  rw [updateProcess, List.map_map]
  apply List.map_congr_left
  intro process _
  rw [Function.comp_apply]
  split
  · exact same process
  · rfl

theorem Numbered.update (numbered : state.Numbered) {number : Nat} {change : Process → Process} {active : Option ActiveCommand}
    (same : ∀ process, (change process).number = process.number ∧ (change process).id = process.id)
    (fewer : ∀ execution ∈ active, execution ∈ state.active) :
    Numbered { state.updateProcess number change with active } := by
  have keeps : ∀ old : Process, (if old.number = number then change old else old).number = old.number ∧
      (if old.number = number then change old else old).id = old.id := by
    intro old
    split
    · exact same old
    · exact ⟨rfl, rfl⟩
  constructor
  · change ((state.updateProcess number change).processes.map Process.number).Nodup
    rw [numbers_updateProcess fun process => (same process).1]
    exact numbered.unique
  · intro process member
    obtain ⟨old, listed, rfl⟩ := mem_updateProcess.mp member
    rw [(keeps old).1]
    exact numbered.recent old listed
  · intro execution active
    obtain ⟨process, member, named, identified⟩ := numbered.known execution (fewer execution active)
    refine ⟨_, mem_updateProcess.mpr ⟨process, member, rfl⟩, ?_, ?_⟩
    · rw [(keeps process).1, named]
    · rw [(keeps process).2, identified]

theorem Numbered.start (numbered : state.Numbered) (request : Nat) (endpoint : Endpoint) (id : Text) (spawned : Bool) :
    (state.startProcess request endpoint id spawned).Numbered := by
  constructor
  · change ((state.processes ++ [_]).map Process.number).Nodup
    rw [List.map_append, List.nodup_append]
    refine ⟨numbered.unique, List.nodup_singleton _, ?_⟩
    intro number listed fresh last
    obtain ⟨process, member, rfl⟩ := List.mem_map.mp listed
    rw [List.map_singleton, List.mem_singleton] at last
    rw [last]
    exact Nat.ne_of_lt (numbered.recent process member)
  · intro process member
    rcases List.mem_append.mp member with old | new
    · exact Nat.lt_succ_of_lt (numbered.recent process old)
    · rw [List.mem_singleton.mp new]
      exact Nat.lt_succ_self _
  · intro execution active
    cases active
    exact ⟨_, List.mem_append_right _ (List.mem_singleton_self _), rfl, rfl⟩

/-- A state that differs in neither processes nor slot. -/
theorem Numbered.of_eq (numbered : state.Numbered) {state' : CommandServer} (processes : state'.processes = state.processes)
    (active : state'.active = state.active) (started : state'.started = state.started) : state'.Numbered := by
  constructor
  · rw [processes]
    exact numbered.unique
  · rw [processes, started]
    exact numbered.recent
  · rw [processes, active]
    exact numbered.known

/-! ## Cancelling -/

theorem Numbered.targeted (numbered : state.Numbered) : state.Targeted := by
  intro id process member
  unfold cancel at member
  dsimp only at member
  split at member
  · split at member
    · exact .inl member
    · split at member
      · rename_i execution active
        split at member
        · rename_i same
          obtain ⟨old, listed, rfl⟩ := mem_updateProcess.mp member
          split
          · rename_i named
            right
            -- The process of the slot is the one with the slot's number.
            obtain ⟨owner, owns, number, identified⟩ := numbered.known execution active
            have equal : old = owner := List.inj_on_of_nodup_map numbered.unique listed owns (named.trans number.symm)
            rw [(terminate_keeps old).2.1, equal, identified, same]
          · exact .inl listed
        · exact .inl member
      · exact .inl member
  · exact .inl member

/-! ## What a step does -/

/-- The slot and the processes after a step, whatever else it does. -/
inductive Effect (state state' : CommandServer) (free : Bool) : Prop where
  | none (processes : state'.processes = state.processes) (active : state'.active = state.active)
      (started : state'.started = state.started)
  | updated (number : Nat) (change : Process → Process) (keeps : Keeps change)
      (processes : state'.processes = (state.updateProcess number change).processes)
      (active : state'.active = state.active) (started : state'.started = state.started)
  | finished (process : Process) (member : process ∈ state.processes) (running : process.running = true)
      (processes : state'.processes = (state.updateProcess process.number Process.ended).processes)
      (active : state'.active = state.active.filter fun execution => execution.process ≠ process.number)
      (started : state'.started = state.started)
  | start (request : Nat) (endpoint : Endpoint) (id : Text) (spawned : Bool)
      (processes : state'.processes = (state.startProcess request endpoint id spawned).processes)
      (active : state'.active = (state.startProcess request endpoint id spawned).active)
      (started : state'.started = state.started + 1) (empty : free = true → state.active = .none)

theorem receive_effect (endpoint : Endpoint) (free : Bool) : Effect state (state.receive endpoint) free := by
  unfold receive
  dsimp only
  split
  · exact .none rfl rfl rfl
  · split
    · exact .none rfl rfl rfl
    · exact .none rfl rfl rfl

theorem continueRequest_effect {number : Nat} {request : PendingRequest} {body : Body} {generated : Text} {spawn : Spawn}
    (found : state.requests.find? (fun request => request.number = number) = some request) :
    Effect state (state.continueRequest request body generated spawn) (state.freeSlot (.body number body generated spawn)) := by
  have taken : ∀ command, parseBody request.endpoint body = .ok command → spawn ≠ .throws →
      state.freeSlot (.body number body generated spawn) = true → state.active = .none := by
    intro command parsed spawns free
    rw [freeSlot, starts, found] at free
    dsimp only at free
    rw [parsed] at free
    simpa [spawns] using free
  unfold continueRequest
  cases parsed : parseBody request.endpoint body with
  | error message => exact .none rfl rfl rfl
  | ok command =>
    have started : spawn ≠ .throws → Effect state
        (if request.endpoint = .execStream then
          (({ state with requests := state.requests.erase request } : CommandServer).startProcess request.number
            request.endpoint (command.id.getD generated) (spawn = .process)).respond request.number
              (.start (command.id.getD generated))
        else ({ state with requests := state.requests.erase request } : CommandServer).startProcess request.number
          request.endpoint (command.id.getD generated) (spawn = .process))
        (state.freeSlot (.body number body generated spawn)) := by
      intro spawns
      split
      · exact .start request.number request.endpoint _ _ rfl rfl rfl (taken command parsed spawns)
      · exact .start request.number request.endpoint _ _ rfl rfl rfl (taken command parsed spawns)
    cases spawn with
    | throws => exact .none rfl rfl rfl
    | process => exact started nofun
    | failed => exact started nofun

theorem connect_effect (generated : Text) (spawn : Spawn) (free : Bool) : Effect state (state.connect generated spawn) free := by
  unfold connect
  dsimp only
  split
  · exact .none rfl rfl rfl
  · rename_i idle
    split
    · exact .start state.received .pty generated true rfl rfl rfl fun _ => by simpa using idle
    · exact .none rfl rfl rfl

theorem cancel_effect (id : Option (Option Text)) (free : Bool) : Effect state (state.cancel id) free := by
  unfold cancel
  dsimp only
  split
  · split
    · exact .none rfl rfl rfl
    · split
      · rename_i execution active
        split
        · exact .updated execution.process Process.terminate terminate_keeps rfl rfl rfl
        · exact .none rfl rfl rfl
      · exact .none rfl rfl rfl
  · exact .none rfl rfl rfl

/-- Only the completion of a process and the start of one touch the slot. -/
theorem step_effect (action : Action) : Effect state (state.step action) (state.freeSlot action) := by
  have running : ∀ {number : Nat} {process : Process}, state.runningProcess number = some process →
      process ∈ state.processes ∧ process.running = true := by
    intro number process found
    refine ⟨List.mem_of_find?_eq_some found, ?_⟩
    have chosen := List.find?_some found
    rw [Bool.and_eq_true] at chosen
    exact chosen.2
  have unchanged : ∀ free, Effect state state free := fun _ => .none rfl rfl rfl
  cases action with
  | receive streaming => exact receive_effect _ _
  | body number body generated spawn =>
    dsimp only [step]
    split
    · exact unchanged _
    · rename_i request found
      exact continueRequest_effect found
  | abort number => exact .none rfl rfl rfl
  | connect generated spawn => exact connect_effect generated spawn _
  | cancel id => exact cancel_effect id _
  | disconnect number =>
    change Effect state ((state.runningProcess number).elim state state.disconnect) _
    cases state.runningProcess number with
    | none => exact unchanged _
    | some process =>
      rw [Option.elim_some, disconnect]
      split
      · exact unchanged _
      · exact .updated process.number Process.terminate terminate_keeps rfl rfl rfl
  | timeout number =>
    change Effect state ((state.runningProcess number).elim state state.timeout) _
    cases state.runningProcess number with
    | none => exact unchanged _
    | some process =>
      rw [Option.elim_some, timeout]
      split
      · exact .updated process.number Process.terminate terminate_keeps rfl rfl rfl
      · exact .updated process.number Process.expire (fun other => terminate_keeps other) rfl rfl rfl
      · exact unchanged _
  | escalate number => exact .updated number Process.escalate escalate_keeps rfl rfl rfl
  | signal number signal =>
    dsimp only [step]
    split
    · exact unchanged _
    · split
      · exact .updated number (Process.signal signal) (fun process => ⟨rfl, rfl, rfl⟩) rfl rfl rfl
      · exact unchanged _
  | exit number ending =>
    change Effect state ((state.runningProcess number).elim state fun found => state.finish found ending) _
    cases found : state.runningProcess number with
    | none => exact unchanged _
    | some process =>
      obtain ⟨member, runs⟩ := running found
      exact .finished process member runs rfl rfl rfl
  | environment mounted fuseDaemonError => exact .none rfl rfl rfl

/-! ## Runs -/

/-- What holds after every step of a run. -/
structure Sound (state : CommandServer) : Prop extends state.Numbered where
  named : ∀ execution ∈ state.active, ∃ process ∈ state.processes, process.running = true ∧
    process.number = execution.process ∧ process.id = execution.id
  owned : ∀ process ∈ state.processes, process.running = true → state.active = some ⟨process.id, process.number⟩

theorem Sound.exclusive (sound : state.Sound) : state.Exclusive := by
  refine ⟨?_, sound.named, sound.owned⟩
  intro first member runs second beside also
  have same := (sound.owned first member runs).symm.trans (sound.owned second beside also)
  have number : first.number = second.number := congrArg ActiveCommand.process (Option.some.inj same)
  exact List.inj_on_of_nodup_map sound.unique member beside number

theorem Sound.initial : CommandServer.initial.Sound := ⟨⟨List.nodup_nil, nofun, nofun⟩, nofun, nofun⟩

theorem Numbered.effect {state' : CommandServer} {free : Bool} (numbered : state.Numbered) (effect : Effect state state' free) :
    state'.Numbered := by
  cases effect with
  | none processes active started => exact numbered.of_eq processes active started
  | updated number change keeps processes active started =>
    have updated : Numbered { state.updateProcess number change with active := state.active } :=
      numbered.update (fun process => ⟨(keeps process).1, (keeps process).2.1⟩) fun execution taken => taken
    exact updated.of_eq processes active started
  | finished process member running processes active started =>
    have fewer : ∀ execution ∈ state.active.filter fun execution => execution.process ≠ process.number,
        execution ∈ state.active := fun execution taken => (Option.mem_filter_iff.mp taken).1
    have updated : Numbered { state.updateProcess process.number Process.ended with
        active := state.active.filter fun execution => execution.process ≠ process.number } :=
      numbered.update (fun process => ⟨rfl, rfl⟩) fewer
    exact updated.of_eq processes active started
  | start request endpoint id spawned processes active started empty =>
    exact (numbered.start request endpoint id spawned).of_eq processes active started

theorem Sound.effect {state' : CommandServer} (sound : state.Sound) (effect : Effect state state' true) : state'.Sound := by
  refine ⟨sound.toNumbered.effect effect, ?_, ?_⟩
  · -- Whatever the slot names after the step is running.
    intro execution taken
    cases effect with
    | none processes active started =>
      rw [processes]
      exact sound.named execution (active ▸ taken)
    | updated number change keeps processes active started =>
      obtain ⟨process, member, running, named, identified⟩ := sound.named execution (active ▸ taken)
      rw [processes]
      refine ⟨_, mem_updateProcess.mpr ⟨process, member, rfl⟩, ?_⟩
      split
      · rw [(keeps process).1, (keeps process).2.1, (keeps process).2.2]
        exact ⟨running, named, identified⟩
      · exact ⟨running, named, identified⟩
    | finished process member running processes active started =>
      -- The process that ends is the one that runs, so its slot is emptied.
      rw [active, sound.owned process member running] at taken
      obtain ⟨named, different⟩ := Option.mem_filter_iff.mp taken
      cases named
      simp at different
    | start request endpoint id spawned processes active started empty =>
      rw [active] at taken
      cases taken
      rw [processes]
      exact ⟨_, List.mem_append_right _ (List.mem_singleton_self _), rfl, rfl, rfl⟩
  · -- Whatever runs after the step has the slot.
    intro process member running
    cases effect with
    | none processes active started =>
      rw [active]
      exact sound.owned process (processes ▸ member) running
    | updated number change keeps processes active started =>
      rw [processes] at member
      obtain ⟨old, listed, rfl⟩ := mem_updateProcess.mp member
      rw [active]
      split at running
      · rename_i named
        rw [(keeps old).2.2] at running
        rw [if_pos named, (keeps old).1, (keeps old).2.1]
        exact sound.owned old listed running
      · rename_i other
        rw [if_neg other]
        exact sound.owned old listed running
    | finished found known runs processes active started =>
      rw [processes] at member
      obtain ⟨old, listed, rfl⟩ := mem_updateProcess.mp member
      split at running
      · cases running
      · rename_i other
        exact absurd (congrArg Process.number (sound.exclusive.single old listed running found known runs)) other
    | start request endpoint id spawned processes active started empty =>
      rw [processes] at member
      rw [active]
      rcases List.mem_append.mp member with old | new
      · have taken := sound.owned process old running
        rw [empty rfl] at taken
        cases taken
      · rw [List.mem_singleton.mp new]
        rfl

/-- As long as every command that is started finds the slot empty, one process runs at a time
and has the slot; and no cancel request ever touches a command of another identifier. -/
theorem oneCommand {actions reached : List Action} (earlier : reached <+: actions)
    (free : Guarded step (fun state action => state.freeSlot action = true) initial actions) :
    (run step initial reached).Exclusive ∧ (run step initial reached).Targeted := by
  have sound : (run step initial reached).Sound := by
    apply run_invariant_reached _ Sound.initial free earlier
    intro state action sound allowed
    have effect := @step_effect state action
    rw [allowed] at effect
    exact sound.effect effect
  exact ⟨sound.exclusive, sound.toNumbered.targeted⟩

def lsBody : Body := .object (some (some "ls".toList)) none .absent

/-- A streaming command that is cancelled and ends, then a buffered one. -/
def twoInTurn : List Action :=
  [.receive true, .body 0 (.object (some (some "cat".toList)) (some (some "a".toList)) .absent) "x".toList .process,
    .cancel (some (some "a".toList)), .exit 0 ⟨none, some "SIGTERM", 15, [], []⟩, .receive false,
    .body 2 lsBody "buffered-1".toList .process]

theorem oneCommand_twoInTurn : (run step initial twoInTurn).Exclusive ∧ (run step initial twoInTurn).Targeted :=
  oneCommand (List.prefix_refl twoInTurn) (by decide)

/-- Two requests that both look at the slot before either has read its body. -/
def twoAtOnce : List Action :=
  [.receive false, .receive false, .body 0 lsBody "buffered-1".toList .process, .body 1 lsBody "buffered-2".toList .process]

theorem twoAtOnce_overlap : ¬(run step initial twoAtOnce).Exclusive := by
  intro exclusive
  have both : ∃ first ∈ (run step initial twoAtOnce).processes, ∃ second ∈ (run step initial twoAtOnce).processes,
      first.running = true ∧ second.running = true ∧ first ≠ second := by
    decide
  obtain ⟨first, member, second, beside, runs, also, different⟩ := both
  exact different (exclusive.single first member runs second beside also)

end CommandServer

end AiryFS
