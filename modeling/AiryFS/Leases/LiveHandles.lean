import AiryFS.Foundation.Runs
import AiryFS.Storage.Values
import Mathlib.Data.List.Nodup

/-! The heartbeat of a mount that leases its open handles, against the clock.

Times are milliseconds of one clock. A handle is leased when it is opened, and an attempt of
the heartbeat extends the leases of the handles that were open when it began. The mount exits
when attempts have failed for too long, but it only looks when an attempt is answered.
-/

set_option autoImplicit false

namespace AiryFS

open Foundation

namespace LeaseHeartbeat

/-! ## Settings -/

def LEASE_TTL : Nat := 120
def LEASE_HEARTBEAT : Nat := 10
def LEASE_FAILURE_ABORT : Nat := 60

/-- `value.parse::<u64>().ok()`. -/
def parseU64 (text : Text) : Option Nat :=
  let digits := if text.head? = some '+' then text.tail else text
  if digits = [] ∨ ¬digits.all Char.isDigit then none
  else
    let value := digits.foldl (fun value digit => value * 10 + (digit.toNat - '0'.toNat)) 0
    if value < 2 ^ 64 then some value else none

/-- In seconds. -/
def durationFromEnv (value : Option Text) (default : Nat) : Nat :=
  ((value.bind parseU64).filter fun secs => 0 < secs).getD default

/-- Durations in seconds, none of them zero. -/
structure Settings where
  leaseTtl : Nat
  leaseHeartbeat : Nat
  leaseFailureAbort : Nat
  ttlPositive : 0 < leaseTtl
  heartbeatPositive : 0 < leaseHeartbeat
  abortPositive : 0 < leaseFailureAbort

theorem durationFromEnv_pos (value : Option Text) {default : Nat} (positive : 0 < default) :
    0 < durationFromEnv value default := by
  unfold durationFromEnv
  cases parsed : (value.bind parseU64).filter fun secs => 0 < secs with
  | none => exact positive
  | some secs => exact of_decide_eq_true (Option.mem_filter_iff.mp parsed).2

def Settings.fromEnv (env : String → Option Text) : Settings where
  leaseTtl := durationFromEnv (env "AGENTFS_LEASE_TTL_SECS") LEASE_TTL
  leaseHeartbeat := durationFromEnv (env "AGENTFS_LEASE_HEARTBEAT_SECS") LEASE_HEARTBEAT
  leaseFailureAbort := durationFromEnv (env "AGENTFS_LEASE_FAILURE_ABORT_SECS") LEASE_FAILURE_ABORT
  ttlPositive := durationFromEnv_pos _ (by decide)
  heartbeatPositive := durationFromEnv_pos _ (by decide)
  abortPositive := durationFromEnv_pos _ (by decide)

/-- The abort window of `mount`, in milliseconds: at most half the TTL. -/
def Settings.failureAbort (settings : Settings) : Nat := min (settings.leaseFailureAbort * 1000) (settings.leaseTtl * 500)

/-- A Unix time in seconds. The addition panics where it does not fit, and the cast wraps. -/
def leaseExpiry (settings : Settings) (now : Nat) : Option Int :=
  let secs := (now + settings.leaseTtl * 1000) / 1000
  if secs < 2 ^ 63 then some secs else if secs < 2 ^ 64 then some (secs - 2 ^ 64) else none

/-! ## The heartbeat -/

/-- How `renew_open_leases` and `reap_expired_open_inodes` end. -/
inductive Outcome where
  | ok
  | renewFailed
  /-- The leases were renewed all the same. -/
  | reapFailed
  deriving DecidableEq, Repr

structure Attempt where
  /-- What the sleeps before it take beyond the interval. -/
  late : Nat
  delay : Nat
  outcome : Outcome
  deriving DecidableEq, Repr

end LeaseHeartbeat

open LeaseHeartbeat

structure LeaseHeartbeat where
  /-- When the mount was ready for its first handle. -/
  mounted : Nat
  /-- When the last attempt was answered. -/
  now : Nat
  firstFailure : Option Nat
  /-- When each attempt that renewed the leases began and was answered. -/
  renewals : List (Nat × Nat)
  exited : Option Nat
  panicked : Bool
  deriving DecidableEq, Repr

namespace LeaseHeartbeat

def initial (mounted : Nat) : LeaseHeartbeat := ⟨mounted, mounted, none, [], none, false⟩

def leaseShouldAbort (firstFailure : Option Nat) (now limit : Nat) : Bool :=
  firstFailure.any fun since => now - since ≥ limit

variable (settings : Settings) (state : LeaseHeartbeat)

/-- The interval is in whole seconds, so the ticks of the wait make it up exactly. -/
def started (attempt : Attempt) : Nat := state.now + settings.leaseHeartbeat * 1000 + attempt.late

def answered (attempt : Attempt) : Nat := state.started settings attempt + attempt.delay

/-- What the attempt leaves of the leases. -/
def renewed (attempt : Attempt) : List (Nat × Nat) :=
  match attempt.outcome with
  | .renewFailed => state.renewals
  | _ => state.renewals ++ [(state.started settings attempt, state.answered settings attempt)]

/-- One round of `run_lease_heartbeat`. -/
def attempt (attempt : Attempt) : LeaseHeartbeat :=
  if state.exited.isSome ∨ state.panicked then state
  else match leaseExpiry settings (state.started settings attempt) with
    | none => { state with now := state.started settings attempt, panicked := true }
    | some _ =>
      let now := state.answered settings attempt
      let renewals := state.renewed settings attempt
      match attempt.outcome with
      | .ok => { state with now, renewals, firstFailure := none }
      | _ =>
        let firstFailure := some (state.firstFailure.getD now)
        { state with
          now
          renewals
          firstFailure
          exited := if leaseShouldAbort firstFailure now settings.failureAbort then some now else none }

/-! ## Leases -/

/-- The lease at a moment of a handle that was opened before and is still open: what the last
attempt that found it open has made of it. -/
def lease (opened moment : Nat) : Option Int :=
  leaseExpiry settings
    (((state.renewals.filter fun renewal => opened ≤ renewal.1 && renewal.2 ≤ moment).getLast?.map Prod.fst).getD opened)

/-- As long as the mount runs, every handle that it has open is leased beyond the moment. -/
def Protected : Prop :=
  ∀ opened moment, state.mounted ≤ opened → opened ≤ moment → moment < state.now →
    (∀ exited ∈ state.exited, moment < exited) → ∀ expiry ∈ state.lease settings opened moment, (moment / 1000 : Nat) < expiry

/-- Since when no attempt has renewed the leases. -/
def granted : Nat := (state.renewals.getLast?.map Prod.fst).getD state.mounted

/-- The attempt is answered before the leases run out that the last renewal granted. -/
def OnTime (attempt : Attempt) : Prop :=
  state.exited.isSome = true ∨ state.answered settings attempt ≤ (state.granted / 1000 + settings.leaseTtl) * 1000

instance (attempt : Attempt) : Decidable (state.OnTime settings attempt) :=
  inferInstanceAs (Decidable (_ ∨ _))

end LeaseHeartbeat

/-! A handle outlasts its lease just when an attempt is answered too late.

The last renewal began before every other thing that a lease can stem from, so it decides.
-/

namespace LeaseHeartbeat

variable {settings : Settings} {state : LeaseHeartbeat}

/-- Seconds since the epoch, with the TTL added, fit a signed 64-bit integer. -/
def Fits (settings : Settings) (now : Nat) : Prop := now / 1000 + settings.leaseTtl < 2 ^ 63

theorem Fits.leaseExpiry {now : Nat} (fits : Fits settings now) :
    leaseExpiry settings now = some ((now / 1000 + settings.leaseTtl : Nat) : Int) := by
  have secs : (now + settings.leaseTtl * 1000) / 1000 = now / 1000 + settings.leaseTtl :=
    Nat.add_mul_div_right now settings.leaseTtl (by decide)
  rw [LeaseHeartbeat.leaseExpiry, secs]
  exact if_pos fits

theorem Fits.earlier {now earlier : Nat} (fits : Fits settings now) (before : earlier ≤ now) : Fits settings earlier := by
  have seconds := Nat.div_le_div_right (c := 1000) before
  unfold Fits at fits ⊢
  omega

/-- Renewals come one after the other, and all of them are past. -/
structure Ordered (state : LeaseHeartbeat) : Prop where
  begun : state.granted ≤ state.now
  mounted : state.mounted ≤ state.granted
  last : ∀ renewal ∈ state.renewals, renewal.1 ≤ state.granted
  past : ∀ renewal ∈ state.renewals, renewal.2 ≤ state.now
  exited : ∀ exited ∈ state.exited, exited ≤ state.now

theorem Ordered.initial (mounted : Nat) : (LeaseHeartbeat.initial mounted).Ordered :=
  ⟨Nat.le_refl _, Nat.le_refl _, nofun, nofun, nofun⟩

/-- An attempt adds one renewal at most, answered when the attempt is. -/
theorem renewed_cases (settings : Settings) (state : LeaseHeartbeat) (attempt : Attempt) :
    state.renewed settings attempt = state.renewals ∨ state.renewed settings attempt =
      state.renewals ++ [(state.started settings attempt, state.answered settings attempt)] := by
  unfold renewed
  split
  · exact .inl rfl
  · exact .inr rfl

/-- A round that is taken at all, and in which the clock still fits. -/
theorem attempt_eq {attempt : Attempt} (running : state.exited = none) (sane : state.panicked = false)
    (fits : Fits settings (state.started settings attempt)) :
    (state.attempt settings attempt).mounted = state.mounted ∧
    (state.attempt settings attempt).now = state.answered settings attempt ∧
    (state.attempt settings attempt).renewals = state.renewed settings attempt ∧
    (state.attempt settings attempt).panicked = false ∧
    ∀ exited ∈ (state.attempt settings attempt).exited, exited = state.answered settings attempt := by
  unfold LeaseHeartbeat.attempt
  rw [running, sane, fits.leaseExpiry]
  dsimp only
  rw [if_neg (by simp)]
  have abort : ∀ condition : Bool, ∀ exited ∈ if condition then some (state.answered settings attempt) else none,
      exited = state.answered settings attempt := by
    intro condition exited left
    cases condition with
    | false => cases left
    | true => exact (Option.some.inj left).symm
  cases attempt.outcome with
  | ok => exact ⟨rfl, rfl, rfl, rfl, nofun⟩
  | renewFailed => exact ⟨rfl, rfl, rfl, rfl, abort _⟩
  | reapFailed => exact ⟨rfl, rfl, rfl, rfl, abort _⟩

theorem attempt_of_exited (attempt : Attempt) (exited : state.exited.isSome = true) : state.attempt settings attempt = state := by
  unfold LeaseHeartbeat.attempt
  rw [if_pos (.inl exited)]

theorem started_le_answered (settings : Settings) (state : LeaseHeartbeat) (attempt : Attempt) :
    state.now < state.started settings attempt ∧ state.started settings attempt ≤ state.answered settings attempt := by
  have positive := settings.heartbeatPositive
  unfold answered started
  omega

theorem now_le_attempt (settings : Settings) (state : LeaseHeartbeat) (attempt : Attempt) :
    state.now ≤ (state.attempt settings attempt).now := by
  obtain ⟨after, answer⟩ := started_le_answered settings state attempt
  unfold LeaseHeartbeat.attempt
  split
  · exact Nat.le_refl _
  · split
    · exact Nat.le_of_lt after
    · dsimp only
      split
      · exact (Nat.le_of_lt after).trans answer
      · exact (Nat.le_of_lt after).trans answer

theorem started_le_attempt {attempt : Attempt} (running : state.exited = none) (sane : state.panicked = false) :
    state.started settings attempt ≤ (state.attempt settings attempt).now := by
  have answer := (started_le_answered settings state attempt).2
  unfold LeaseHeartbeat.attempt
  rw [if_neg (by simp [running, sane])]
  split
  · exact Nat.le_refl _
  · dsimp only
    split
    · exact answer
    · exact answer

theorem granted_renewed {state' : LeaseHeartbeat} {attempt : Attempt} (mounted : state'.mounted = state.mounted)
    (renewals : state'.renewals = state.renewed settings attempt) :
    state'.granted = state.granted ∨ state'.granted = state.started settings attempt := by
  rcases renewed_cases settings state attempt with same | added
  · left
    rw [granted, granted, renewals, same, mounted]
  · right
    rw [granted, renewals, added, List.getLast?_concat]
    rfl

theorem Ordered.attempt (ordered : state.Ordered) {attempt : Attempt} (running : state.exited = none)
    (sane : state.panicked = false) (fits : Fits settings (state.started settings attempt)) :
    (state.attempt settings attempt).Ordered := by
  obtain ⟨mounted, now, renewals, _, exited⟩ := attempt_eq running sane fits
  obtain ⟨after, answer⟩ := started_le_answered settings state attempt
  have begun := ordered.begun
  have first := ordered.mounted
  have granted := granted_renewed mounted renewals
  have later : state.granted ≤ (state.attempt settings attempt).granted := by
    rcases granted with same | new
    · exact Nat.le_of_eq same.symm
    · omega
  constructor
  · rw [now]
    rcases granted with same | new
    · omega
    · omega
  · rw [mounted]
    exact first.trans later
  · intro renewal member
    rw [renewals] at member
    rcases renewed_cases settings state attempt with same | added
    · rw [same] at member
      exact (ordered.last renewal member).trans later
    · rw [added] at member
      rcases List.mem_append.mp member with old | new
      · exact (ordered.last renewal old).trans later
      · have own : (state.attempt settings attempt).granted = state.started settings attempt := by
          rw [LeaseHeartbeat.granted, renewals, added, List.getLast?_concat]
          rfl
        rw [List.mem_singleton.mp new, own]
  · intro renewal member
    rw [now]
    rw [renewals] at member
    rcases renewed_cases settings state attempt with same | added
    · rw [same] at member
      exact (ordered.past renewal member).trans ((Nat.le_of_lt after).trans answer)
    · rw [added] at member
      rcases List.mem_append.mp member with old | new
      · exact (ordered.past renewal old).trans ((Nat.le_of_lt after).trans answer)
      · rw [List.mem_singleton.mp new]
  · intro time left
    rw [now, exited time left]

/-! ## Leases after an attempt -/

/-- What is answered later does not change a lease of before. -/
theorem lease_attempt {attempt : Attempt} (running : state.exited = none) (sane : state.panicked = false)
    (fits : Fits settings (state.started settings attempt)) (opened : Nat) {moment : Nat}
    (before : moment < state.answered settings attempt) :
    (state.attempt settings attempt).lease settings opened moment = state.lease settings opened moment := by
  have renewals := (attempt_eq running sane fits).2.2.1
  rw [lease, lease, renewals]
  rcases renewed_cases settings state attempt with same | added
  · rw [same]
  · have later : ¬(decide (opened ≤ state.started settings attempt) && decide (state.answered settings attempt ≤ moment)) = true := by
      rw [Bool.and_eq_true, decide_eq_true_eq, decide_eq_true_eq]
      omega
    rw [added, List.filter_append, List.filter_cons_of_neg (by exact later), List.filter_nil, List.append_nil]

/-- Between two answers a lease stems from the last renewal, or from a moment after it began. -/
theorem Ordered.lease_eq (ordered : state.Ordered) (opened : Nat) {moment : Nat} (current : state.now ≤ moment) :
    state.lease settings opened moment = leaseExpiry settings (if opened ≤ state.granted then
      (if state.renewals = [] then opened else state.granted) else opened) := by
  have past : state.renewals.filter (fun renewal => opened ≤ renewal.1 && renewal.2 ≤ moment) =
      state.renewals.filter fun renewal => opened ≤ renewal.1 := by
    apply List.filter_congr
    intro renewal member
    have answer := ordered.past renewal member
    have settled : renewal.2 ≤ moment := answer.trans current
    rw [decide_eq_true settled, Bool.and_true]
  rw [lease, past]
  congr 1
  split
  · rename_i covered
    rcases List.eq_nil_or_concat state.renewals with none | ⟨front, last, spelled⟩
    · rw [none, if_pos rfl]
      rfl
    · rw [List.concat_eq_append] at spelled
      have own : state.granted = last.1 := by
        rw [granted, spelled, List.getLast?_concat]
        rfl
      rw [if_neg (by rw [spelled]; simp), spelled, List.filter_append, own]
      rw [own] at covered
      rw [List.filter_cons_of_pos (by simpa using covered), List.filter_nil, List.getLast?_concat]
      rfl
  · rename_i later
    have none : state.renewals.filter (fun renewal => opened ≤ renewal.1) = [] := by
      rw [List.filter_eq_nil_iff]
      intro renewal member
      have begun := ordered.last renewal member
      rw [decide_eq_true_eq]
      omega
    rw [none]
    rfl

/-- An attempt in time keeps every handle protected. -/
theorem Protected.attempt {attempt : Attempt} (ordered : state.Ordered) (handles : state.Protected settings)
    (running : state.exited = none) (sane : state.panicked = false)
    (fits : Fits settings (state.answered settings attempt)) (onTime : state.OnTime settings attempt) :
    (state.attempt settings attempt).Protected settings := by
  obtain ⟨after, answer⟩ := started_le_answered settings state attempt
  have begun := fits.earlier answer
  obtain ⟨mounted, now, _, _, _⟩ := attempt_eq running sane begun
  intro opened moment first open_ before alive expiry leased
  rw [mounted] at first
  rw [now] at before
  rw [lease_attempt running sane begun opened before] at leased
  by_cases current : state.now ≤ moment
  · -- The deadline of the last renewal is still ahead.
    have deadline : state.answered settings attempt ≤ (state.granted / 1000 + settings.leaseTtl) * 1000 := by
      rcases onTime with exited | deadline
      · rw [running] at exited
        cases exited
      · exact deadline
    have covered : ∀ since, state.granted ≤ since → since ≤ moment → leaseExpiry settings since = some expiry →
        ((moment / 1000 : Nat) : Int) < expiry := by
      intro since granted within own
      rw [(fits.earlier (within.trans (Nat.le_of_lt before))).leaseExpiry] at own
      rw [← Option.some.inj own]
      have seconds := Nat.div_le_div_right (c := 1000) granted
      have limit : moment / 1000 < state.granted / 1000 + settings.leaseTtl := by
        apply Nat.div_lt_of_lt_mul
        rw [Nat.mul_comm]
        exact before.trans_le deadline
      exact Int.ofNat_lt.mpr (by omega)
    have source := @Ordered.lease_eq settings _ ordered opened _ current
    rw [source] at leased
    split at leased
    · rename_i early
      split at leased
      · rename_i none
        -- Without a renewal the lease is as old as the mount.
        have start : state.granted = state.mounted := by
          rw [granted, none]
          rfl
        exact covered opened (by rw [start]; exact first) open_ leased
      · exact covered state.granted (Nat.le_refl _) (ordered.begun.trans current) leased
    · rename_i late
      exact covered opened (by omega) open_ leased
  · exact handles opened moment first open_ (by omega) (fun exited left => by rw [running] at left; cases left) expiry leased

/-- Nothing of the past is unprotected by an attempt. -/
theorem Protected.of_attempt {attempt : Attempt} (handles : (state.attempt settings attempt).Protected settings)
    (running : state.exited = none) (sane : state.panicked = false)
    (fits : Fits settings (state.answered settings attempt)) : state.Protected settings := by
  obtain ⟨after, answer⟩ := started_le_answered settings state attempt
  have begun := fits.earlier answer
  obtain ⟨mounted, now, _, _, exits⟩ := attempt_eq running sane begun
  intro opened moment first open_ before alive expiry leased
  have earlier : moment < state.answered settings attempt := before.trans (after.trans_le answer)
  refine handles opened moment (by rw [mounted]; exact first) open_ (by rw [now]; exact earlier) ?_ expiry ?_
  · intro exited left
    rw [exits exited left]
    exact earlier
  · rw [lease_attempt running sane begun opened earlier]
    exact leased

/-- The handle that the last renewal found when it began shows that the attempt was in time. -/
theorem OnTime.of_attempt {attempt : Attempt} (ordered : state.Ordered)
    (handles : (state.attempt settings attempt).Protected settings) (running : state.exited = none)
    (sane : state.panicked = false) (fits : Fits settings (state.answered settings attempt)) :
    state.OnTime settings attempt := by
  obtain ⟨after, answer⟩ := started_le_answered settings state attempt
  have begun := fits.earlier answer
  obtain ⟨mounted, now, _, _, exits⟩ := attempt_eq running sane begun
  have since := ordered.begun
  right
  let moment := state.answered settings attempt - 1
  have current : state.now ≤ moment := by omega
  have before : moment < state.answered settings attempt := by omega
  have leased : (state.attempt settings attempt).lease settings state.granted moment =
      some ((state.granted / 1000 + settings.leaseTtl : Nat) : Int) := by
    have own := @Ordered.lease_eq settings _ ordered state.granted _ current
    rw [lease_attempt running sane begun _ before, own, if_pos (Nat.le_refl _), ite_self]
    exact (fits.earlier (by omega)).leaseExpiry
  have ahead := handles state.granted moment (by rw [mounted]; exact ordered.mounted) (since.trans current)
    (by rw [now]; exact before) (fun exited left => by rw [exits exited left]; exact before) _ leased
  have seconds := Int.ofNat_lt.mp ahead
  have bound := (Nat.div_lt_iff_lt_mul (by decide)).mp seconds
  omega

theorem protected_attempt_iff {attempt : Attempt} (ordered : state.Ordered) (sane : state.panicked = false)
    (fits : Fits settings (state.attempt settings attempt).now) :
    ((state.attempt settings attempt).Protected settings ↔ state.Protected settings ∧ state.OnTime settings attempt) ∧
      (state.attempt settings attempt).Ordered ∧ (state.attempt settings attempt).panicked = false := by
  cases left : state.exited with
  | some exited =>
    have gone : state.exited.isSome = true := by rw [left]; rfl
    rw [attempt_of_exited attempt gone]
    exact ⟨⟨fun handles => ⟨handles, .inl gone⟩, fun handles => handles.1⟩, ordered, sane⟩
  | none =>
    have begun : Fits settings (state.started settings attempt) := fits.earlier (started_le_attempt left sane)
    obtain ⟨_, now, _, stays, _⟩ := attempt_eq left sane begun
    rw [now] at fits
    refine ⟨⟨?_, ?_⟩, ordered.attempt left sane begun, stays⟩
    · exact fun handles => ⟨handles.of_attempt left sane fits, .of_attempt ordered handles left sane fits⟩
    · exact fun handles => handles.1.attempt ordered left sane fits handles.2

/-! ## Every run -/

/-- Two renewals with the default settings, a failure, and one more renewal. -/
def promptAttempts : List Attempt := [⟨0, 40, .ok⟩, ⟨3, 2000, .ok⟩, ⟨0, 5000, .renewFailed⟩, ⟨1, 100, .ok⟩]

/-- One attempt that hangs for more than the TTL before it fails. -/
def hangingAttempt : List Attempt := [⟨0, 200000, .renewFailed⟩]

end LeaseHeartbeat

end AiryFS
