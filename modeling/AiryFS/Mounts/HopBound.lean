import AiryFS.Mounts.Hops
import AiryFS.Mounts.MountTable
import AiryFS.Mounts.Routes
import Mathlib.Data.Rat.Encodable

/-! Requests that one volume hands on to the next.

A volume looks at its own mount table only. What keeps a request from going round forever is
the hop count, a header that the first caller may set as well.
-/

set_option autoImplicit false

namespace AiryFS

open Foundation Auth

namespace Mounts

/-- A request as far as mounts look at it. The body is read through its text fields, and is
`none` when it is no JSON object. -/
structure Request where
  method : Text
  pathname : Text
  mountHops : Option Text
  mountForward : Option Text
  authorization : Option Text
  body : Option (Text → Option Text)

/-- The volumes of a deployment. -/
structure Deployment where
  mounts : Text → FsMount
  established : Text → Bool
  authorize : Text → Request → V1Route → Except Failure Unit

def eloop : Failure := .http 508 "ELOOP" "Mount forwarding exceeded the maximum hop count"

def checkHops (hops : JsNumber) : Except Failure Unit := refuse (hops.AtLeast MAX_MOUNT_HOPS) eloop

/-! ## HTTP -/

/-- The path-valued operand keys of a filesystem `operations` body. -/
def operationOperandKeys (operation : Text) : List Text :=
  if operation = "rename".toList ∨ operation = "copy".toList then ["from".toList, "to".toList]
  else if operation = "link".toList then ["existing".toList, "path".toList]
  else ["path".toList]

section Http
-- `Number(text)` and `String(number)` of the language.
variable (number : Text → JsNumber) (spell : JsNumber → Text)

def hopCount (header : Option Text) : JsNumber := number (header.getD "0".toList)

/-- The request that goes to the target volume. -/
def forwardRequest (request : Request) (pathname : Text) (mount : MountRecord) (hops : JsNumber)
    (body : Option (Text → Option Text)) : Text × Request :=
  (mount.targetVolume,
    { request with
      pathname := setPathname pathname
      mountHops := some (spell hops.next)
      mountForward := some "1".toList
      authorization := (mount.token.filter fun token => !token.isEmpty).map fun token => "Bearer ".toList ++ token
      body })

def crossVolume (operation : Text) : Failure :=
  .http 400 "EXDEV" s!"Cross-volume {String.ofList operation} is not permitted; copy and delete across the mount boundary instead"

/-- The operands of an operation, each with the mount it lies under. -/
def operandHits (mounts : List MountRecord) (operation : Text) (body : Text → Option Text) :
    List (Text × Option ResolvedMount) :=
  (operationOperandKeys operation).filterMap fun key => (body key).map fun value => (key, resolveMount mounts value)

def forwardMountedOperation (request : Request) (route : V1Route) (mounts : List MountRecord) (hops : JsNumber) :
    Except Failure (Option (Text × Request)) :=
  match request.body with
  | none => .ok none
  | some body =>
    let operation := route.path.drop 1
    let operands := operandHits mounts operation body
    match operands.filterMap Prod.snd with
    | [] => .ok none
    | first :: rest => do
      refuse ((∃ hit ∈ rest, hit.mount.targetVolume ≠ first.mount.targetVolume) ∨ rest.length + 1 ≠ operands.length)
        (crossVolume operation)
      let rewritten := fun key => ((operands.lookup key).join.map ResolvedMount.targetPath).or (body key)
      return some (forwardRequest spell request (buildV1Path first.mount.targetVolume .operations route.path) first.mount
        hops (some rewritten))

/-- Forward a path-scoped request whose path falls under a mount. -/
def forwardMountedRequest (mounts : List MountRecord) (request : Request) (route : V1Route) :
    Except Failure (Option (Text × Request)) :=
  if mounts = [] ∨ route.resource ∉ mounted then .ok none
  else do
    let hops := hopCount number request.mountHops
    checkHops hops
    if route.resource = .operations then
      if request.method = "POST".toList then forwardMountedOperation spell request route mounts hops else .ok none
    else
      match resolveMount mounts route.path with
      | none => .ok none
      | some hit =>
        .ok (some (forwardRequest spell request (buildV1Path hit.mount.targetVolume route.resource hit.targetPath) hit.mount
          hops request.body))

/-- A request at a volume: the one it is handed on as, or none when the volume serves it. -/
def fetch (deployment : Deployment) (at_ : Text × Request) : Except Failure (Option (Text × Request)) := do
  match ← parseV1Route at_.2.pathname with
  | none => .ok none
  | some route =>
    refuse (at_.2.mountForward = some "1".toList ∧ ¬deployment.established at_.1)
      (.http 503 "MOUNT_TARGET_UNAVAILABLE" "Mount target volume does not exist or has been deleted")
    deployment.authorize at_.1 at_.2 route
    forwardMountedRequest number spell (listMounts (deployment.mounts at_.1)) at_.2 route

end Http

/-! ## Calls between Workers -/

/-- What a call names: one path, or two that have to stay together. -/
inductive Operands where
  | one (path : Text)
  | two (first second : Text)

structure Call where
  operands : Operands
  hops : JsNumber

def mountHit (mounts : List MountRecord) (path : Text) : Option (Text × Text) :=
  (resolveMount mounts path).map fun hit => (hit.mount.targetVolume, hit.targetPath)

def twoPathHit (mounts : List MountRecord) (a b : Text) : Except Failure (Option (Text × Text × Text)) :=
  match mountHit mounts a, mountHit mounts b with
  | none, none => .ok none
  | some hitA, some hitB =>
    if hitA.1 = hitB.1 then .ok (some (hitA.1, hitA.2, hitB.2))
    else .error (.http 400 "EXDEV" "Cross-volume operation is not permitted across a mount boundary")
  | _, _ => .error (.http 400 "EXDEV" "Cross-volume operation is not permitted across a mount boundary")

def call (deployment : Deployment) (at_ : Text × Call) : Except Failure (Option (Text × Call)) :=
  let mounts := listMounts (deployment.mounts at_.1)
  match at_.2.operands with
  | .one path =>
    match mountHit mounts path with
    | none => .ok none
    | some hit => do
      checkHops at_.2.hops
      return some (hit.1, ⟨.one hit.2, at_.2.hops.next⟩)
  | .two a b => do
    match ← twoPathHit mounts a b with
    | none => .ok none
    | some hit =>
      checkHops at_.2.hops
      return some (hit.1, ⟨.two hit.2.1 hit.2.2, at_.2.hops.next⟩)

end Mounts

/-! How often a request is handed on.

Each forward has passed the check on the hop count and carries the next one, so a request whose
count catches up within eight steps is handed on eight times at most. Any other count goes
round a cycle of mounts for longer than that.
-/

namespace Mounts

/-! ## Counted steps -/

section Counted
variable {State : Type} (step : State → Except Failure (Option State)) (count : State → JsNumber)

/-- The state after so many forwards. -/
inductive Forwards : ℕ → State → State → Prop where
  | done (state : State) : Forwards 0 state state
  | hop {n : ℕ} {state middle final : State} : step state = .ok (some middle) → Forwards n middle final →
      Forwards (n + 1) state final

/-- A step is taken below the bound only, and is counted. -/
def Counted : Prop := ∀ state next, step state = .ok (some next) →
  ¬(count state).AtLeast MAX_MOUNT_HOPS ∧ count next = (count state).next

variable {step count}

theorem Forwards.counted (counted : Counted step count) {n : ℕ} {state final : State} (forwards : Forwards step n state final) :
    count final = JsNumber.next^[n] (count state) ∧ ∀ k < n, ¬(JsNumber.next^[k] (count state)).AtLeast MAX_MOUNT_HOPS := by
  induction forwards with
  | done state => exact ⟨rfl, fun k early => absurd early (Nat.not_lt_zero k)⟩
  | hop first rest ih =>
    obtain ⟨passed, next⟩ := counted _ _ first
    rw [next] at ih
    refine ⟨ih.1, ?_⟩
    intro k early
    cases k with
    | zero => exact passed
    | succ k => exact ih.2 k (by omega)

theorem Forwards.bounded (counted : Counted step count) {n : ℕ} {state final : State} (tame : Tame (count state))
    (forwards : Forwards step n state final) :
    n ≤ MAX_MOUNT_HOPS ∧ (n = MAX_MOUNT_HOPS → (count final).AtLeast MAX_MOUNT_HOPS) := by
  obtain ⟨final_, early⟩ := forwards.counted counted
  have reached : (JsNumber.next^[MAX_MOUNT_HOPS] (count state)).AtLeast MAX_MOUNT_HOPS := by
    simpa [MAX_MOUNT_HOPS] using tame.eight
  refine ⟨not_lt.mp fun longer => early _ longer reached, ?_⟩
  rintro rfl
  rw [final_]
  exact reached

/-- Where a state of some kind always has a successor of that kind, a count that does not catch up is never refused. -/
theorem Forwards.exist {Kind : State → Prop} (onward : ∀ state, Kind state → ¬(count state).AtLeast MAX_MOUNT_HOPS →
    ∃ next, step state = .ok (some next) ∧ Kind next ∧ count next = (count state).next) (n : ℕ) {state : State}
    (start : Kind state) (wild : ∀ k < n, ¬(JsNumber.next^[k] (count state)).AtLeast MAX_MOUNT_HOPS) :
    ∃ final, Forwards step n state final := by
  induction n generalizing state with
  | zero => exact ⟨state, .done state⟩
  | succ n ih =>
    obtain ⟨next, first, kind, counted⟩ := onward state start (wild 0 (by omega))
    obtain ⟨final, rest⟩ := ih kind (by
      intro k early
      rw [counted]
      exact wild (k + 1) (by omega))
    exact ⟨final, .hop first rest⟩

end Counted

/-! ## What a forward has passed -/

section Http
variable {number : Text → JsNumber} {spell : JsNumber → Text} (inverse : ∀ value, number (spell value) = value)

def requestCount (number : Text → JsNumber) (at_ : Text × Request) : JsNumber := hopCount number at_.2.mountHops

theorem forwardMountedOperation_spec {request : Request} {route : V1Route} {mounts : List MountRecord} {hops : JsNumber}
    {next : Text × Request} (forwarded : forwardMountedOperation spell request route mounts hops = .ok (some next)) :
    next.2.mountHops = some (spell hops.next) := by
  unfold forwardMountedOperation at forwarded
  split at forwarded
  · cases Except.ok.inj forwarded
  · dsimp only at forwarded
    split at forwarded
    · cases Except.ok.inj forwarded
    · obtain ⟨_, _, forwarded⟩ := bind_eq_ok.mp forwarded
      rw [← Option.some.inj (pure_eq_ok.mp forwarded)]
      rfl

theorem forwardMountedRequest_spec {mounts : List MountRecord} {request : Request} {route : V1Route} {next : Text × Request}
    (forwarded : forwardMountedRequest number spell mounts request route = .ok (some next)) :
    ¬(hopCount number request.mountHops).AtLeast MAX_MOUNT_HOPS ∧
      next.2.mountHops = some (spell (hopCount number request.mountHops).next) := by
  unfold forwardMountedRequest at forwarded
  split at forwarded
  · cases Except.ok.inj forwarded
  · dsimp only at forwarded
    obtain ⟨_, passed, forwarded⟩ := bind_eq_ok.mp forwarded
    refine ⟨refuse_eq_ok.mp passed, ?_⟩
    split at forwarded
    · split at forwarded
      · exact forwardMountedOperation_spec forwarded
      · cases Except.ok.inj forwarded
    · split at forwarded
      · cases Except.ok.inj forwarded
      · rw [← Option.some.inj (Except.ok.inj forwarded)]
        rfl

theorem fetch_eq {deployment : Deployment} {at_ : Text × Request} {route : V1Route}
    (parsed : parseV1Route at_.2.pathname = .ok (some route))
    (established : at_.2.mountForward = some "1".toList → deployment.established at_.1)
    (authorized : deployment.authorize at_.1 at_.2 route = .ok ()) :
    fetch number spell deployment at_ = forwardMountedRequest number spell (listMounts (deployment.mounts at_.1)) at_.2 route := by
  have open_ : ¬(at_.2.mountForward = some "1".toList ∧ ¬deployment.established at_.1) :=
    fun closed => closed.2 (established closed.1)
  rw [fetch, parsed, ok_bind]
  dsimp only
  rw [refuse_of_not open_, ok_bind, authorized, ok_bind]

include inverse in
theorem fetch_counted (deployment : Deployment) : Counted (fetch number spell deployment) (requestCount number) := by
  intro at_ next forwarded
  obtain ⟨route, _, forwarded⟩ := bind_eq_ok.mp forwarded
  cases route with
  | none => cases Except.ok.inj forwarded
  | some route =>
    dsimp only at forwarded
    obtain ⟨_, _, forwarded⟩ := bind_eq_ok.mp forwarded
    obtain ⟨_, _, forwarded⟩ := bind_eq_ok.mp forwarded
    obtain ⟨passed, header⟩ := forwardMountedRequest_spec forwarded
    refine ⟨passed, ?_⟩
    rw [requestCount, header, hopCount, Option.getD_some, inverse]
    rfl

end Http

theorem call_counted (deployment : Deployment) : Counted (call deployment) fun at_ => at_.2.hops := by
  intro at_ next forwarded
  unfold call at forwarded
  dsimp only at forwarded
  cases operands : at_.2.operands with
  | one path =>
    rw [operands] at forwarded
    dsimp only at forwarded
    split at forwarded
    · cases Except.ok.inj forwarded
    · obtain ⟨_, passed, forwarded⟩ := bind_eq_ok.mp forwarded
      rw [← Option.some.inj (pure_eq_ok.mp forwarded)]
      exact ⟨refuse_eq_ok.mp passed, rfl⟩
  | two a b =>
    rw [operands] at forwarded
    dsimp only at forwarded
    obtain ⟨hit, _, forwarded⟩ := bind_eq_ok.mp forwarded
    cases hit with
    | none => cases Except.ok.inj forwarded
    | some hit =>
      obtain ⟨_, passed, forwarded⟩ := bind_eq_ok.mp forwarded
      rw [← Option.some.inj (pure_eq_ok.mp forwarded)]
      exact ⟨refuse_eq_ok.mp passed, rfl⟩

/-! ## Two volumes that mount each other -/

def mountOnto (target : Text) : FsMount where
  rows := [⟨"/m".toList, target, "/m".toList, none, none, "{}".toList, 0⟩]
  unique := List.nodup_singleton _

def facing : Deployment where
  mounts volume :=
    if volume = "a".toList then mountOnto "b".toList else if volume = "b".toList then mountOnto "a".toList else Table.empty
  established _ := true
  authorize _ _ _ := .ok ()

def mountPath (volume : Text) : Text := "/v1/volumes/".toList ++ volume ++ "/files/m".toList

def cyclicRequest (header : Option Text) : Request where
  method := "GET".toList
  pathname := mountPath "a".toList
  mountHops := header
  mountForward := none
  authorization := none
  body := none

/-- A request for the mountpoint at one of the two volumes. -/
def AtMount (at_ : Text × Request) : Prop := at_.1 ∈ ["a".toList, "b".toList] ∧ at_.2.pathname = mountPath at_.1

/-- Each volume resolves the mountpoint to the other one. -/
theorem facing_resolves : ∀ volume ∈ ["a".toList, "b".toList], ∃ other ∈ ["a".toList, "b".toList],
    parseV1Route (mountPath volume) = .ok (some ⟨volume, .files, "/m".toList⟩) ∧
      (∃ hit, resolveMount (listMounts (facing.mounts volume)) "/m".toList = some hit ∧ hit.mount.targetVolume = other ∧
        hit.targetPath = "/m".toList) ∧
      setPathname (buildV1Path other .files "/m".toList) = mountPath other ∧
      listMounts (facing.mounts volume) ≠ [] := by
  have first : ∃ hit, resolveMount (listMounts (facing.mounts "a".toList)) "/m".toList = some hit ∧
      hit.mount.targetVolume = "b".toList ∧ hit.targetPath = "/m".toList :=
    ⟨⟨⟨"/m".toList, "b".toList, "/m".toList, none, none, "{}".toList, 0⟩, "/m".toList⟩, by decide +kernel⟩
  have second : ∃ hit, resolveMount (listMounts (facing.mounts "b".toList)) "/m".toList = some hit ∧
      hit.mount.targetVolume = "a".toList ∧ hit.targetPath = "/m".toList :=
    ⟨⟨⟨"/m".toList, "a".toList, "/m".toList, none, none, "{}".toList, 0⟩, "/m".toList⟩, by decide +kernel⟩
  intro volume member
  rcases List.mem_cons.mp member with rfl | last
  · exact ⟨"b".toList, by decide, by decide +kernel, first, by decide +kernel, by decide +kernel⟩
  · obtain rfl := List.mem_singleton.mp last
    exact ⟨"a".toList, by decide, by decide +kernel, second, by decide +kernel, by decide +kernel⟩

section Http
variable {number : Text → JsNumber} {spell : JsNumber → Text} (inverse : ∀ value, number (spell value) = value)

include inverse in
theorem facing_onward (at_ : Text × Request) (kind : AtMount at_)
    (early : ¬(requestCount number at_).AtLeast MAX_MOUNT_HOPS) :
    ∃ next, fetch number spell facing at_ = .ok (some next) ∧ AtMount next ∧
      requestCount number next = (requestCount number at_).next := by
  obtain ⟨volume, request⟩ := at_
  obtain ⟨member, pathname⟩ := kind
  obtain ⟨other, known, parsed, ⟨hit, resolved, target, path⟩, back, some_⟩ := facing_resolves volume member
  have passed : checkHops (hopCount number request.mountHops) = .ok () := refuse_of_not early _
  have forwarded : forwardMountedRequest number spell (listMounts (facing.mounts volume)) request
      ⟨volume, .files, "/m".toList⟩ = .ok (some (forwardRequest spell request
        (buildV1Path hit.mount.targetVolume .files hit.targetPath) hit.mount (hopCount number request.mountHops) request.body)) := by
    unfold forwardMountedRequest
    rw [if_neg (by simp [some_, mounted])]
    dsimp only
    rw [passed, ok_bind, if_neg (by decide), resolved]
  refine ⟨_, (fetch_eq (by rw [← parsed, pathname]) (fun _ => rfl) rfl).trans forwarded, ?_, ?_⟩
  · constructor
    · change hit.mount.targetVolume ∈ _
      rw [target]
      exact known
    · change setPathname (buildV1Path hit.mount.targetVolume .files hit.targetPath) = mountPath hit.mount.targetVolume
      rw [target, path]
      exact back
  · change number (spell (hopCount number request.mountHops).next) = _
    exact inverse _

include inverse in
/-- A count that does not catch up is handed on as long as it has not. -/
theorem facing_forwards {header : Option Text} (n : ℕ)
    (wild : ∀ k < n, ¬(JsNumber.next^[k] (hopCount number header)).AtLeast MAX_MOUNT_HOPS) :
    ∃ final, Forwards (fetch number spell facing) n ("a".toList, cyclicRequest header) final :=
  Forwards.exist (facing_onward inverse) n ⟨List.mem_cons_self, rfl⟩ wild

end Http

theorem facing_calls {hops : JsNumber} (n : ℕ) (wild : ∀ k < n, ¬(JsNumber.next^[k] hops).AtLeast MAX_MOUNT_HOPS) :
    ∃ final, Forwards (call facing) n ("a".toList, ⟨.one "/m".toList, hops⟩) final := by
  refine @Forwards.exist _ _ (fun at_ => at_.2.hops) (fun at_ => at_.1 ∈ ["a".toList, "b".toList] ∧ at_.2.operands = .one "/m".toList)
    ?_ n _ ⟨List.mem_cons_self, rfl⟩ wild
  rintro ⟨volume, operands, hops⟩ ⟨member, single⟩ early
  obtain ⟨other, known, _, ⟨hit, resolved, target, path⟩, _, _⟩ := facing_resolves volume member
  have operands_ : operands = .one "/m".toList := single
  have found : mountHit (listMounts (facing.mounts volume)) "/m".toList = some (other, "/m".toList) := by
    rw [mountHit, resolved, Option.map_some, target, path]
  have passed : checkHops hops = .ok () := refuse_of_not early _
  refine ⟨(other, ⟨.one "/m".toList, hops.next⟩), ?_, ⟨known, rfl⟩, rfl⟩
  unfold call
  dsimp only
  rw [operands_]
  dsimp only
  rw [found]
  dsimp only
  rw [passed, ok_bind]
  rfl

/-! ## A spelling of numbers

It is the language's own for the special values and for counts of one digit. -/

def printNumber : JsNumber → Text
  | .nan => "NaN".toList
  | .infinity negative => if negative then "-Infinity".toList else "Infinity".toList
  | .finite value =>
    if value.den = 1 ∧ 0 ≤ value.num ∧ value.num < 10 then [Percent.digit value.num.toNat]
    else 'q' :: List.replicate (Encodable.encode value) '1'

def readNumber (text : Text) : JsNumber :=
  if text = "Infinity".toList then .infinity false
  else if text = "-Infinity".toList then .infinity true
  else match text with
    | [character] => if character = 'q' then .finite ((Encodable.decode 0).getD 0) else
        ((Percent.digitValue character).filter (· < 10)).elim .nan fun digit => .finite digit
    | 'q' :: rest => .finite ((Encodable.decode rest.length).getD 0)
    | _ => .nan

theorem readNumber_printNumber (value : JsNumber) : readNumber (printNumber value) = value := by
  cases value with
  | nan => decide +kernel
  | infinity negative => cases negative <;> decide +kernel
  | finite value =>
    by_cases small : value.den = 1 ∧ 0 ≤ value.num ∧ value.num < 10
    · rw [show printNumber (.finite value) = [Percent.digit value.num.toNat] from if_pos small]
      obtain ⟨whole, low, high⟩ := small
      have same : value = ((value.num.toNat : ℕ) : ℚ) := by
        rw [← Int.cast_natCast, Int.toNat_of_nonneg low]
        exact (Rat.den_eq_one_iff value).mp whole |>.symm
      have digits : ∀ n < 10, readNumber [Percent.digit n] = .finite (n : ℕ) := by decide +kernel
      rw [digits _ (by omega), ← same]
    · have single : ∀ rest : Text, 'q' :: rest ≠ "Infinity".toList ∧ 'q' :: rest ≠ "-Infinity".toList :=
        fun rest => ⟨fun same => absurd (List.cons.inj same).1 (by decide), fun same => absurd (List.cons.inj same).1 (by decide)⟩
      rw [show printNumber (.finite value) = 'q' :: List.replicate (Encodable.encode value) '1' from if_neg small]
      unfold readNumber
      rw [if_neg (single _).1, if_neg (single _).2]
      have back : Encodable.decode (Encodable.encode value) = some value := Encodable.encodek value
      cases code : Encodable.encode value with
      | zero =>
        rw [code] at back
        simp [back]
      | succ n =>
        rw [code] at back
        rw [List.replicate_succ]
        simp [back]

/-! ## The bound -/

section Bound
variable (number : Text → JsNumber) (spell : JsNumber → Text)

/-- Whatever the volumes and the request are, a request with this header is handed on no more than the maximum
number of times, and then refused where it would be handed on again. -/
def HeaderBounded (header : Option Text) : Prop := ∀ deployment volume request, request.mountHops = header → ∀ n final,
  Forwards (fetch number spell deployment) n (volume, request) final →
    n ≤ MAX_MOUNT_HOPS ∧ (n = MAX_MOUNT_HOPS → ∀ route, parseV1Route final.2.pathname = .ok (some route) →
      deployment.established final.1 → deployment.authorize final.1 final.2 route = .ok () →
        (deployment.mounts final.1).rows ≠ [] → route.resource ∈ mounted → fetch number spell deployment final = .error eloop)

def CallBounded (hops : JsNumber) : Prop := ∀ deployment volume operands n final,
  Forwards (call deployment) n (volume, ⟨operands, hops⟩) final → n ≤ MAX_MOUNT_HOPS

variable {number spell}

theorem listMounts_ne_nil {mounts : FsMount} (some_ : mounts.rows ≠ []) : listMounts mounts ≠ [] := by
  intro empty
  have same := congrArg List.length empty
  rw [listMounts, List.length_mergeSort] at same
  exact some_ (List.length_eq_zero_iff.mp same)

theorem forwardMountedRequest_eloop {mounts : List MountRecord} {request : Request} {route : V1Route} (some_ : mounts ≠ [])
    (listed : route.resource ∈ mounted) (late : (hopCount number request.mountHops).AtLeast MAX_MOUNT_HOPS) :
    forwardMountedRequest number spell mounts request route = .error eloop := by
  have stopped : checkHops (hopCount number request.mountHops) = .error eloop := if_pos late
  unfold forwardMountedRequest
  rw [if_neg (by simp [some_, listed])]
  dsimp only
  rw [stopped]
  rfl

theorem nine_steps {number : JsNumber} (wild : ¬Tame number) (k : ℕ) (early : k < MAX_MOUNT_HOPS + 1) :
    ¬(JsNumber.next^[k] number).AtLeast MAX_MOUNT_HOPS := by
  have bound : ((MAX_MOUNT_HOPS : ℕ) : ℚ) = 8 := by norm_num [MAX_MOUNT_HOPS]
  rw [bound]
  exact not_tame wild k (by simp only [MAX_MOUNT_HOPS] at early; omega)

/-- The number of forwards is bounded exactly for the counts that catch up. -/
theorem forwards_bounded (inverse : ∀ value, number (spell value) = value) :
    (∀ header, HeaderBounded number spell header ↔ Tame (hopCount number header)) ∧
      ∀ hops, CallBounded hops ↔ Tame hops := by
  constructor
  · intro header
    constructor
    · intro bounded
      by_contra wild
      obtain ⟨final, forwards⟩ := @facing_forwards number spell inverse header (MAX_MOUNT_HOPS + 1) (nine_steps wild)
      have longer := (bounded facing _ (cyclicRequest header) rfl _ final forwards).1
      omega
    · intro tame deployment volume request same n final forwards
      have start : Tame (requestCount number (volume, request)) := by rwa [requestCount, same]
      obtain ⟨bounded, last⟩ := forwards.bounded (fetch_counted inverse deployment) start
      refine ⟨bounded, ?_⟩
      intro maximal route parsed established authorized some_ listed
      rw [fetch_eq parsed (fun _ => established) authorized]
      exact forwardMountedRequest_eloop (listMounts_ne_nil some_) listed (last maximal)
  · intro hops
    constructor
    · intro bounded
      by_contra wild
      obtain ⟨final, forwards⟩ := @facing_calls hops (MAX_MOUNT_HOPS + 1) (nine_steps wild)
      have longer := bounded facing _ _ _ final forwards
      omega
    · intro tame deployment volume operands n final forwards
      exact (@Forwards.bounded _ _ _ (call_counted deployment) _ _ _ tame forwards).1

end Bound

theorem forwards_bounded_missing : HeaderBounded readNumber printNumber none :=
  ((forwards_bounded readNumber_printNumber).1 none).mpr (by
    have zero : hopCount readNumber none = .finite 0 := by decide +kernel
    rw [zero]
    norm_num [Tame])

/-- A header that is no number is handed on for ever. -/
theorem forwards_endless (n : ℕ) : ∃ final,
    Forwards (fetch readNumber printNumber facing) n ("a".toList, cyclicRequest (some "abc".toList)) final := by
  have nan : hopCount readNumber (some "abc".toList) = .nan := by decide +kernel
  have fixed : ∀ k, JsNumber.next^[k] .nan = .nan := Function.iterate_fixed rfl
  refine facing_forwards readNumber_printNumber n ?_
  intro k _
  rw [nan, fixed]
  exact id

theorem forwards_unbounded : ¬HeaderBounded readNumber printNumber (some "abc".toList) := by
  intro bounded
  obtain ⟨final, forwards⟩ := forwards_endless 9
  have longer := (bounded facing _ (cyclicRequest (some "abc".toList)) rfl 9 final forwards).1
  simp [MAX_MOUNT_HOPS] at longer

end Mounts

end AiryFS
