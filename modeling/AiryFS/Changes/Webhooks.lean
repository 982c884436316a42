import AiryFS.Changes.Polling

/-! Webhook subscriptions, the outbox that a trigger on the change feed fills, and the deliveries.

The trigger and a poll answer the same question about an event, each with a predicate of its
own: the trigger counts the characters of the prefix and knows nothing of the trash.
-/

set_option autoImplicit false

namespace AiryFS

open Foundation Feed

def ChangeType.name : ChangeType → Text
  | .create => "create".toList
  | .modify => "modify".toList
  | .remove => "remove".toList
  | .rename => "rename".toList

namespace Webhooks

def WEBHOOK_EVENTS : List ChangeType := [.create, .modify, .remove, .rename]
def MAX_ATTEMPTS : Nat := 8
def MAX_DELIVERIES_PER_RUN : Nat := 25

/-- The column `events`: every name between two commas. -/
def eventsColumn (events : List ChangeType) : Text := absolute ',' (events.map ChangeType.name) ++ [',']

/-- A row of `fs_webhook`. Its prefix is one that normalization accepts and leaves alone. -/
structure WebhookRow where
  id : Text
  url : Text
  pathPrefix : Text
  events : List ChangeType
  secret : Text
  createdAt : Int
  accepted : Feed.normalizePrefix pathPrefix = .ok pathPrefix
  deriving DecidableEq

structure DeliveryRow where
  webhookId : Text
  seq : Nat
  type : ChangeType
  path : Text
  oldPath : Option Text
  ino : Int
  timestamp : Int
  attempts : Nat
  nextAttempt : Option Int
  lastError : Option String
  deriving DecidableEq

/-- `PRIMARY KEY (webhook_id, seq)`. -/
def DeliveryRow.key (row : DeliveryRow) : Text × Nat := (row.webhookId, row.seq)

end Webhooks

open Webhooks

/-- `fs_webhook` and `fs_webhook_delivery`. -/
structure Webhooks where
  webhook : Table WebhookRow.id
  delivery : Table DeliveryRow.key
  deriving DecidableEq

namespace Webhooks

/-- `substr(path, 1, length(path_prefix) + 1) = path_prefix || '/'`. -/
def startsWith (path pathPrefix : Text) : Bool := path.take (pathPrefix.length + 1) = pathPrefix ++ ['/']

/-- The condition of `trg_fs_webhook_enqueue`. -/
def enqueues (webhook : WebhookRow) (row : ChangeRow) : Bool :=
  decide (',' :: row.type.name ++ [','] <:+: eventsColumn webhook.events) &&
    (webhook.pathPrefix = ['/'] || row.path = webhook.pathPrefix || startsWith row.path webhook.pathPrefix ||
      row.oldPath = some webhook.pathPrefix || row.oldPath.any (startsWith · webhook.pathPrefix))

def WebhookRow.delivery (webhook : WebhookRow) (row : ChangeRow) (now : Int) : DeliveryRow :=
  { webhookId := webhook.id, seq := row.seq, type := row.type, path := row.path, oldPath := row.oldPath, ino := row.ino,
    timestamp := row.timestamp, attempts := 0, nextAttempt := some now, lastError := none }

variable (webhooks : Webhooks)

/-- The rows that the trigger selects for an event. -/
def selected (row : ChangeRow) (now : Int) : List DeliveryRow :=
  (webhooks.webhook.rows.filter (enqueues · row)).map (·.delivery row now)

/-- `trg_fs_webhook_enqueue`. -/
def enqueue (row : ChangeRow) (now : Int) : Webhooks :=
  { webhooks with delivery := (webhooks.selected row now).foldl Table.insertOrIgnore webhooks.delivery }

/-! ## Subscriptions -/

/-- What the URL parser finds in a text. -/
structure ParsedUrl where
  protocol : Text
  username : Text
  password : Text
  href : Text

/-- An element of an array of the request: whether it is a string, and its spelling. -/
structure EventInput where
  string : Bool
  spelled : Text

inductive EventsInput where
  | missing
  | array (events : List EventInput)
  | other

structure CreateWebhookInput where
  url : JsValue
  /-- `null` also when it is missing. -/
  pathPrefix : JsValue
  events : EventsInput

def normalizePrefix (value : JsValue) : Except Failure Text := do
  let failure : Failure := .http 400 "INVALID_ARGUMENT" "pathPrefix must be a path string"
  match value with
  | .text value =>
    refuse (value.any fun character => character.toNat = 0) failure
    return Auth.normalizePath value
  | _ => .error failure

def validateUrl (parse : Text → Option ParsedUrl) (value : JsValue) : Except Failure Text := do
  let failure : Failure := .http 400 "INVALID_ARGUMENT" "url must be an HTTPS URL"
  match value with
  | .text value =>
    let parsed ← required (parse value) failure
    refuse (parsed.protocol ≠ "https:".toList ∨ parsed.username ≠ [] ∨ parsed.password ≠ [])
      (.http 400 "INVALID_ARGUMENT" "url must be an HTTPS URL without embedded credentials")
    return parsed.href
  | _ => .error failure

/-- The event of the array, when it is one of the four. -/
def EventInput.type? (event : EventInput) : Option ChangeType :=
  if event.string then WEBHOOK_EVENTS.find? fun type => type.name = event.spelled else none

def addEvent (events : List ChangeType) (event : EventInput) : Except Failure (List ChangeType) := do
  let type ← required event.type?
    (.http 400 "INVALID_ARGUMENT" ("Unknown webhook event: " ++ String.ofList event.spelled))
  return if type ∈ events then events else events ++ [type]

def validateEvents (value : EventsInput) : Except Failure (List ChangeType) :=
  match value with
  | .missing => .ok WEBHOOK_EVENTS
  | .array (event :: events) => (event :: events).foldlM addEvent []
  | _ => .error (.http 400 "INVALID_ARGUMENT" "events must be a non-empty array")

/-- What the validation lets through is a prefix that a poll accepts, too. -/
theorem normalizePrefix_accepted {value : JsValue} {pathPrefix : Text} (normalized : normalizePrefix value = .ok pathPrefix) :
    Feed.normalizePrefix pathPrefix = .ok pathPrefix := by
  unfold normalizePrefix at normalized
  cases value with
  | text value =>
    obtain ⟨_, checked, returned⟩ := bind_eq_ok.mp normalized
    rw [pure_eq_ok] at returned
    rw [refuse_eq_ok] at checked
    subst returned
    have clean : ¬(Auth.normalizePath value).any (fun character => character.toNat = 0) = true := by
      intro found
      obtain ⟨character, member, terminator⟩ := List.any_eq_true.mp found
      rcases Auth.mem_normalizePath member with slash | inside
      · rw [slash] at terminator
        revert terminator
        decide
      · exact checked (List.any_eq_true.mpr ⟨character, inside, terminator⟩)
    rw [Feed.normalizePrefix, refuse_of_not clean, Auth.normalizePath_idem]
    rfl
  | null => cases normalized
  | integer value => cases normalized
  | fraction => cases normalized
  | blob value => cases normalized

/-- The identifier and the secret are random. -/
def createWebhook (parse : Text → Option ParsedUrl) (id : Text) (input : CreateWebhookInput) (secret : Text) (now : Int) :
    Except Failure Webhooks := do
  let url ← validateUrl parse input.url
  match normalized : normalizePrefix (if input.pathPrefix = .null then .text ['/'] else input.pathPrefix) with
  | .error failure => .error failure
  | .ok pathPrefix =>
    let events ← validateEvents input.events
    let webhook ← required (webhooks.webhook.insert?
      { id, url, pathPrefix, events, secret, createdAt := now, accepted := normalizePrefix_accepted normalized })
      (.constraint "fs_webhook")
    return { webhooks with webhook }

/-- With `trg_fs_webhook_delete`. -/
def deleteWebhook (id : Text) : Webhooks where
  webhook := webhooks.webhook.erase id
  delivery := webhooks.delivery.deleteWhere fun row =>
    decide (row.webhookId = id ∧ (webhooks.webhook.find? id).isSome = true)

/-! ## Deliveries -/

structure DueDelivery where
  row : DeliveryRow
  url : Text
  secret : Text
  deriving DecidableEq

def dueDeliveries (now : Int) : List DueDelivery :=
  let joined := webhooks.delivery.rows.filterMap fun row =>
    (webhooks.webhook.find? row.webhookId).map fun webhook => { row, url := webhook.url, secret := webhook.secret : DueDelivery }
  let due := joined.filterMap fun delivery => match delivery.row.nextAttempt with
    | some time => if time ≤ now then some (time, delivery) else none
    | none => none
  let ordered := due.insertionSort fun first second =>
    first.1 < second.1 ∨ first.1 = second.1 ∧ first.2.row.seq ≤ second.2.row.seq
  (ordered.take MAX_DELIVERIES_PER_RUN).map (·.2)

/-- How a request ended: with a success status, or with the message of an error. -/
inductive Answer where
  | ok
  | error (message : String)

/-- The statement that follows the answer. -/
def settleDelivery (delivery : DueDelivery) (answer : Answer) (now : Int) : Webhooks :=
  match answer with
  | .ok => { webhooks with delivery := webhooks.delivery.erase delivery.row.key }
  | .error message =>
    let attempts := delivery.row.attempts + 1
    let nextAttempt := if attempts ≥ MAX_ATTEMPTS then none else some (now + min 3600 (2 ^ attempts : Nat))
    let failed := fun row : DeliveryRow =>
      if row.key = delivery.row.key then { row with attempts, nextAttempt, lastError := some message } else row
    { webhooks with delivery := webhooks.delivery.modify failed fun row => by dsimp only [failed]; split <;> rfl }

end Webhooks

end AiryFS
