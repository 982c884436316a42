import AiryFS.Changes.Webhooks

/-! What the outbox holds for an event, compared with what a poll returns of it.

Every event has a number of its own, so the trigger never meets a row that is already there:
what it selects is what it inserts. Whether that is also what a poll returns is a question
about one event and one webhook.
-/

set_option autoImplicit false

namespace AiryFS

open Foundation Feed Webhooks

/-- The feed, the subscriptions, and the deliveries under way. -/
structure WebhookRun where
  feed : Feed
  webhooks : Webhooks
  /-- What the running `deliverWebhooks` still has to send. -/
  batch : Option (List DueDelivery)
  /-- The key of every row that the trigger has inserted. -/
  enqueued : List (Text × Nat)
  deriving DecidableEq

namespace WebhookRun

inductive Action where
  | record (event : Event) (now : Int)
  | create (id : Text) (input : CreateWebhookInput) (secret : Text) (now : Int)
  | delete (id : Text)
  /-- `deliverWebhookQueue` reads what is due, unless it is running. -/
  | deliver (now : Int)
  /-- The answer to the next request of the running delivery. -/
  | answer (answer : Answer) (now : Int)

def initial : WebhookRun := ⟨.initial, ⟨.empty, .empty⟩, none, []⟩

variable (state : WebhookRun)

def record (event : Event) (now : Int) : WebhookRun :=
  let webhooks := state.webhooks.enqueue (state.feed.row event) now
  { state with
    feed := state.feed.record event
    webhooks
    enqueued := state.enqueued ++
      (webhooks.delivery.rows.drop state.webhooks.delivery.rows.length).map DeliveryRow.key }

def answer (answer : Answer) (now : Int) : WebhookRun :=
  match state.batch with
  | none => state
  | some [] => { state with batch := none }
  | some (delivery :: rest) =>
    { state with webhooks := state.webhooks.settleDelivery delivery answer now, batch := some rest }

def step (parse : Text → Option ParsedUrl) (state : WebhookRun) (action : Action) : WebhookRun :=
  match action with
  | .record event now => state.record event now
  | .create id input secret now =>
    { state with webhooks := settle state.webhooks (state.webhooks.createWebhook parse id input secret now) }
  | .delete id => { state with webhooks := state.webhooks.deleteWebhook id }
  | .deliver now => { state with batch := state.batch.orElse fun _ => some (state.webhooks.dueDeliveries now) }
  | .answer answer now => state.answer answer now

/-- The rows of the outbox for an event and a webhook. -/
def pending (id : Text) (seq : Nat) : List DeliveryRow :=
  state.webhooks.delivery.rows.filter fun row => row.key = (id, seq)

/-- A poll with the prefix that has the event between its two cursors. -/
def Covers (feed : Feed) (pathPrefix : Text) (row : ChangeRow) (page : ChangePage) : Prop :=
  ∃ options since, options.pathPrefix = some pathPrefix ∧ feed.getChanges options = .ok page ∧
    resolveSince options.since feed.latestChangeSeq = .ok since ∧ since.seq < row.seq ∧ row.seq ≤ page.cursor

/-- The event makes one row for a webhook when a poll with its prefix returns the event and
its filter lets the type through, and no row otherwise. -/
def Agreement (event : Event) (now : Int) : Prop :=
  ∀ webhook ∈ state.webhooks.webhook.rows, ∀ page,
    Covers (state.record event now).feed webhook.pathPrefix (state.feed.row event) page →
      (state.record event now).pending webhook.id (state.feed.row event).seq =
        if state.feed.row event ∈ page.events ∧ event.type ∈ webhook.events then
          [webhook.delivery (state.feed.row event) now] else []

/-- The path is the prefix itself. -/
def Reaches (pathPrefix path : Text) : Prop := path = pathPrefix ∨ path = pathPrefix ++ ['/']

/-- An event for the webhook is not one of the trash, and one that a poll finds although it
measures the prefix in UTF-16 units. -/
def SameAnswer (webhook : WebhookRow) (row : ChangeRow) : Prop :=
  row.type ∈ webhook.events → Matches webhook.pathPrefix row → visible row = true ∧
    (Plain webhook.pathPrefix ∨ Reaches webhook.pathPrefix row.path ∨ ∃ old ∈ row.oldPath, Reaches webhook.pathPrefix old)

/-! ## The two predicates -/

theorem Reaches.under {pathPrefix path : Text} (reached : Reaches pathPrefix path) : Under pathPrefix path := by
  rcases reached with same | same
  · exact .inl same
  · right
    rw [same]

theorem matchesPath_iff (pathPrefix path : Text) :
    matchesPath pathPrefix path = true ↔ Under pathPrefix path ∧ (Plain pathPrefix ∨ Reaches pathPrefix path) := by
  have slashed : Plain (pathPrefix ++ ['/']) ↔ Plain pathPrefix := by
    constructor
    · exact fun plain character member => plain character (List.mem_append_left _ member)
    · intro plain character member
      rcases List.mem_append.mp member with inside | last
      · exact plain character inside
      · rw [List.mem_singleton.mp last]
        decide
  rw [matchesPath, Bool.or_eq_true, decide_eq_true_eq, Feed.startsWith_iff, slashed, Under, Reaches]
  constructor
  · rintro (same | same | ⟨plain, begins⟩)
    · exact ⟨.inl same, .inr (.inl same)⟩
    · exact ⟨.inr (same ▸ List.prefix_rfl), .inr (.inr same)⟩
    · exact ⟨.inr begins, .inl plain⟩
  · rintro ⟨same | begins, plain | same' | same'⟩
    · exact .inl same
    · exact .inl same
    · exact .inl same
    · exact .inr (.inr ⟨plain, begins⟩)
    · exact .inl same'
    · exact .inr (.inl same')

/-- Whatever a poll finds is under the prefix. -/
theorem matchesRow_cases (pathPrefix : Text) (row : ChangeRow) :
    matchesRow pathPrefix row = true ↔ Matches pathPrefix row ∧
      (Plain pathPrefix ∨ Reaches pathPrefix row.path ∨ ∃ old ∈ row.oldPath, Reaches pathPrefix old) := by
  constructor
  · intro matched
    rw [matchesRow, Bool.or_eq_true, Bool.or_eq_true, decide_eq_true_eq, matchesPath_iff, Option.any_eq_true] at matched
    rcases matched with (root | ⟨path, found⟩) | ⟨old, named, found⟩
    · exact ⟨.inl root, .inl (root ▸ by decide +kernel)⟩
    · exact ⟨.inr (.inl path), found.imp_right .inl⟩
    · obtain ⟨path, found⟩ := (matchesPath_iff pathPrefix old).mp found
      exact ⟨.inr (.inr ⟨old, named, path⟩), found.imp_right fun reached => .inr ⟨old, named, reached⟩⟩
  · rintro ⟨matched, plain | reached | ⟨old, named, reached⟩⟩
    · exact (matchesRow_iff plain row).mpr matched
    · have found := (matchesPath_iff pathPrefix row.path).mpr ⟨reached.under, .inr reached⟩
      rw [matchesRow, Bool.or_eq_true, Bool.or_eq_true, found]
      exact .inl (.inr rfl)
    · rw [matchesRow, Bool.or_eq_true, Option.any_eq_true]
      exact .inr ⟨old, named, (matchesPath_iff pathPrefix old).mpr ⟨reached.under, .inr reached⟩⟩

theorem startsWith_iff (path pathPrefix : Text) :
    Webhooks.startsWith path pathPrefix = true ↔ pathPrefix ++ ['/'] <+: path := by
  have length : (pathPrefix ++ ['/']).length = pathPrefix.length + 1 := by simp
  rw [Webhooks.startsWith, decide_eq_true_eq, ← length, List.prefix_iff_eq_take]
  exact eq_comm

theorem name_separable (type : ChangeType) : Separable ',' [type.name] := by
  intro name member
  rw [List.mem_singleton.mp member]
  cases type <;> decide

theorem name_injective : Function.Injective ChangeType.name := by
  intro first second same
  cases first <;> cases second <;> first | rfl | (revert same; decide)

/-- The trigger looks for the type in the filter, and for the paths under the prefix. -/
theorem enqueues_iff (webhook : WebhookRow) (row : ChangeRow) :
    enqueues webhook row = true ↔ row.type ∈ webhook.events ∧ Matches webhook.pathPrefix row := by
  have separable : Separable ',' (webhook.events.map ChangeType.name) := by
    intro name member
    obtain ⟨type, _, rfl⟩ := List.mem_map.mp member
    exact name_separable type type.name (List.mem_singleton_self _)
  have filter : ',' :: row.type.name ++ [','] <:+: eventsColumn webhook.events ↔ row.type ∈ webhook.events := by
    rw [eventsColumn, delimited_infix_iff separable (name_separable row.type)]
    exact List.mem_map_of_injective name_injective
  rw [enqueues, Bool.and_eq_true, decide_eq_true_eq, filter]
  simp only [Bool.or_eq_true, decide_eq_true_eq, startsWith_iff, Option.any_eq_true, Matches, Under]
  refine and_congr_right fun _ => ?_
  constructor
  · rintro ((((root | same) | begins) | same) | ⟨old, named, begins⟩)
    · exact .inl root
    · exact .inr (.inl (.inl same))
    · exact .inr (.inl (.inr begins))
    · exact .inr (.inr ⟨_, same, .inl rfl⟩)
    · exact .inr (.inr ⟨old, named, .inr begins⟩)
  · rintro (root | (same | begins) | ⟨old, named, same | begins⟩)
    · exact .inl (.inl (.inl (.inl root)))
    · exact .inl (.inl (.inl (.inr same)))
    · exact .inl (.inl (.inr begins))
    · exact .inl (.inr (same ▸ named))
    · exact .inr ⟨old, named, begins⟩

/-! ## Runs -/

/-- What holds after every step. -/
structure Sound : Prop where
  recorded : ∃ history, Recorded history state.feed
  numbered : ∀ row ∈ state.webhooks.delivery.rows, row.seq < state.feed.nextSeq
  logged : ∀ key ∈ state.enqueued, key.2 < state.feed.nextSeq
  once : state.enqueued.Nodup

variable {state : WebhookRun}

theorem selected_keys (webhooks : Webhooks) (row : ChangeRow) (now : Int) :
    (webhooks.selected row now).map DeliveryRow.key =
      (webhooks.webhook.rows.filter (enqueues · row)).map fun webhook => (webhook.id, row.seq) := by
  rw [selected, List.map_map]
  rfl

theorem selected_unique (webhooks : Webhooks) (row : ChangeRow) (now : Int) :
    ((webhooks.selected row now).map DeliveryRow.key).Nodup := by
  have ids : ((webhooks.webhook.rows.filter (enqueues · row)).map WebhookRow.id).Nodup :=
    webhooks.webhook.unique.sublist (List.filter_sublist.map _)
  have pairs : Function.Injective fun id : Text => (id, row.seq) := fun first second same => (Prod.mk.inj same).1
  have keys := ids.map pairs
  rw [List.map_map] at keys
  rw [selected_keys]
  exact keys

/-- A new event finds no row of its own in the outbox, so nothing is ignored. -/
theorem Sound.enqueued_rows (sound : state.Sound) (event : Event) (now : Int) :
    (state.record event now).webhooks.delivery.rows =
      state.webhooks.delivery.rows ++ state.webhooks.selected (state.feed.row event) now := by
  apply Table.foldl_insertOrIgnore
  rw [List.map_append, List.nodup_append]
  refine ⟨state.webhooks.delivery.unique, selected_unique _ _ _, ?_⟩
  intro old listed key chosen same
  subst same
  obtain ⟨row, member, rfl⟩ := List.mem_map.mp listed
  rw [selected_keys] at chosen
  obtain ⟨webhook, _, keyed⟩ := List.mem_map.mp chosen
  have before := sound.numbered row member
  have number : state.feed.nextSeq = row.seq := (Prod.mk.inj keyed).2
  omega

theorem Sound.log (sound : state.Sound) (event : Event) (now : Int) :
    (state.record event now).enqueued =
      state.enqueued ++ (state.webhooks.selected (state.feed.row event) now).map DeliveryRow.key := by
  change state.enqueued ++ ((state.record event now).webhooks.delivery.rows.drop _).map _ = _
  rw [sound.enqueued_rows event now, List.drop_left]

theorem Sound.initial : WebhookRun.initial.Sound := ⟨⟨[], .initial⟩, nofun, nofun, List.nodup_nil⟩

theorem Sound.record (sound : state.Sound) (event : Event) (now : Int) : (state.record event now).Sound := by
  obtain ⟨history, recorded⟩ := sound.recorded
  have fresh : ∀ key ∈ (state.webhooks.selected (state.feed.row event) now).map DeliveryRow.key,
      key.2 = state.feed.nextSeq := by
    intro key chosen
    rw [selected_keys] at chosen
    obtain ⟨webhook, _, rfl⟩ := List.mem_map.mp chosen
    rfl
  have onward : (state.record event now).feed.nextSeq = state.feed.nextSeq + 1 := rfl
  constructor
  · exact ⟨_, recorded.record event⟩
  · intro row member
    rw [sound.enqueued_rows event now] at member
    rw [onward]
    rcases List.mem_append.mp member with old | new
    · exact Nat.lt_succ_of_lt (sound.numbered row old)
    · have number : row.seq = state.feed.nextSeq := fresh row.key (List.mem_map_of_mem new)
      omega
  · intro key listed
    rw [sound.log event now] at listed
    rw [onward]
    rcases List.mem_append.mp listed with old | new
    · exact Nat.lt_succ_of_lt (sound.logged key old)
    · have number := fresh key new
      omega
  · rw [sound.log event now, List.nodup_append]
    refine ⟨sound.once, selected_unique _ _ _, ?_⟩
    intro old listed key new same
    have before := sound.logged old listed
    have number := fresh key new
    rw [same] at before
    omega

/-- No other step touches the feed or adds a row. -/
theorem Sound.of_rows (sound : state.Sound) {webhooks : Webhooks} {batch : Option (List DueDelivery)}
    (known : ∀ row ∈ webhooks.delivery.rows, ∃ old ∈ state.webhooks.delivery.rows, row.seq = old.seq) :
    ({ state with webhooks, batch } : WebhookRun).Sound := by
  refine ⟨sound.recorded, ?_, sound.logged, sound.once⟩
  intro row member
  obtain ⟨old, listed, same⟩ := known row member
  rw [same]
  exact sound.numbered old listed

theorem createWebhook_delivery {webhooks webhooks' : Webhooks} {parse : Text → Option ParsedUrl} {id secret : Text}
    {input : CreateWebhookInput} {now : Int} (created : webhooks.createWebhook parse id input secret now = .ok webhooks') :
    webhooks'.delivery = webhooks.delivery := by
  unfold createWebhook at created
  obtain ⟨url, _, created⟩ := bind_eq_ok.mp created
  split at created
  · cases created
  · obtain ⟨events, _, created⟩ := bind_eq_ok.mp created
    obtain ⟨webhook, _, created⟩ := bind_eq_ok.mp created
    rw [← pure_eq_ok.mp created]

theorem settleDelivery_rows (webhooks : Webhooks) (delivery : DueDelivery) (answer : Answer) (now : Int) :
    ∀ row ∈ (webhooks.settleDelivery delivery answer now).delivery.rows,
      ∃ old ∈ webhooks.delivery.rows, row.seq = old.seq := by
  intro row member
  cases answer with
  | ok => exact ⟨row, (Table.mem_erase _ |>.mp member).1, rfl⟩
  | error message =>
    obtain ⟨old, listed, rfl⟩ := List.mem_map.mp member
    refine ⟨old, listed, ?_⟩
    split <;> rfl

theorem Sound.step (parse : Text → Option ParsedUrl) (sound : state.Sound) (action : Action) :
    (state.step parse action).Sound := by
  have unchanged : ∀ row ∈ state.webhooks.delivery.rows, ∃ old ∈ state.webhooks.delivery.rows, row.seq = old.seq :=
    fun row member => ⟨row, member, rfl⟩
  cases action with
  | record event now => exact sound.record event now
  | create id input secret now =>
    apply sound.of_rows
    have kept : (settle state.webhooks (state.webhooks.createWebhook parse id input secret now)).delivery =
        state.webhooks.delivery := by
      cases created : state.webhooks.createWebhook parse id input secret now with
      | error failure => rfl
      | ok webhooks => exact createWebhook_delivery created
    rw [kept]
    exact unchanged
  | delete id =>
    apply sound.of_rows
    intro row member
    exact ⟨row, (Table.mem_deleteWhere _ |>.mp member).1, rfl⟩
  | deliver now => exact sound.of_rows unchanged
  | answer answer now =>
    change (state.answer answer now).Sound
    unfold WebhookRun.answer
    split
    · exact sound
    · exact sound.of_rows unchanged
    · exact sound.of_rows (settleDelivery_rows _ _ _ _)

/-! ## One event -/

/-- The rows for one event and one webhook. -/
theorem Sound.pending_record (sound : state.Sound) (event : Event) (now : Int) {webhook : WebhookRow}
    (registered : webhook ∈ state.webhooks.webhook.rows) :
    (state.record event now).pending webhook.id (state.feed.row event).seq =
      if enqueues webhook (state.feed.row event) then [webhook.delivery (state.feed.row event) now] else [] := by
  have none : state.webhooks.delivery.rows.filter (fun row => row.key = (webhook.id, (state.feed.row event).seq)) = [] := by
    rw [List.filter_eq_nil_iff]
    intro row member keyed
    have before := sound.numbered row member
    have number : row.seq = state.feed.nextSeq := (Prod.mk.inj (of_decide_eq_true keyed)).2
    omega
  have own : state.webhooks.webhook.rows.filter (fun other => other.id = webhook.id) = [webhook] := by
    have found := (state.webhooks.webhook.find?_eq_some_iff).mpr ⟨registered, rfl⟩
    exact Table.filter_key _ found
  have keys : ((fun row : DeliveryRow => decide (row.key = (webhook.id, (state.feed.row event).seq))) ∘
      fun other => other.delivery (state.feed.row event) now) = fun other : WebhookRow => decide (other.id = webhook.id) := by
    funext other
    change decide ((other.id, (state.feed.row event).seq) = (webhook.id, (state.feed.row event).seq)) = _
    simp
  rw [pending, sound.enqueued_rows event now, List.filter_append, none, List.nil_append, selected, List.filter_map, keys,
    List.filter_comm, own]
  split
  · rename_i chosen
    rw [List.filter_cons_of_pos (by exact chosen)]
    rfl
  · rename_i passed
    rw [List.filter_cons_of_neg (by exact passed)]
    rfl

/-- A page that covers the event has it unless it hides the event or does not match it. -/
theorem Sound.mem_page (sound : state.Sound) (event : Event) (now : Int) {webhook : WebhookRow} {page : ChangePage}
    (covers : Covers (state.record event now).feed webhook.pathPrefix (state.feed.row event) page) :
    state.feed.row event ∈ page.events ↔ visible (state.feed.row event) = true ∧
      matchesRow webhook.pathPrefix (state.feed.row event) = true := by
  obtain ⟨options, since, named, read, resolved, after, before⟩ := covers
  obtain ⟨history, recorded⟩ := (sound.record event now).recorded
  obtain ⟨since', pathPrefix, resolved', normalized, _, _, _, _, listed⟩ := getChanges_ok recorded read
  rw [resolved] at resolved'
  rw [named, Option.elim_some, webhook.accepted] at normalized
  cases resolved'
  cases normalized
  have retained : state.feed.row event ∈ (state.record event now).feed.rows := by
    refine List.mem_filter.mpr ⟨List.mem_append_right _ (List.mem_singleton_self _), ?_⟩
    exact decide_eq_true (Nat.lt_add_of_pos_right (by decide))
  rw [listed]
  exact ⟨fun member => member.2.2.2, fun found => ⟨retained, after, before, found⟩⟩

/-- The two sides agree on a webhook exactly when the event is one of those above. -/
theorem Sound.sameAnswer_iff (sound : state.Sound) (event : Event) (now : Int) {webhook : WebhookRow} {page : ChangePage}
    (registered : webhook ∈ state.webhooks.webhook.rows)
    (covers : Covers (state.record event now).feed webhook.pathPrefix (state.feed.row event) page) :
    (state.record event now).pending webhook.id (state.feed.row event).seq =
        (if state.feed.row event ∈ page.events ∧ event.type ∈ webhook.events then
          [webhook.delivery (state.feed.row event) now] else []) ↔ SameAnswer webhook (state.feed.row event) := by
  have choice : ∀ first second : Prop, [Decidable first] → [Decidable second] →
      ((if first then [webhook.delivery (state.feed.row event) now] else []) = if second then
        [webhook.delivery (state.feed.row event) now] else []) = (first ↔ second) := by
    intro first second _ _
    by_cases left : first <;> by_cases right : second <;> simp [left, right]
  rw [sound.pending_record event now registered, choice, sound.mem_page event now covers, enqueues_iff, matchesRow_cases,
    SameAnswer]
  change (event.type ∈ _ ∧ _ ↔ _) ↔ (event.type ∈ _ → _)
  tauto

/-- The poll behind the last event covers the new one. -/
theorem Sound.covers (sound : state.Sound) (event : Event) (now : Int) (webhook : WebhookRow)
    (safe : isSafeInteger state.feed.nextSeq) :
    ∃ page, Covers (state.record event now).feed webhook.pathPrefix (state.feed.row event) page := by
  obtain ⟨history, recorded⟩ := sound.recorded
  have started := recorded.started
  have resolved : resolveSince (some (.integer (state.feed.nextSeq - 1 : Nat))) (state.record event now).feed.latestChangeSeq =
      .ok { seq := state.feed.nextSeq - 1, tail := false } := by
    have within : ¬(¬isSafeInteger (state.feed.nextSeq - 1 : Nat) ∨ ((state.feed.nextSeq - 1 : Nat) : Int) < 0) := by
      rw [isSafeInteger, decide_eq_true_eq] at safe
      rw [isSafeInteger, decide_eq_true_eq]
      omega
    exact if_neg within
  let options : GetChangesOptions :=
    { since := some (.integer (state.feed.nextSeq - 1 : Nat)), limit := none, pathPrefix := some webhook.pathPrefix }
  cases read : (state.record event now).feed.getChanges options with
  | error failure =>
    rw [Feed.getChanges, resolved, Option.elim_some, webhook.accepted] at read
    cases read
  | ok page =>
    refine ⟨page, options, _, rfl, read, resolved, Nat.sub_lt started Nat.one_pos, ?_⟩
    rw [Feed.getChanges, resolved, Option.elim_some, webhook.accepted] at read
    cases read
    -- Whatever is on the page is behind the last event, so it ends with the new one.
    refine @le_pageEnd _ ChangeRow.seq _ _ _ ?_ (Nat.le_of_eq (Nat.add_sub_cancel _ 1).symm)
    intro row taken
    have after := (List.mem_filter.mp (List.mem_of_mem_take taken)).2
    simp only [Bool.and_eq_true, decide_eq_true_eq] at after
    change state.feed.nextSeq ≤ row.seq
    omega

/-- In every state of every run nothing was enqueued twice, and the next event is enqueued for
each webhook just when a poll returns it, as long as it is one of those above. -/
theorem webhookAgreement (parse : Text → Option ParsedUrl) (actions : List Action) (event : Event) (now : Int) :
    let state := run (step parse) initial actions
    state.enqueued.Nodup ∧
    ((∀ webhook ∈ state.webhooks.webhook.rows, SameAnswer webhook (state.feed.row event)) → state.Agreement event now) ∧
    (isSafeInteger state.feed.nextSeq = true → state.Agreement event now →
      ∀ webhook ∈ state.webhooks.webhook.rows, SameAnswer webhook (state.feed.row event)) := by
  have sound : (run (step parse) initial actions).Sound := by
    induction actions using List.reverseRecOn with
    | nil => exact Sound.initial
    | append_singleton actions action ih =>
      rw [run, List.foldl_append]
      exact Sound.step parse ih action
  refine ⟨sound.once, ?_, ?_⟩
  · intro same webhook registered page covers
    exact (sound.sameAnswer_iff event now registered covers).mpr (same webhook registered)
  · intro safe agreement webhook registered
    obtain ⟨page, covers⟩ := sound.covers event now webhook safe
    exact (sound.sameAnswer_iff event now registered covers).mp (agreement webhook registered page covers)

/-- A webhook for everything, and a parser that finds an HTTPS URL. -/
def rootWebhook : WebhookRun :=
  run (step fun text => some ⟨"https:".toList, [], [], text⟩) initial
    [.create "w".toList ⟨.text "https://a".toList, .null, .missing⟩ "s".toList 0]

/-- A move to the trash, which polls do not show. -/
def trashed : Event := ⟨.rename, "/.airyfs-trash/1".toList, some "/a".toList, 2, 0⟩

theorem rootWebhook_disagrees : ¬rootWebhook.Agreement trashed 0 := by
  intro agreement
  have registered : ∃ webhook ∈ rootWebhook.webhooks.webhook.rows, webhook.id = "w".toList ∧ webhook.pathPrefix = ['/'] := by
    decide
  obtain ⟨webhook, member, named, root⟩ := registered
  have read : (rootWebhook.record trashed 0).feed.getChanges
      { since := some (.integer 0), limit := none, pathPrefix := some ['/'] } = .ok ⟨[], 1, 1, 1, false⟩ := by
    rfl
  have rows := agreement webhook member ⟨[], 1, 1, 1, false⟩
    ⟨_, ⟨0, false⟩, by rw [root], read, rfl, by decide, by decide⟩
  rw [named, if_neg (by simp)] at rows
  revert rows
  decide

end WebhookRun

end AiryFS
