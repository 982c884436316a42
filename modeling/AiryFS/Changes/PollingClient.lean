import AiryFS.Changes.Polling

/-! A client that polls with one prefix and passes each cursor on, while the feed grows.

A waiting poll is a sequence of polls too: all but its last page are empty and without a gap,
and each passes its cursor to the next.
-/

set_option autoImplicit false

namespace AiryFS

open Foundation Feed

/-- One poll: the feed that it read, the number it started behind, and its page. -/
structure Poll where
  feed : Feed
  since : Nat
  page : ChangePage

/-- A feed with all that was ever written to it, and a client of it. -/
structure PollingRun where
  feed : Feed
  history : List ChangeRow
  /-- The argument of the next poll. -/
  since : Option JsValue
  received : List ChangeRow
  polls : List Poll

namespace PollingRun

inductive Action where
  | record (event : Event)
  | poll (limit : Option Rat)

/-- A feed of a new volume, and a client that has not polled. -/
def initial (since : Option JsValue) : PollingRun := ⟨.initial, [], since, [], []⟩

variable (pathPrefix : Text) (state : PollingRun)

def poll (limit : Option Rat) : PollingRun :=
  match state.feed.getChanges { since := state.since, limit, pathPrefix := some pathPrefix },
      resolveSince state.since state.feed.latestChangeSeq with
  | .ok page, .ok since => { state with
      since := some (.integer page.cursor)
      received := state.received ++ page.events
      polls := state.polls ++ [{ feed := state.feed, since := since.seq, page }] }
  | _, _ => state

def step (action : Action) : PollingRun :=
  match action with
  | .record event => { state with feed := state.feed.record event, history := state.history ++ [state.feed.row event] }
  | .poll limit => state.poll pathPrefix limit

/-- Where the client is: behind its first cursor, and up to its last one. -/
def reached : Option (Nat × Nat) :=
  match state.polls.head?, state.polls.getLast? with
  | some first, some last => some (first.since, last.page.cursor)
  | _, _ => none

/-- Nothing twice, nothing out of order, nothing that does not match, and nothing left out
except what was pruned, which the poll that passed it reports. -/
structure Complete : Prop where
  numbered : state.history.Pairwise fun first second => first.seq < second.seq
  ordered : state.received.Pairwise fun first second => first.seq < second.seq
  genuine : ∀ row ∈ state.received, row ∈ state.history ∧ visible row = true ∧
    Matches (Auth.normalizePath pathPrefix) row
  complete : ∀ first last, state.reached = some (first, last) → ∀ row ∈ state.history, first < row.seq → row.seq ≤ last →
    visible row = true → Matches (Auth.normalizePath pathPrefix) row →
      row ∈ state.received ∨ ∃ poll ∈ state.polls, poll.since < row.seq ∧ row.seq ≤ poll.page.cursor ∧
        row ∉ poll.feed.rows ∧ poll.page.gap = true
  reported : ∀ poll ∈ state.polls, ∀ row ∈ state.history, poll.since < row.seq → row.seq < poll.feed.nextSeq →
    row ∉ poll.feed.rows → poll.page.gap = true

/-- What holds after every step. -/
structure Sound : Prop extends state.Complete pathPrefix where
  recorded : Recorded state.history state.feed
  earlier : ∀ poll ∈ state.polls, poll.feed.nextSeq ≤ state.feed.nextSeq
  unpolled : state.polls = [] → state.received = []
  position : ∀ last ∈ state.polls.getLast?, state.since = some (.integer last.page.cursor) ∧
    last.page.cursor ≤ state.feed.latestChangeSeq ∧ ∀ row ∈ state.received, row.seq ≤ last.page.cursor

variable {pathPrefix : Text} {state : PollingRun}

theorem Sound.initial (since : Option JsValue) : (PollingRun.initial since).Sound pathPrefix :=
  ⟨⟨List.Pairwise.nil, List.Pairwise.nil, nofun, nofun, nofun⟩, .initial, nofun, fun _ => rfl, nofun⟩

/-- The feed grows behind everything that was polled. -/
theorem Sound.record (sound : state.Sound pathPrefix) (event : Event) :
    (state.step pathPrefix (.record event)).Sound pathPrefix := by
  have recorded := sound.recorded.record event
  have started := sound.recorded.started
  refine ⟨⟨recorded.ordered, sound.ordered, ?_, ?_, ?_⟩, recorded, ?_, sound.unpolled, ?_⟩
  · intro row member
    have known := sound.genuine row member
    exact ⟨List.mem_append_left _ known.1, known.2⟩
  · intro first last reached row member after within shown matched
    rcases List.mem_append.mp member with old | new
    · exact sound.complete first last reached row old after within shown matched
    · -- The new event is behind every cursor.
      rw [List.mem_singleton.mp new] at within
      change state.reached = _ at reached
      unfold PollingRun.reached at reached
      split at reached
      · rename_i final _ ended
        cases reached
        have bound := (sound.position final ended).2.1
        unfold latestChangeSeq at bound
        change state.feed.nextSeq ≤ _ at within
        omega
      · cases reached
  · intro poll member row known after before pruned
    rcases List.mem_append.mp known with old | new
    · exact sound.reported poll member row old after before pruned
    · have bound := sound.earlier poll member
      rw [List.mem_singleton.mp new] at before
      change state.feed.nextSeq < _ at before
      omega
  · exact fun poll member => Nat.le_succ_of_le (sound.earlier poll member)
  · intro last ended
    obtain ⟨passed, bound, behind⟩ := sound.position last ended
    refine ⟨passed, ?_, behind⟩
    unfold latestChangeSeq at bound ⊢
    change _ ≤ state.feed.nextSeq + 1 - 1
    omega

/-- A page leaves out only what was pruned, and then has a gap. -/
theorem page_complete {options : GetChangesOptions} {page : ChangePage} {since : Since} (plain : Plain (Auth.normalizePath pathPrefix))
    (recorded : Recorded state.history state.feed) (named : options.pathPrefix = some pathPrefix)
    (resolved : resolveSince options.since state.feed.latestChangeSeq = .ok since)
    (read : state.feed.getChanges options = .ok page) :
    page.cursor ≤ state.feed.latestChangeSeq ∧ (since.seq ≤ state.feed.latestChangeSeq → since.seq ≤ page.cursor) ∧
    page.events.Pairwise (fun first second => first.seq < second.seq) ∧
    (∀ row ∈ page.events, row ∈ state.history ∧ since.seq < row.seq ∧ row.seq ≤ page.cursor ∧ visible row = true ∧
      Matches (Auth.normalizePath pathPrefix) row) ∧
    (∀ row ∈ state.history, since.seq < row.seq → row ∉ state.feed.rows → page.gap = true) ∧
    ∀ row ∈ state.history, since.seq < row.seq → row.seq ≤ page.cursor → visible row = true →
      Matches (Auth.normalizePath pathPrefix) row → row ∈ page.events ∨ row ∉ state.feed.rows ∧ page.gap = true := by
  obtain ⟨since', normal, resolved', normalized, gap, within, onward, sorted, listed⟩ := getChanges_ok recorded read
  rw [resolved] at resolved'
  cases resolved'
  rw [named] at normalized
  obtain ⟨_, _, returned⟩ := bind_eq_ok.mp normalized
  rw [pure_eq_ok] at returned
  subst returned
  have pruned : ∀ row ∈ state.history, since.seq < row.seq → row ∉ state.feed.rows → page.gap = true := by
    intro row known after gone
    have below := recorded.below row known
    have old := recorded.oldest_of_pruned known gone
    rw [gap, Bool.and_eq_true, decide_eq_true_eq, Bool.not_eq_true']
    refine ⟨?_, by omega⟩
    -- A poll from the head has nothing above it.
    by_contra tail
    rw [Bool.not_eq_false] at tail
    have head : since.seq = state.feed.latestChangeSeq := by
      unfold resolveSince at resolved
      split at resolved
      · rw [← Except.ok.inj resolved]
      · split at resolved
        · cases resolved
        · rw [← Except.ok.inj resolved] at tail
          cases tail
      · split at resolved
        · rw [← Except.ok.inj resolved]
        · cases resolved
      · cases resolved
    unfold latestChangeSeq at head
    omega
  refine ⟨within, onward, sorted, ?_, pruned, ?_⟩
  · intro row member
    obtain ⟨kept, after, before, shown, matched⟩ := (listed row).mp member
    rw [recorded.retained] at kept
    exact ⟨List.mem_of_mem_filter kept, after, before, shown, (matchesRow_iff plain row).mp matched⟩
  · intro row known after before shown matched
    by_cases kept : row ∈ state.feed.rows
    · exact .inl ((listed row).mpr ⟨kept, after, before, shown, (matchesRow_iff plain row).mpr matched⟩)
    · exact .inr ⟨kept, pruned row known after kept⟩

theorem Sound.poll (sound : state.Sound pathPrefix) (plain : Plain (Auth.normalizePath pathPrefix)) (limit : Option Rat) :
    (state.step pathPrefix (.poll limit)).Sound pathPrefix := by
  change (state.poll pathPrefix limit).Sound pathPrefix
  unfold PollingRun.poll
  split
  · rename_i page since read resolved
    obtain ⟨within, onward, sorted, listed, pruned, complete⟩ := page_complete plain sound.recorded rfl resolved read
    -- Where the poll starts is where the last one ended.
    have continues : ∀ last ∈ state.polls.getLast?, since.seq = last.page.cursor := by
      intro last ended
      rw [(sound.position last ended).1, resolveSince] at resolved
      split at resolved
      · cases resolved
      · rw [← Except.ok.inj resolved]
        exact Int.toNat_natCast _
    have behind : ∀ row ∈ state.received, row.seq ≤ since.seq := by
      intro row member
      cases ended : state.polls.getLast? with
      | none =>
        rw [sound.unpolled (List.getLast?_eq_none_iff.mp ended)] at member
        cases member
      | some last =>
        rw [continues last ended]
        exact (sound.position last ended).2.2 row member
    refine ⟨⟨sound.numbered, ?_, ?_, ?_, ?_⟩, sound.recorded, ?_, ?_, ?_⟩
    · refine List.pairwise_append.mpr ⟨sound.ordered, sorted, ?_⟩
      intro earlier member later new
      exact lt_of_le_of_lt (behind earlier member) (listed later new).2.1
    · intro row member
      rcases List.mem_append.mp member with old | new
      · exact sound.genuine row old
      · exact ⟨(listed row new).1, (listed row new).2.2.2⟩
    · intro first final reached row known after before shown matched
      unfold PollingRun.reached at reached
      rw [List.getLast?_concat] at reached
      -- Either an earlier poll has passed the event, or this one does.
      by_cases passed : since.seq < row.seq
      · have page : row.seq ≤ page.cursor := by
          split at reached
          · rename_i ended
            cases ended
            cases reached
            exact before
          · cases reached
        rcases complete row known passed page shown matched with new | ⟨gone, gap⟩
        · exact .inl (List.mem_append_right _ new)
        · exact .inr ⟨_, List.mem_append_right _ (List.mem_singleton_self _), passed, page, gone, gap⟩
      · cases ended : state.polls.getLast? with
        | none =>
          have none := List.getLast?_eq_none_iff.mp ended
          rw [none] at reached
          cases reached
          exact absurd after passed
        | some last =>
          have old : state.reached = some (first, last.page.cursor) := by
            obtain ⟨head, tail, spelled⟩ := List.exists_cons_of_ne_nil (List.ne_nil_of_mem (List.mem_of_getLast? ended))
            rw [PollingRun.reached, ended, spelled]
            rw [spelled] at reached
            cases reached
            rfl
          rw [continues last ended] at passed
          rcases sound.complete first last.page.cursor old row known after (by omega) shown matched with kept | ⟨poll, member, rest⟩
          · exact .inl (List.mem_append_left _ kept)
          · exact .inr ⟨poll, List.mem_append_left _ member, rest⟩
    · intro poll member row known after before gone
      rcases List.mem_append.mp member with old | new
      · exact sound.reported poll old row known after before gone
      · rw [List.mem_singleton.mp new] at after gone ⊢
        exact pruned row known after gone
    · intro poll member
      rcases List.mem_append.mp member with old | new
      · exact sound.earlier poll old
      · rw [List.mem_singleton.mp new]
    · intro none
      exact absurd none (by simp)
    · intro last ended
      rw [List.getLast?_concat] at ended
      cases ended
      refine ⟨rfl, within, ?_⟩
      intro row member
      rcases List.mem_append.mp member with old | new
      · refine le_trans (behind row old) (onward ?_)
        cases ended : state.polls.getLast? with
        | none =>
          rw [sound.unpolled (List.getLast?_eq_none_iff.mp ended)] at old
          cases old
        | some last =>
          rw [continues last ended]
          exact (sound.position last ended).2.1
      · exact (listed row new).2.2.1
  · exact sound

/-- For a prefix in the basic plane, every state of every run is complete. -/
theorem completePolling (pathPrefix : Text) (plain : Plain (Auth.normalizePath pathPrefix)) (since : Option JsValue)
    (actions : List Action) : (run (step pathPrefix) (initial since) actions).Complete pathPrefix := by
  have sound : (run (step pathPrefix) (initial since) actions).Sound pathPrefix := by
    induction actions using List.reverseRecOn with
    | nil => exact Sound.initial since
    | append_singleton actions action ih =>
      rw [run, List.foldl_append]
      cases action with
      | record event => exact Sound.record ih event
      | poll limit => exact Sound.poll ih plain limit
  exact sound.toComplete

/-- Pages of one event each, with more events between them. -/
def smallPages : List Action :=
  [.record ⟨.create, "/a".toList, none, 2, 0⟩, .record ⟨.create, "/a/b".toList, none, 3, 0⟩, .poll (some 1),
    .record ⟨.rename, "/c".toList, some "/a/b".toList, 3, 0⟩, .poll (some 1), .poll none]

theorem completePolling_smallPages :
    (run (step "/a".toList) (initial (some (.integer 0))) smallPages).Complete "/a".toList ∧
      (run (step "/a".toList) (initial (some (.integer 0))) smallPages).received.map (·.seq) = [1, 2, 3] :=
  ⟨completePolling "/a".toList (by decide +kernel) (some (.integer 0)) smallPages, by decide +kernel⟩

/-- An entry of a directory whose name is one character beyond the basic plane. -/
def astralRun : PollingRun :=
  run (step "/😀".toList) (initial (some (.integer 0))) [.record ⟨.create, "/😀/a".toList, none, 3, 0⟩, .poll none]

/-- The client passes the entry without a gap. -/
theorem astralRun_incomplete : ¬astralRun.Complete "/😀".toList := by
  intro complete
  have lost := complete.complete 0 1 (by decide) ⟨1, .create, "/😀/a".toList, none, 3, 0⟩ (by decide) (by decide) (by decide)
    (by decide) (.inr (.inl (.inr (by decide))))
  have kept : astralRun.polls.all fun poll => poll.feed.rows.any fun row => row = ⟨1, .create, "/😀/a".toList, none, 3, 0⟩ := by
    decide
  rcases lost with received | ⟨poll, member, _, _, gone, _⟩
  · revert received
    decide
  · obtain ⟨row, found, same⟩ := List.any_eq_true.mp (List.all_eq_true.mp kept poll member)
    rw [of_decide_eq_true same] at found
    exact gone found

end PollingRun

end AiryFS
