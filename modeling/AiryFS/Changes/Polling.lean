import AiryFS.Direct.Paths
import AiryFS.Foundation.Runs
import AiryFS.Foundation.Pages
import Mathlib.Data.Rat.Floor

/-! Reading the change feed page by page, against everything that was ever written to it.

A page starts behind a cursor and ends at the next one. Between two polls the feed grows at
one end and is pruned at the other, so an event is either returned once or gone before its
poll, which then says so.
-/

set_option autoImplicit false

namespace AiryFS

open Foundation

namespace Feed

def DEFAULT_LIMIT : Nat := 100
def MAX_LIMIT : Nat := 1000

variable (feed : Feed)

def latestChangeSeq : Nat := feed.nextSeq - 1

def oldestChangeSeq (latest : Nat) : Nat := ((feed.rows.map (·.seq)).min?).getD (latest + 1)

def normalizePrefix (pathPrefix : Text) : Except Failure Text := do
  refuse (pathPrefix.any fun character => character.toNat = 0) (.error "pathPrefix contains a null byte")
  return Auth.normalizePath pathPrefix

/-- `none` stands for a limit that is missing or no finite number. -/
def clampLimit (limit : Option Rat) : Nat :=
  match limit with
  | none => DEFAULT_LIMIT
  | some limit =>
    let floored := ⌊limit⌋
    if floored < 1 then 1 else if floored > MAX_LIMIT then MAX_LIMIT else floored.toNat

structure Since where
  seq : Nat
  tail : Bool
  deriving DecidableEq, Repr

def resolveSince (since : Option JsValue) (latest : Nat) : Except Failure Since :=
  match since with
  | none => .ok { seq := latest, tail := true }
  | some (.integer seq) =>
    if ¬isSafeInteger seq ∨ seq < 0 then
      .error (.error "since must be a non-negative safe integer or \"latest\"")
    else .ok { seq := seq.toNat, tail := false }
  | some (.text text) =>
    if text = "latest".toList then .ok { seq := latest, tail := true }
    else .error (.error "since must be a non-negative safe integer or \"latest\"")
  | some _ => .error (.error "since must be a non-negative safe integer or \"latest\"")

def TRASH : Text := "/.airyfs-trash".toList

/-- The trash directory and what is in it. -/
def reserved (path : Text) : Bool := path = TRASH || path.take 15 = TRASH ++ ['/']

def visible (row : ChangeRow) : Bool := !reserved row.path && !row.oldPath.any reserved

/-- `substr` counts characters, and the length that it is given is one of a JavaScript string. -/
def startsWith (path withSlash : Text) : Bool := path.take (utf16Length withSlash) = withSlash

def matchesPath (pathPrefix path : Text) : Bool := path = pathPrefix || startsWith path (pathPrefix ++ ['/'])

def matchesRow (pathPrefix : Text) (row : ChangeRow) : Bool :=
  pathPrefix = ['/'] || matchesPath pathPrefix row.path || row.oldPath.any (matchesPath pathPrefix)

structure ChangePage where
  events : List ChangeRow
  cursor : Nat
  latest : Nat
  oldest : Nat
  gap : Bool
  deriving DecidableEq, Repr

structure GetChangesOptions where
  since : Option JsValue
  limit : Option Rat
  pathPrefix : Option Text

/-- The rows of the feed are in the order of their numbers. -/
def getChanges (options : GetChangesOptions) : Except Failure ChangePage := do
  let latest := feed.latestChangeSeq
  let oldest := feed.oldestChangeSeq latest
  let limit := clampLimit options.limit
  let since ← resolveSince options.since latest
  let pathPrefix ← options.pathPrefix.elim (pure ['/']) normalizePrefix
  let selected := feed.rows.filter fun row => row.seq > since.seq && visible row && matchesRow pathPrefix row
  let events := selected.take limit
  let cursor := (events.getLast?.map (·.seq)).getD latest
  let gap := !since.tail && since.seq < oldest - 1
  return { events, cursor, latest, oldest, gap }

/-! ## What the feed has recorded -/

/-- An event as a trigger writes it. -/
structure Event where
  type : ChangeType
  path : Text
  oldPath : Option Text
  ino : Int
  timestamp : Int
  deriving DecidableEq, Repr

def record (event : Event) : Feed := feed.push event.type event.path event.oldPath event.ino event.timestamp

def row (event : Event) : ChangeRow :=
  { seq := feed.nextSeq, type := event.type, path := event.path, oldPath := event.oldPath, ino := event.ino,
    timestamp := event.timestamp }

/-- The feed is what retention leaves of the history. -/
structure Recorded (history : List ChangeRow) (feed : Feed) : Prop where
  started : 0 < feed.nextSeq
  ordered : history.Pairwise fun first second => first.seq < second.seq
  below : ∀ row ∈ history, row.seq < feed.nextSeq
  retained : feed.rows = history.filter fun row => feed.nextSeq ≤ row.seq + CHANGE_FEED_RETENTION

namespace Recorded

variable {history : List ChangeRow} {feed : Feed}

theorem initial : Recorded [] Feed.initial := ⟨Nat.one_pos, List.Pairwise.nil, nofun, rfl⟩

theorem record (recorded : Recorded history feed) (event : Event) :
    Recorded (history ++ [feed.row event]) (feed.record event) := by
  refine ⟨Nat.succ_pos _, ?_, ?_, ?_⟩
  · refine List.pairwise_append.mpr ⟨recorded.ordered, List.pairwise_singleton _ _, ?_⟩
    intro earlier member last same
    rw [List.mem_singleton.mp same]
    exact recorded.below earlier member
  · intro row member
    rcases List.mem_append.mp member with old | new
    · exact Nat.lt_succ_of_lt (recorded.below row old)
    · rw [List.mem_singleton.mp new]
      exact Nat.lt_succ_self _
  · change (feed.rows ++ [feed.row event]).filter (fun row => feed.nextSeq < row.seq + CHANGE_FEED_RETENTION) = _
    rw [recorded.retained, List.filter_append, List.filter_append, List.filter_filter]
    congr 1
    apply List.filter_congr
    intro row _
    change (decide (feed.nextSeq < _) && decide (feed.nextSeq ≤ _)) = decide (feed.nextSeq + 1 ≤ _)
    rw [← Bool.decide_and]
    apply decide_eq_decide.mpr
    omega

theorem sorted (recorded : Recorded history feed) : feed.rows.Pairwise fun first second => first.seq < second.seq := by
  rw [recorded.retained]
  exact recorded.ordered.sublist List.filter_sublist

/-- Every retained number is above every pruned one. -/
theorem oldest_of_pruned (recorded : Recorded history feed) {row : ChangeRow} (known : row ∈ history)
    (pruned : row ∉ feed.rows) : row.seq < feed.oldestChangeSeq feed.latestChangeSeq := by
  have below := recorded.below row known
  have started := recorded.started
  unfold oldestChangeSeq latestChangeSeq
  cases oldest : (feed.rows.map (·.seq)).min? with
  | none =>
    rw [Option.getD_none]
    omega
  | some seq =>
    obtain ⟨first, member, same⟩ := List.mem_map.mp (List.min?_mem oldest)
    rw [recorded.retained, List.mem_filter, decide_eq_true_eq] at member pruned
    rw [Option.getD_some, ← same]
    have gone : ¬feed.nextSeq ≤ row.seq + CHANGE_FEED_RETENTION := fun kept => pruned ⟨known, kept⟩
    omega

end Recorded

/-! ## Paths under a prefix -/

/-- Every character is in the basic plane. -/
def Plain (text : Text) : Prop := ∀ character ∈ text, character.toNat ≤ 0xFFFF

instance (text : Text) : Decidable (Plain text) := List.decidableBAll _ text

/-- The path is the prefix or a descendant of it. -/
def Under (pathPrefix path : Text) : Prop := path = pathPrefix ∨ pathPrefix ++ ['/'] <+: path

def Matches (pathPrefix : Text) (row : ChangeRow) : Prop :=
  pathPrefix = ['/'] ∨ Under pathPrefix row.path ∨ ∃ old ∈ row.oldPath, Under pathPrefix old

theorem utf16Length_cons (character : Char) (text : Text) :
    utf16Length (character :: text) = (if character.toNat > 0xFFFF then 2 else 1) + utf16Length text := List.sum_cons

theorem length_le_utf16Length (text : Text) : text.length ≤ utf16Length text ∧
    (utf16Length text = text.length ↔ Plain text) := by
  induction text with
  | nil => exact ⟨le_refl _, fun _ => nofun, fun _ => rfl⟩
  | cons character text ih =>
    rw [utf16Length_cons, List.length_cons, Plain, List.forall_mem_cons]
    change _ ∧ (_ ↔ _ ∧ Plain text)
    rw [← ih.2]
    split
    · omega
    · omega

/-- A prefix beyond the basic plane is only found where the path ends with it. -/
theorem startsWith_iff (path withSlash : Text) :
    startsWith path withSlash = true ↔ path = withSlash ∨ Plain withSlash ∧ withSlash <+: path := by
  obtain ⟨longer, plain⟩ := length_le_utf16Length withSlash
  rw [startsWith, decide_eq_true_eq, ← plain]
  constructor
  · intro taken
    by_cases same : utf16Length withSlash = withSlash.length
    · right
      refine ⟨same, ?_⟩
      rw [← taken]
      exact List.take_prefix _ _
    · left
      have short : path.length ≤ utf16Length withSlash := by
        have lengths := congrArg List.length taken
        rw [List.length_take] at lengths
        omega
      rw [← taken, List.take_of_length_le short]
  · rintro (rfl | ⟨same, begins⟩)
    · exact List.take_of_length_le longer
    · rw [same]
      exact (List.prefix_iff_eq_take.mp begins).symm

theorem matchesRow_iff {pathPrefix : Text} (plain : Plain pathPrefix) (row : ChangeRow) :
    matchesRow pathPrefix row = true ↔ Matches pathPrefix row := by
  have slashed : Plain (pathPrefix ++ ['/']) := by
    intro character member
    rcases List.mem_append.mp member with inside | last
    · exact plain character inside
    · rw [List.mem_singleton.mp last]
      decide
  have path : ∀ path, matchesPath pathPrefix path = true ↔ Under pathPrefix path := by
    intro path
    rw [matchesPath, Bool.or_eq_true, decide_eq_true_eq, startsWith_iff, Under]
    constructor
    · rintro (same | rfl | ⟨_, begins⟩)
      · exact .inl same
      · exact .inr List.prefix_rfl
      · exact .inr begins
    · rintro (same | begins)
      · exact .inl same
      · exact .inr (.inr ⟨slashed, begins⟩)
  rw [matchesRow, Bool.or_eq_true, Bool.or_eq_true, decide_eq_true_eq, path, Matches, or_assoc, Option.any_eq_true]
  simp only [path, Option.mem_def]

/-! ## A page -/

theorem clampLimit_pos (limit : Option Rat) : 0 < clampLimit limit := by
  unfold clampLimit
  cases limit with
  | none => exact (by decide : 0 < DEFAULT_LIMIT)
  | some limit =>
    dsimp only
    split
    · exact Nat.one_pos
    · split
      · exact (by decide : 0 < MAX_LIMIT)
      · omega

/-- A page has every retained event that it should have between its two cursors, in order. -/
theorem getChanges_ok {feed : Feed} {options : GetChangesOptions} {page : ChangePage} {history : List ChangeRow}
    (recorded : Recorded history feed) (read : feed.getChanges options = .ok page) :
    ∃ since pathPrefix, resolveSince options.since feed.latestChangeSeq = .ok since ∧
      options.pathPrefix.elim (pure ['/']) normalizePrefix = .ok pathPrefix ∧
      page.gap = (!since.tail && since.seq < feed.oldestChangeSeq feed.latestChangeSeq - 1) ∧
      page.cursor ≤ feed.latestChangeSeq ∧ (since.seq ≤ feed.latestChangeSeq → since.seq ≤ page.cursor) ∧
      page.events.Pairwise (fun first second => first.seq < second.seq) ∧
      ∀ row, row ∈ page.events ↔ row ∈ feed.rows ∧ since.seq < row.seq ∧ row.seq ≤ page.cursor ∧
        visible row = true ∧ matchesRow pathPrefix row = true := by
  obtain ⟨since, resolved, read⟩ := bind_eq_ok.mp read
  obtain ⟨pathPrefix, normalized, read⟩ := bind_eq_ok.mp read
  rw [pure_eq_ok] at read
  subst read
  refine ⟨since, pathPrefix, resolved, normalized, rfl, ?_⟩
  dsimp only
  let selected := feed.rows.filter fun row => row.seq > since.seq && visible row && matchesRow pathPrefix row
  have below : ∀ row ∈ selected, row.seq ≤ feed.latestChangeSeq := by
    intro row member
    have known := List.mem_of_mem_filter member
    rw [recorded.retained] at known
    have bound := recorded.below row (List.mem_of_mem_filter known)
    unfold latestChangeSeq
    omega
  have sorted : selected.Pairwise fun first second => first.seq < second.seq := recorded.sorted.sublist List.filter_sublist
  refine ⟨?_, ?_, sorted.sublist (List.take_sublist _ _), ?_⟩
  · exact pageEnd_le (fun row taken => below row (List.mem_of_mem_take taken)) (le_refl _)
  · intro behind
    apply le_pageEnd _ behind
    intro row taken
    have after := (List.mem_filter.mp (List.mem_of_mem_take taken)).2
    simp only [Bool.and_eq_true, decide_eq_true_eq] at after
    exact Nat.le_of_lt after.1.1
  · intro row
    change row ∈ selected.take _ ↔ _
    rw [mem_page_iff sorted (clampLimit_pos options.limit) feed.latestChangeSeq, List.mem_filter]
    simp only [Bool.and_eq_true, decide_eq_true_eq]
    change _ ↔ _ ∧ _ ∧ row.seq ≤ pageEnd ChangeRow.seq (selected.take _) _ ∧ _
    tauto

end Feed

end AiryFS
