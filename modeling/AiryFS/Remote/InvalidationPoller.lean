import AiryFS.Direct.Directories
import AiryFS.Foundation.Runs

/-! The mutation journal of the direct runtime, and the thread of a remote mount that reads it.

The thread drops from the kernel's cache the entries that the journal names. It learns where to begin
from a query of its own, while the mount may already serve requests.
-/

set_option autoImplicit false

namespace AiryFS

open Foundation

namespace MutationJournal

structure JournalRow where
  seq : Nat
  parentIno : Int
  name : Text
  ino : Option Int
  deriving DecidableEq, Repr

/-- The table `fs_mutation_journal`, whose rows are never deleted. -/
structure Journal where
  rows : List JournalRow
  /-- What AUTOINCREMENT gives to the next row. -/
  nextSeq : Nat
  positive : 0 < nextSeq
  ordered : rows.Pairwise fun first second => first.seq < second.seq
  numbered : ∀ row ∈ rows, row.seq < nextSeq

def Journal.empty : Journal := ⟨[], 1, Nat.one_pos, List.Pairwise.nil, fun _ listed => absurd listed List.not_mem_nil⟩

def Journal.insert (journal : Journal) (parentIno : Int) (name : Text) (ino : Option Int) : Journal where
  rows := journal.rows ++ [⟨journal.nextSeq, parentIno, name, ino⟩]
  nextSeq := journal.nextSeq + 1
  positive := Nat.succ_pos _
  ordered := by
    refine List.pairwise_append.mpr ⟨journal.ordered, List.pairwise_singleton _ _, fun row listed new same => ?_⟩
    rw [List.mem_singleton.mp same]
    exact journal.numbered row listed
  numbered := by
    intro row listed
    rcases List.mem_append.mp listed with earlier | last
    · exact Nat.lt_succ_of_lt (journal.numbered row earlier)
    · rw [List.mem_singleton.mp last]
      exact Nat.lt_succ_self _

/-- The parent and the name of an entry; the root is none. -/
def entryParts (path : Text) : Option (Text × Text) :=
  let normalized := absolute '/' (fields '/' path)
  if normalized = ['/'] then none
  else
    let name := normalized.rtakeWhile (· != '/')
    let separator := normalized.length - name.length - 1
    some (if separator = 0 then ['/'] else normalized.take separator, name)

/-- One path of the loop of `record`. -/
def recordPath (volume : Volume) (journal : Journal) (path : Text) : Journal :=
  match entryParts path with
  | none => journal
  | some (parent, name) =>
    match AgentFS.stat volume parent with
    | .error _ => journal
    -- `lstat` is `stat` in this adapter; an entry that is gone has no current inode.
    | .ok stats => journal.insert stats.ino name ((AgentFS.stat volume path).toOption.map (·.ino))

def record (volume : Volume) (journal : Journal) (paths : List Text) : Journal :=
  paths.eraseDups.foldl (recordPath volume) journal

theorem recordPath_cases (volume : Volume) (journal : Journal) (path : Text) :
    recordPath volume journal path = journal ∨
      ∃ parentIno name ino, recordPath volume journal path = journal.insert parentIno name ino := by
  unfold recordPath
  split
  · exact .inl rfl
  · split
    · exact .inl rfl
    · exact .inr ⟨_, _, _, rfl⟩

end MutationJournal

open MutationJournal

namespace Mounted

def POLL_LIMIT : Nat := 256

/-- Where `poll_invalidations` stands. -/
inductive Poller where
  | opening
  /-- At the head of the loop, with its `last_seq`. -/
  | waiting (lastSeq : Option Nat)
  /-- In the loop that passes the entries of a poll to `inval_entry`. -/
  | invalidating (lastSeq : Nat) (entries : List JournalRow)
  | exited
  deriving DecidableEq, Repr

/-- A mount, the journal that it polls, and what the two have done. -/
structure Session where
  journal : Journal
  running : Bool
  poller : Poller
  /-- The number of the first row that is appended once the session serves requests. -/
  serving : Option Nat
  /-- The rows passed to `inval_entry`, in order. -/
  invalidated : List JournalRow
  /-- The rows of the journal when a poll was last answered. -/
  asked : List JournalRow
  /-- How many rows that poll returned. -/
  returned : Option Nat

inductive Action where
  | record (volume : Volume) (path : Text)
  /-- `session.run()` begins. -/
  | serve
  /-- `session.run()` is done. -/
  | stop
  /-- The answer to `AgentFS::open`. -/
  | open (opened : Bool)
  /-- One poll: the query is answered, or fails somewhere. -/
  | poll (answered : Bool)
  /-- One entry of the loop that invalidates, or its end. -/
  | invalidate

/-- `Session::new` is done and the thread is spawned. -/
def start (journal : Journal) : Session := ⟨journal, true, .opening, none, [], [], none⟩

/-- `SELECT COALESCE(MAX(seq), 0) FROM fs_mutation_journal`. -/
def baseline (journal : Journal) : Nat := ((journal.rows.map (·.seq)).max?).getD 0

/-- `SELECT .. FROM fs_mutation_journal WHERE seq > ? ORDER BY seq LIMIT 256`. -/
def page (journal : Journal) (lastSeq : Nat) : List JournalRow :=
  (journal.rows.filter fun row => lastSeq < row.seq).take POLL_LIMIT

/-- One turn of the loop of `poll_invalidations`, up to its answer. -/
def poll (session : Session) (answered : Bool) : Session :=
  match session.poller with
  | .waiting lastSeq =>
    if session.running = false then { session with poller := .exited }
    else if answered = false then session
    else
      match lastSeq with
      | none => { session with
          poller := .waiting (some (baseline session.journal)), asked := session.journal.rows, returned := some 0 }
      | some lastSeq =>
        let entries := page session.journal lastSeq
        { session with
          poller := .invalidating lastSeq entries, asked := session.journal.rows, returned := some entries.length }
  | _ => session

def invalidate (session : Session) : Session :=
  match session.poller with
  | .invalidating lastSeq [] => { session with poller := .waiting (some lastSeq) }
  | .invalidating _ (row :: entries) =>
    { session with poller := .invalidating row.seq entries, invalidated := session.invalidated ++ [row] }
  | _ => session

def step (session : Session) : Action → Session
  | .record volume path => { session with journal := recordPath volume session.journal path }
  | .serve =>
    if session.running ∧ session.serving = none then { session with serving := some session.journal.nextSeq } else session
  | .stop => { session with running := false }
  | .open opened =>
    if session.poller = .opening then { session with poller := if opened then .waiting none else .exited } else session
  | .poll answered => poll session answered
  | .invalidate => invalidate session

/-- Entries of the last poll that are not passed on yet. -/
def Poller.pending : Poller → List JournalRow
  | .invalidating _ entries => entries
  | _ => []

/-- A poll that returned fewer rows than its limit, once its rows are passed on, leaves none out: the rows since
the session serves requests that were passed on are those that the journal had, each once and in their order. -/
def Informed (session : Session) : Prop :=
  ∀ first returned, session.serving = some first → session.returned = some returned → returned < POLL_LIMIT →
    session.poller.pending = [] →
      session.invalidated.filter (fun row => first ≤ row.seq) = session.asked.filter (fun row => first ≤ row.seq)

/-- The poll that takes the baseline finds no row that is newer than the session. -/
def Undisturbed (session : Session) (action : Action) : Prop :=
  action = .poll true → session.running = true → session.poller = .waiting none →
    ∀ first, session.serving = some first → ∀ row ∈ session.journal.rows, row.seq < first

/-! ## What a run keeps -/

/-- The journal is cut where the poller began, where it stands, and behind the entries that it holds. -/
structure Reads (session : Session) (lastSeq : Nat) (entries before later : List JournalRow) : Prop where
  rows : session.journal.rows = before ++ session.invalidated ++ entries ++ later
  behind : ∀ row ∈ before ++ session.invalidated, row.seq ≤ lastSeq
  ahead : ∀ row ∈ entries ++ later, lastSeq < row.seq
  bounded : lastSeq < session.journal.nextSeq
  short : ∀ returned, session.returned = some returned → returned < POLL_LIMIT →
    session.asked = before ++ session.invalidated ++ entries
  unheard : ∀ first, session.serving = some first → ∀ row ∈ before, row.seq < first

def Sound (session : Session) : Prop :=
  match session.poller with
  | .opening | .waiting none => session.invalidated = [] ∧ session.returned = none
  | .waiting (some lastSeq) => ∃ before later, Reads session lastSeq [] before later
  | .invalidating lastSeq entries => ∃ before later, Reads session lastSeq entries before later
  | .exited => session.returned = none ∨ ∃ lastSeq before later, Reads session lastSeq [] before later

theorem sound_start (journal : Journal) : Sound (start journal) := ⟨rfl, rfl⟩

variable {session : Session} {lastSeq : Nat} {entries before later : List JournalRow} {answered : Bool}

theorem Reads.insert (reads : Reads session lastSeq entries before later) (parentIno : Int) (name : Text) (ino : Option Int) :
    Reads { session with journal := session.journal.insert parentIno name ino } lastSeq entries before
      (later ++ [⟨session.journal.nextSeq, parentIno, name, ino⟩]) where
  rows := by
    change session.journal.rows ++ _ = _
    rw [reads.rows, List.append_assoc _ later]
  behind := reads.behind
  ahead := by
    intro row listed
    rw [← List.append_assoc] at listed
    rcases List.mem_append.mp listed with known | new
    · exact reads.ahead row known
    · rw [List.mem_singleton.mp new]
      exact reads.bounded
  bounded := Nat.lt_succ_of_lt reads.bounded
  short := reads.short
  unheard := reads.unheard

theorem Reads.serve (reads : Reads session lastSeq entries before later) :
    Reads { session with serving := some session.journal.nextSeq } lastSeq entries before later where
  rows := reads.rows
  behind := reads.behind
  ahead := reads.ahead
  bounded := reads.bounded
  short := reads.short
  unheard := by
    intro first same row listed
    obtain rfl := Option.some.inj same
    apply session.journal.numbered
    rw [reads.rows]
    simp [listed]

/-- What is behind the mark of a sorted list with a cut at the mark. -/
theorem page_eq (reads : Reads session lastSeq [] before later) : page session.journal lastSeq = later.take POLL_LIMIT := by
  have behind : (before ++ session.invalidated).filter (fun row => lastSeq < row.seq) = [] := by
    rw [List.filter_eq_nil_iff]
    intro row listed
    simpa using reads.behind row listed
  have ahead : later.filter (fun row => lastSeq < row.seq) = later := by
    rw [List.filter_eq_self]
    intro row listed
    simpa using reads.ahead row listed
  rw [page, reads.rows, List.append_nil, List.filter_append, behind, ahead, List.nil_append]

/-- A poll cuts its page from the rows that are left. -/
theorem Reads.poll (reads : Reads session lastSeq [] before later) :
    Reads { session with
        poller := .invalidating lastSeq (page session.journal lastSeq), asked := session.journal.rows,
        returned := some (page session.journal lastSeq).length }
      lastSeq (page session.journal lastSeq) before (later.drop POLL_LIMIT) where
  rows := by
    change session.journal.rows = _
    rw [page_eq reads, reads.rows, List.append_nil, List.append_assoc _ (later.take _), List.take_append_drop]
  behind := reads.behind
  ahead := by
    rw [page_eq reads, List.take_append_drop]
    exact reads.ahead
  bounded := reads.bounded
  short := by
    intro returned same few
    obtain rfl := Option.some.inj same
    rw [page_eq reads, List.length_take] at few
    have all : later.length ≤ POLL_LIMIT := by omega
    change session.journal.rows = _
    rw [page_eq reads, List.take_of_length_le all, reads.rows, List.append_nil]
  unheard := reads.unheard

/-- The next entry becomes the mark. -/
theorem Reads.invalidate {row : JournalRow} (reads : Reads session lastSeq (row :: entries) before later) :
    Reads { session with poller := .invalidating row.seq entries, invalidated := session.invalidated ++ [row] }
      row.seq entries before later where
  rows := by
    change session.journal.rows = _
    rw [reads.rows]
    simp
  behind := by
    intro other listed
    rw [← List.append_assoc] at listed
    rcases List.mem_append.mp listed with earlier | last
    · exact (Nat.le_of_lt (Nat.lt_of_le_of_lt (reads.behind other earlier) (reads.ahead row (by simp))))
    · rw [List.mem_singleton.mp last]
  ahead := by
    have ordered := session.journal.ordered
    rw [reads.rows, List.append_assoc, List.cons_append, List.pairwise_append, List.pairwise_cons] at ordered
    exact ordered.2.1.1
  bounded := by
    apply session.journal.numbered
    rw [reads.rows]
    simp
  short := by
    intro returned same few
    change session.asked = _
    rw [reads.short returned same few]
    simp
  unheard := reads.unheard

/-- All the rows are below the baseline or at it. -/
theorem le_baseline (journal : Journal) : ∀ row ∈ journal.rows, row.seq ≤ baseline journal := by
  intro row listed
  unfold baseline
  cases found : (journal.rows.map (·.seq)).max? with
  | none =>
    rw [List.max?_eq_none_iff, List.map_eq_nil_iff] at found
    rw [found] at listed
    cases listed
  | some most => exact (List.max?_eq_some_iff.mp found).2 _ (List.mem_map_of_mem listed)

theorem baseline_lt (journal : Journal) : baseline journal < journal.nextSeq := by
  unfold baseline
  cases found : (journal.rows.map (·.seq)).max? with
  | none => exact journal.positive
  | some most =>
    obtain ⟨row, listed, rfl⟩ := List.mem_map.mp (List.max?_eq_some_iff.mp found).1
    exact journal.numbered row listed

/-- The baseline cuts the journal at its end. -/
theorem reads_baseline (nothing : session.invalidated = [])
    (undisturbed : ∀ first, session.serving = some first → ∀ row ∈ session.journal.rows, row.seq < first) :
    Reads { session with
        poller := .waiting (some (baseline session.journal)), asked := session.journal.rows, returned := some 0 }
      (baseline session.journal) [] session.journal.rows [] where
  rows := by
    change session.journal.rows = session.journal.rows ++ session.invalidated ++ [] ++ []
    rw [nothing]
    simp
  behind := by
    change ∀ row ∈ session.journal.rows ++ session.invalidated, _
    rw [nothing, List.append_nil]
    exact le_baseline session.journal
  ahead := fun row listed => absurd listed List.not_mem_nil
  bounded := baseline_lt session.journal
  short := by
    intro _ _ _
    change session.journal.rows = session.journal.rows ++ session.invalidated ++ []
    rw [nothing]
    simp
  unheard := undisturbed

/-- What happens to the journal and to the session keeps every cut, so the poller's standing. -/
theorem Sound.unpolled {other : Session} (sound : Sound session) (same : other.poller = session.poller)
    (invalidated : other.invalidated = session.invalidated) (returned : other.returned = session.returned)
    (kept : ∀ lastSeq entries before later, Reads session lastSeq entries before later →
      ∃ later', Reads other lastSeq entries before later') : Sound other := by
  have moves : ∀ lastSeq entries, (∃ before later, Reads session lastSeq entries before later) →
      ∃ before later, Reads other lastSeq entries before later := by
    rintro lastSeq entries ⟨before, later, reads⟩
    obtain ⟨later', moved⟩ := kept _ _ _ _ reads
    exact ⟨before, later', moved⟩
  unfold Sound at sound ⊢
  rw [same]
  split at sound
  · exact ⟨invalidated.trans sound.1, returned.trans sound.2⟩
  · exact ⟨invalidated.trans sound.1, returned.trans sound.2⟩
  · exact moves _ _ sound
  · exact moves _ _ sound
  · rcases sound with none | ⟨lastSeq, reads⟩
    · exact .inl (returned.trans none)
    · exact .inr ⟨lastSeq, moves _ _ reads⟩

theorem Sound.record (sound : Sound session) (volume : Volume) (path : Text) :
    Sound { session with journal := recordPath volume session.journal path } := by
  rcases recordPath_cases volume session.journal path with same | ⟨parentIno, name, ino, same⟩
  · rw [same]
    exact sound
  · rw [same]
    exact sound.unpolled rfl rfl rfl fun _ _ _ _ reads => ⟨_, reads.insert parentIno name ino⟩

theorem Sound.poll (sound : Sound session) (undisturbed : Undisturbed session (.poll answered)) :
    Sound (Mounted.poll session answered) := by
  unfold Mounted.poll
  split
  case h_2 => exact sound
  case h_1 lastSeq standing =>
    unfold Sound at sound
    rw [standing] at sound
    split_ifs with stopped failed
    · cases lastSeq with
      | none => exact .inl sound.2
      | some lastSeq =>
        obtain ⟨before, later, reads⟩ := sound
        exact .inr ⟨lastSeq, before, later, ⟨reads.rows, reads.behind, reads.ahead, reads.bounded, reads.short, reads.unheard⟩⟩
    · unfold Sound
      rw [standing]
      exact sound
    · cases lastSeq with
      | none =>
        have running : session.running = true := by simpa using stopped
        have asked : answered = true := by simpa using failed
        exact ⟨_, _, reads_baseline sound.1 (undisturbed (by rw [asked]) running standing)⟩
      | some lastSeq =>
        obtain ⟨before, later, reads⟩ := sound
        exact ⟨_, _, reads.poll⟩

theorem Sound.invalidate (sound : Sound session) : Sound (Mounted.invalidate session) := by
  unfold Mounted.invalidate
  split
  · rename_i standing
    unfold Sound at sound
    rw [standing] at sound
    obtain ⟨before, later, reads⟩ := sound
    exact ⟨before, later, ⟨reads.rows, reads.behind, reads.ahead, reads.bounded, reads.short, reads.unheard⟩⟩
  · rename_i standing
    unfold Sound at sound
    rw [standing] at sound
    obtain ⟨before, later, reads⟩ := sound
    exact ⟨_, _, reads.invalidate⟩
  · exact sound

theorem Sound.step (sound : Sound session) {action : Action} (undisturbed : Undisturbed session action) :
    Sound (Mounted.step session action) := by
  cases action with
  | record volume path => exact sound.record volume path
  | serve =>
    unfold Mounted.step
    dsimp only
    split
    · exact sound.unpolled rfl rfl rfl fun _ _ _ _ reads => ⟨_, reads.serve⟩
    · exact sound
  | stop =>
    exact sound.unpolled rfl rfl rfl fun _ _ _ later reads =>
      ⟨later, reads.rows, reads.behind, reads.ahead, reads.bounded, reads.short, reads.unheard⟩
  | «open» opened =>
    unfold Mounted.step
    dsimp only
    split
    · rename_i standing
      unfold Sound at sound
      rw [standing] at sound
      cases opened with
      | true => exact sound
      | false => exact .inl sound.2
    · exact sound
  | poll answered => exact sound.poll undisturbed
  | invalidate => exact sound.invalidate

/-- A poller that stands right has left nothing out. -/
theorem Sound.informed (sound : Sound session) : Informed session := by
  intro first returned serving answered few consumed
  have cut : ∀ lastSeq, (∃ before later, Reads session lastSeq [] before later) →
      session.invalidated.filter (fun row => first ≤ row.seq) = session.asked.filter (fun row => first ≤ row.seq) := by
    rintro lastSeq ⟨before, later, reads⟩
    have old : before.filter (fun row => first ≤ row.seq) = [] := by
      rw [List.filter_eq_nil_iff]
      intro row listed
      simpa using reads.unheard first serving row listed
    rw [reads.short returned answered few, List.append_nil, List.filter_append, old, List.nil_append]
  unfold Sound at sound
  split at sound
  · exact absurd (sound.2.symm.trans answered) (by simp)
  · exact absurd (sound.2.symm.trans answered) (by simp)
  · exact cut _ sound
  · rename_i standing
    rw [standing] at consumed
    obtain rfl : _ = [] := consumed
    exact cut _ sound
  · rcases sound with none | ⟨lastSeq, reads⟩
    · exact absurd (none.symm.trans answered) (by simp)
    · exact cut lastSeq reads

/-- A baseline that is taken too late shows at once. -/
theorem undisturbed_of_informed (sound : Sound session) {action : Action} (informed : Informed (step session action)) :
    Undisturbed session action := by
  rintro rfl running standing first serving row listed
  have taken : step session (.poll true) = { session with
      poller := .waiting (some (baseline session.journal)), asked := session.journal.rows, returned := some 0 } := by
    unfold step poll
    simp [standing, running]
  unfold Sound at sound
  rw [standing] at sound
  rw [taken] at informed
  have nothing := informed first 0 serving rfl (by decide) rfl
  dsimp only at nothing
  rw [sound.1, List.filter_nil] at nothing
  have missed := List.filter_eq_nil_iff.mp nothing.symm row listed
  simpa using missed

/-- A run leaves out no row exactly when its baseline is taken before the journal grows. -/
theorem poller_informs_iff (journal : Journal) (actions : List Action) :
    (∀ reached, reached <+: actions → Informed (run step (start journal) reached)) ↔
      Guarded step Undisturbed (start journal) actions :=
  reached_iff_guarded (sound_start journal) (fun _ sound => sound.informed)
    (fun _ _ sound undisturbed => sound.step undisturbed) (fun _ _ sound informed => undisturbed_of_informed sound informed) actions

/-- A file is written between the start of the session and the first poll; the second returns nothing. -/
def late : List Action :=
  [.open true, .serve, .record (Volume.fresh 0) "/a".toList, .poll true, .poll true, .invalidate]

theorem late_row_lost : ¬Informed (run step (start Journal.empty) late) := by
  intro informed
  have none := informed 1 0 (by decide +kernel) (by decide +kernel) (by decide) (by decide +kernel)
  exact absurd none (by decide +kernel)

end Mounted

end AiryFS
