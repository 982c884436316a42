import AiryFS.Sites.RestingFile

/-! Byte ranges: what a `Range` header with one range asks for, and what the response to it delivers. -/

set_option autoImplicit false

namespace AiryFS

open Foundation

namespace Sites

/-! ## One range -/

/-- The positions are counted from the first byte, and the last one is included. -/
inductive RangeSpec where
  | from (first : Nat)
  | between (first last : Nat)
  | suffix (length : Nat)
  deriving DecidableEq, Repr

/-- `bytes=` in any case, and one range whose last position is not in front of its first. -/
def byteRange (text : Text) : Option RangeSpec :=
  if (text.take 6).map Char.toLower = "bytes=".toList then
    match (text.drop 6).splitOn '-' with
    | [first, last] =>
      if ¬digits first ∨ ¬digits last then none
      else if first = [] then if last = [] then none else some (.suffix (digitsValue last))
      else if last = [] then some (.from (digitsValue first))
      else if digitsValue first ≤ digitsValue last then some (.between (digitsValue first) (digitsValue last))
      else none
    | _ => none
  else none

/-- The first and last position of a satisfiable range. A position behind the end stands for the end. -/
def RangeSpec.resolve (size : Nat) : RangeSpec → Option (Nat × Nat)
  | .from first => if first < size then some (first, size - 1) else none
  | .between first last => if first < size then some (first, min last (size - 1)) else none
  | .suffix length => if 0 < length then some (size - length, size - 1) else none

/-! ## Responses -/

def Response.Delivers (response : Response) (bytes : Bytes) : Prop :=
  response.body = some ⟨bytes, none⟩ ∨ response.body = none ∧ bytes = []

section
variable (content : Bytes) (answered : Except Failure Response)

def WholeContent : Prop := ∃ response, answered = .ok response ∧ response.status = 200 ∧
  response.headers.get "Content-Length" = some (integerText 10 content.length) ∧
  response.headers.get "Content-Range" = none ∧ response.Delivers content

def PartialContent (start stop : Nat) : Prop := start ≤ stop ∧ stop < content.length ∧
  ∃ response, answered = .ok response ∧ response.status = 206 ∧
    response.headers.get "Content-Length" = some (integerText 10 (stop - start + 1 : Nat)) ∧
    response.headers.get "Content-Range" = some ("bytes ".toList ++ integerText 10 start ++ ['-'] ++ integerText 10 stop ++ ['/'] ++
      integerText 10 content.length) ∧
    response.Delivers ((content.take (stop + 1)).drop start)

def Unsatisfiable : Prop := answered = .error invalidRange

/-- The response is the one that the header asks for. -/
def ExactRange (text : Text) : Prop :=
  match byteRange text with
  | none => WholeContent content answered
  | some spec =>
    match spec.resolve content.length with
    | none => Unsatisfiable answered
    | some (start, stop) => PartialContent content answered start stop

end

/-- The two numbers of a text that the code goes on with as a range. -/
def taken (text : Text) : Option (Text × Text) :=
  if ¬"bytes=".toList.isPrefixOf text ∨ ',' ∈ text then none
  else (matchRange (SnapshotStorage.trim text)).filter fun numbers => numbers ≠ ([], [])

/-- The numbers that a satisfiable range depends on are safe integers, and there is a byte to deliver. -/
def RangeSpec.SafeFor (size : Nat) : RangeSpec → Prop
  | .from _ => True
  | .between first last => first < size → isSafeInteger last
  | .suffix length => 0 < length → isSafeInteger length ∧ 0 < size

/-- A text that is no range is not taken for one, the unit is written in small letters, and the numbers are safe. -/
def RangeServed (text : Text) (size : Nat) : Prop :=
  match byteRange text with
  | none => taken text = none
  | some spec => "bytes=".toList.isPrefixOf text ∧ spec.SafeFor size

/-! ## What the code takes for a range -/

theorem trim_of_solid {text : Text} (solid : ∀ c ∈ text, SnapshotStorage.trimmable c = false) : SnapshotStorage.trim text = text := by
  have front : text.dropWhile SnapshotStorage.trimmable = text := by
    cases text with
    | nil => rfl
    | cons c rest => exact List.dropWhile_cons_of_neg (by simp [solid c List.mem_cons_self])
  rw [SnapshotStorage.trim, front, List.rdropWhile_eq_self_iff]
  intro filled
  simp [solid _ (List.getLast_mem filled)]

theorem trimmable_of_digits {text : Text} (plain : digits text = true) {c : Char} (member : c ∈ text) :
    SnapshotStorage.trimmable c = false ∧ c ≠ ',' := by
  have digit := List.all_eq_true.mp plain c member
  simp only [Bool.and_eq_true, decide_eq_true_eq] at digit
  constructor
  · simp only [SnapshotStorage.trimmable, List.mem_cons, List.not_mem_nil, or_false, Bool.or_eq_false_iff, Bool.and_eq_false_iff,
      decide_eq_false_iff_not]
    omega
  · rintro rfl
    exact absurd digit (by decide)

/-- What is a range is taken for one, where the unit is written in small letters. -/
theorem taken_of_range {text first last : Text} (split : (text.drop 6).splitOn '-' = [first, last]) (front : digits first = true)
    (back : digits last = true) (small : "bytes=".toList.isPrefixOf text = true) (filled : (first, last) ≠ ([], [])) :
    taken text = some (first, last) := by
  obtain ⟨rest, rfl⟩ := List.isPrefixOf_iff_prefix.mp small
  have behind : ("bytes=".toList ++ rest).drop 6 = rest := List.drop_left' rfl
  rw [behind] at split
  have spelled : rest = first ++ '-' :: last := by
    have joined : ['-'].intercalate (rest.splitOn '-') = rest := List.intercalate_splitOn '-'
    rw [split] at joined
    rw [← joined]
    simp [List.intercalate]
  have units : ("bytes=".toList.all fun c => !SnapshotStorage.trimmable c && c != ',') = true := by decide
  have plain : ∀ c ∈ "bytes=".toList ++ rest, SnapshotStorage.trimmable c = false ∧ c ≠ ',' := by
    intro c member
    rcases List.mem_append.mp member with unit | number
    · simpa using List.all_eq_true.mp units c unit
    · rw [spelled] at number
      rcases List.mem_append.mp number with inside | inside
      · exact trimmable_of_digits front inside
      · rcases List.mem_cons.mp inside with rfl | inside
        · decide
        · exact trimmable_of_digits back inside
  have comma : ',' ∉ "bytes=".toList ++ rest := fun member => (plain _ member).2 rfl
  rw [taken, if_neg (not_or_intro (not_not_intro small) comma), trim_of_solid fun c member => (plain c member).1, matchRange,
    if_pos small, behind, split]
  simp [front, back, filled]

/-- The range as the code computes it from the two numbers. -/
theorem parseRange_eq (text : Text) (size : Nat) : parseRange (some text) size =
    match taken text with
    | none => .ok none
    | some (first, last) =>
      if size = 0 then .error invalidRange
      else if first = [] then
        if ¬isSafeInteger (digitsValue last) ∨ digitsValue last = 0 then .error invalidRange
        else .ok (some (size - digitsValue last, size - 1))
      else
        let stop := if last = [] then size - 1 else digitsValue last
        if ¬isSafeInteger (digitsValue first) ∨ ¬isSafeInteger stop ∨ size ≤ digitsValue first ∨ stop < digitsValue first then
          .error invalidRange
        else .ok (some (digitsValue first, min stop (size - 1))) := by
  unfold parseRange taken given
  by_cases empty : text = []
  · rw [empty]
    rfl
  rw [Option.filter_some, if_pos (decide_eq_true empty)]
  dsimp only
  by_cases other : ¬"bytes=".toList.isPrefixOf text ∨ ',' ∈ text
  · rw [if_pos other, if_pos other]
  rw [if_neg other, if_neg other]
  cases found : matchRange (SnapshotStorage.trim text) with
  | none => rfl
  | some numbers =>
    obtain ⟨first, last⟩ := numbers
    dsimp only
    by_cases neither : first = [] ∧ last = []
    · obtain ⟨rfl, rfl⟩ := neither
      rfl
    · have kept : decide ((first, last) ≠ ([], [])) = true := decide_eq_true fun same => neither (Prod.mk.inj same)
      rw [if_neg neither, Option.filter_some, if_pos kept]

theorem safe_of_small {number size : Nat} (safe : isSafeInteger size = true) (small : number ≤ size) :
    isSafeInteger (number : Int) = true := by
  have bound : (size : Int) ≤ maxSafeInteger := (of_decide_eq_true safe).2
  exact decide_eq_true ⟨by rw [maxSafeInteger]; omega, by omega⟩

/-- What is taken for a range is one inside the file, or it is refused. -/
theorem parsed_of_taken {text : Text} {numbers : Text × Text} (found : taken text = some numbers) (size : Nat) :
    parseRange (some text) size = .error invalidRange ∨
      ∃ start stop, start ≤ stop ∧ stop < size ∧ parseRange (some text) size = .ok (some (start, stop)) := by
  rw [parseRange_eq, found]
  dsimp only
  by_cases empty : size = 0
  · exact .inl (if_pos empty)
  rw [if_neg empty]
  split
  · split
    · exact .inl rfl
    · exact .inr ⟨_, _, by omega, by omega, rfl⟩
  · generalize (if numbers.2 = [] then size - 1 else digitsValue numbers.2) = stop
    split
    · exact .inl rfl
    · exact .inr ⟨_, _, by omega, by omega, rfl⟩

/-- A range is delivered, or it is unsatisfiable, or a number in it is not safe. -/
theorem parsed_of_range {text : Text} {spec : RangeSpec} {size : Nat} (range : byteRange text = some spec)
    (small : "bytes=".toList.isPrefixOf text = true) (safe : isSafeInteger size = true) :
    (∃ start stop, spec.resolve size = some (start, stop) ∧ spec.SafeFor size ∧ start ≤ stop ∧ stop < size ∧
        parseRange (some text) size = .ok (some (start, stop))) ∨
      (spec.resolve size = none ∧ spec.SafeFor size ∨ spec.resolve size ≠ none ∧ ¬spec.SafeFor size) ∧
        parseRange (some text) size = .error invalidRange := by
  unfold byteRange at range
  split at range
  · split at range
    · rename_i first last pieces
      split at range
      · cases range
      · rename_i plain
        have front : digits first = true := by_contra fun other => plain (.inl other)
        have back : digits last = true := by_contra fun other => plain (.inr other)
        rw [parseRange_eq, taken_of_range pieces front back small (by rintro ⟨⟩; simp at range)]
        dsimp only
        split at range
        · rename_i neither
          split at range
          · cases range
          · cases range
            rw [if_pos neither]
            generalize digitsValue last = length
            rcases Nat.eq_zero_or_pos length with zero | positive
            · exact .inr ⟨.inl ⟨by simp [RangeSpec.resolve, zero], by simp [RangeSpec.SafeFor, zero]⟩, by simp [zero]⟩
            by_cases good : isSafeInteger length = true ∧ 0 < size
            · refine .inl ⟨size - length, size - 1, if_pos positive, fun _ => good, by omega, by omega, ?_⟩
              rw [if_neg (by omega), if_neg (by simp [good.1]; omega)]
            · refine .inr ⟨.inr ⟨by simp [RangeSpec.resolve, positive], fun safeFor => good (safeFor positive)⟩, ?_⟩
              by_cases empty : size = 0
              · exact if_pos empty
              · rw [if_neg empty, if_pos (.inl fun yes => good ⟨yes, by omega⟩)]
        · rename_i filled
          rw [if_neg filled]
          generalize digitsValue first = start at range ⊢
          split at range
          · rename_i open_
            cases range
            rw [if_pos open_]
            by_cases inside : start < size
            · refine .inl ⟨start, size - 1, if_pos inside, trivial, by omega, by omega, ?_⟩
              have one : isSafeInteger start = true := safe_of_small safe (by omega)
              have two : isSafeInteger (size - 1 : Nat) = true := safe_of_small safe (by omega)
              rw [if_neg (by omega), if_neg (by rw [one, two]; simp; omega), Nat.min_self]
            · refine .inr ⟨.inl ⟨if_neg inside, trivial⟩, ?_⟩
              split
              · rfl
              · rw [if_pos (.inr (.inr (.inl (by omega))))]
          · rename_i closed
            rw [if_neg closed]
            generalize digitsValue last = stop at range ⊢
            split at range
            · rename_i ordered
              cases range
              by_cases inside : start < size
              · have one : isSafeInteger start = true := safe_of_small safe (by omega)
                by_cases good : isSafeInteger stop = true
                · refine .inl ⟨start, min stop (size - 1), if_pos inside, fun _ => good, by omega, by omega, ?_⟩
                  rw [if_neg (by omega), if_neg (by rw [one, good]; simp; omega)]
                · refine .inr ⟨.inr ⟨by simp [RangeSpec.resolve, inside], fun safeFor => good (safeFor inside)⟩, ?_⟩
                  rw [if_neg (by omega), if_pos (.inr (.inl good))]
              · refine .inr ⟨.inl ⟨if_neg inside, fun early => absurd early inside⟩, ?_⟩
                split
                · rfl
                · rw [if_pos (.inr (.inr (.inl (by omega))))]
            · cases range
    · cases range
  · cases range

end Sites

namespace Volume.FileAt

open Sites

variable {volume : Volume} {chunkSize : Nat} {path : Text} {row : InodeRow} {content : Bytes}
variable (file : volume.FileAt chunkSize path row content) (parse : Text → Option Int) (pathname : Text)
include file

/-- The stream of a range delivers its bytes. -/
theorem streamed (positive : 0 < chunkSize) {start stop : Nat} (inside : stop < content.length) :
    (Sites.createReadStream ⟨row.ino, chunkSize⟩ stop (stop + 1 - start) start []).run (answer chunkSize volume) =
      .ok ⟨(content.take (stop + 1)).drop start, none⟩ := by
  rw [file.createReadStream positive stop inside _ _ _ (by omega), List.nil_append]

/-- The answer to a request with this header. -/
theorem whole (positive : 0 < chunkSize) {text : Text} (parsed : parseRange (some text) content.length = .ok none) :
    WholeContent content ((fileResponse parse path ⟨"GET".toList, pathname, none, none, none, some text⟩).run (answer chunkSize volume)) := by
  rw [file.response parse pathname ((if_pos rfl).trans parsed), contentResponse]
  have length : (if row.size = 0 then 0 else row.size - 1 - 0 + 1) = content.length := by
    rw [file.size]
    split <;> omega
  simp only [Option.elim_none, Option.isSome_none, Bool.false_eq_true, if_false]
  rw [length]
  by_cases empty : row.size = 0
  · rw [if_pos (.inr empty), Asking.run_pure]
    refine ⟨_, rfl, rfl, Headers.get_set_self _ _ _, ?_, .inr ⟨rfl, ?_⟩⟩
    · rw [Headers.get_set_of_ne _ _ (by decide)]
      rfl
    · exact List.length_eq_zero_iff.mp (file.size.symm.trans empty)
  · have filled : ¬("GET".toList = "HEAD".toList ∨ row.size = 0) := not_or_intro (by decide) empty
    have size := file.size
    rw [if_neg filled, Asking.run_bind, run_openFile, file.openFile, ok_bind, Asking.run_bind,
      file.streamed positive (by omega), ok_bind, Asking.run_pure]
    refine ⟨_, rfl, rfl, Headers.get_set_self _ _ _, ?_, .inl ?_⟩
    · rw [Headers.get_set_of_ne _ _ (by decide)]
      rfl
    · rw [List.drop_zero, List.take_of_length_le (by omega)]

theorem part (positive : 0 < chunkSize) {text : Text} {start stop : Nat} (ordered : start ≤ stop) (inside : stop < content.length)
    (parsed : parseRange (some text) content.length = .ok (some (start, stop))) :
    PartialContent content ((fileResponse parse path ⟨"GET".toList, pathname, none, none, none, some text⟩).run (answer chunkSize volume))
      start stop := by
  refine ⟨ordered, inside, ?_⟩
  rw [file.response parse pathname ((if_pos rfl).trans parsed), contentResponse]
  have size := file.size
  have filled : ¬("GET".toList = "HEAD".toList ∨ row.size = 0) := not_or_intro (by decide) (by omega)
  simp only [Option.elim_some, Option.isSome_some, if_true]
  rw [if_neg filled, Asking.run_bind, run_openFile, file.openFile, ok_bind, Asking.run_bind, file.streamed positive inside, ok_bind,
    Asking.run_pure, if_neg (by omega)]
  refine ⟨_, rfl, rfl, ?_, ?_, .inl rfl⟩
  · rw [Headers.get_set_of_ne _ _ (by decide), Headers.get_set_self]
  · rw [Headers.get_set_self, size]

theorem refused {text : Text} (parsed : parseRange (some text) content.length = .error invalidRange) :
    Unsatisfiable ((fileResponse parse path ⟨"GET".toList, pathname, none, none, none, some text⟩).run (answer chunkSize volume)) := by
  have version : (versionForInode row.ino).run (answer chunkSize volume) = .ok (latestFileVersion volume row.ino) := rfl
  rw [Unsatisfiable, fileResponse, Asking.run_bind, run_stat, file.stat, ok_bind, if_neg (not_not_intro file.regular),
    Asking.run_bind, version, ok_bind]
  simp only [isNotModified, canServeRange, given, Option.filter_none, Bool.false_eq_true, if_false, and_true, if_true]
  rw [Asking.run_bind, Asking.run_lift, file.size, parsed]
  rfl

end Volume.FileAt

namespace Sites

variable {content : Bytes} {answered : Except Failure Response} {start stop : Nat}

theorem WholeContent.not_part (whole : WholeContent content answered) : ¬PartialContent content answered start stop := by
  obtain ⟨response, done, status, -⟩ := whole
  rintro ⟨-, -, other, same, different, -⟩
  rw [done] at same
  cases same
  omega

theorem WholeContent.not_refused (whole : WholeContent content answered) : ¬Unsatisfiable answered := by
  obtain ⟨response, done, -⟩ := whole
  intro refused
  rw [Unsatisfiable, done] at refused
  cases refused

theorem PartialContent.not_refused (part : PartialContent content answered start stop) : ¬Unsatisfiable answered := by
  obtain ⟨-, -, response, done, -⟩ := part
  intro refused
  rw [Unsatisfiable, done] at refused
  cases refused

end Sites

open Sites in
/-- The response is the one that the header asks for exactly where the text is read as what it is. -/
theorem ranges_exact_iff {volume : Volume} {chunkSize : Nat} {path : Text} {row : InodeRow} {content : Bytes}
    (file : volume.FileAt chunkSize path row content) (positive : 0 < chunkSize) (safe : isSafeInteger content.length = true)
    (parse : Text → Option Int) (pathname text : Text) :
    ExactRange content ((fileResponse parse path ⟨"GET".toList, pathname, none, none, none, some text⟩).run (answer chunkSize volume))
      text ↔ RangeServed text content.length := by
  unfold ExactRange RangeServed
  cases range : byteRange text with
  | none =>
    dsimp only
    cases found : taken text with
    | none =>
      refine iff_of_true (file.whole parse pathname positive ?_) rfl
      rw [parseRange_eq, found]
    | some numbers =>
      refine iff_of_false (fun whole => ?_) nofun
      rcases parsed_of_taken found content.length with refused | ⟨start, stop, ordered, inside, parsed⟩
      · exact whole.not_refused (file.refused parse pathname refused)
      · exact whole.not_part (file.part parse pathname positive ordered inside parsed)
  | some spec =>
    dsimp only
    by_cases small : "bytes=".toList.isPrefixOf text = true
    · rcases parsed_of_range range small safe with ⟨start, stop, resolved, safeFor, ordered, inside, parsed⟩ | ⟨kind, parsed⟩
      · rw [resolved]
        exact iff_of_true (file.part parse pathname positive ordered inside parsed) ⟨small, safeFor⟩
      · have refused := file.refused parse pathname parsed
        rcases kind with ⟨unsatisfiable, safeFor⟩ | ⟨satisfiable, risky⟩
        · rw [unsatisfiable]
          exact iff_of_true refused ⟨small, safeFor⟩
        · refine iff_of_false ?_ fun served => risky served.2
          cases resolved : spec.resolve content.length with
          | none => exact absurd resolved satisfiable
          | some range => exact fun part => part.not_refused refused
    · -- The unit is written with a capital letter, and the whole file is sent.
      have whole := file.whole parse pathname positive (by rw [parseRange_eq, taken, if_pos (.inl small)])
      refine iff_of_false ?_ fun served => small served.1
      cases resolved : spec.resolve content.length with
      | none => exact whole.not_refused
      | some range => exact whole.not_part

/-! ## A file of three bytes -/

def rangedRow : InodeRow := { InodeRow.create DEFAULT_FILE_MODE 0 0 0 with ino := 2, nlink := 1, size := 3 }

def rangedSample : Volume :=
  { Volume.fresh 0 with
    inode := ⟨[InodeRow.root 0, rangedRow], by decide⟩
    dentry := ⟨[⟨"f".toList, 1, 2⟩], List.pairwise_singleton _ _⟩
    data := ⟨[⟨2, 0, [1, 2, 3]⟩], List.pairwise_singleton _ _⟩
    inodeSequence := 2 }

theorem rangedSample_file : rangedSample.FileAt 4 "/f".toList rangedRow [1, 2, 3] where
  reached := by rfl
  stored := by rfl
  regular := by decide
  size := rfl
  laidOut := by
    funext index
    cases index with
    | zero => rfl
    | succ index =>
      have beyond : ¬(index + 1) * 4 < [(1 : UInt8), 2, 3].length := by
        simp only [List.length_cons, List.length_nil]
        omega
      rw [layout, if_neg beyond]
      rfl

open Sites in
theorem ranges_exact_sample : ExactRange [1, 2, 3] ((fileResponse (fun _ => none) "/f".toList
    ⟨"GET".toList, [], none, none, none, some "bytes=1-9".toList⟩).run (answer 4 rangedSample)) "bytes=1-9".toList := by
  have exact_ := ranges_exact_iff rangedSample_file (by decide) (by decide) (fun _ => none) [] "bytes=1-9".toList
  exact exact_.mpr ⟨by decide, fun _ => by decide⟩

open Sites in
/-- A range whose last position is in front of its first is no range, and a position beyond the safe
integers stands for the end: both are refused. -/
theorem ranges_refused :
    ¬ExactRange [1, 2, 3] ((fileResponse (fun _ => none) "/f".toList
      ⟨"GET".toList, [], none, none, none, some "bytes=2-1".toList⟩).run (answer 4 rangedSample)) "bytes=2-1".toList ∧
    ¬ExactRange [1, 2, 3] ((fileResponse (fun _ => none) "/f".toList
      ⟨"GET".toList, [], none, none, none, some "bytes=0-9007199254740992".toList⟩).run (answer 4 rangedSample))
      "bytes=0-9007199254740992".toList := by
  have file := rangedSample_file
  constructor
  · have read : byteRange "bytes=2-1".toList = none := by decide
    have refused := file.refused (fun _ => none) [] (show parseRange (some "bytes=2-1".toList) 3 = .error invalidRange by decide)
    unfold ExactRange
    rw [read]
    exact fun whole => whole.not_refused refused
  · have read : byteRange "bytes=0-9007199254740992".toList = some (.between 0 9007199254740992) := by decide
    have refused := file.refused (fun _ => none) [] (show parseRange (some "bytes=0-9007199254740992".toList) 3 = .error invalidRange by decide)
    unfold ExactRange
    rw [read]
    exact fun part => part.not_refused refused

end AiryFS
