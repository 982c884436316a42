import AiryFS.Schedules.CronTimes

/-! What a cron expression names, and that the search is exact for it within its six years. -/

set_option autoImplicit false

namespace AiryFS

open Foundation Calendar

namespace Schedules

section Meaning
variable (number : Text → Option Int)

/-- The first and last value of an item and its step. -/
structure Range where
  start : Int
  last : Int
  step : Int
  deriving DecidableEq

/-- `*`, a number, or two numbers with a dash, and the step behind a slash. -/
def rangeOf (min max : Int) (item : Text) : Option Range :=
  let parts := item.splitOn '/'
  match (parts[1]?).elim (some 1) number with
  | none => none
  | some step =>
    if parts.headD [] = ['*'] then some ⟨min, max, step⟩
    else
      match (parts.headD []).splitOn '-' with
      | [single] => (number single).map fun value => ⟨value, value, step⟩
      | [start, last] => (number start).bind fun start => (number last).map fun last => ⟨start, last, step⟩
      | _ => none

/-- The values from the first one on, step by step. -/
def Range.Contains (range : Range) (value : Int) : Prop :=
  ∃ count : Nat, value = range.start + count * range.step ∧ value ≤ range.last

/-- A list names what one of its items names. -/
def Lists (min max : Int) (raw : Text) (value : Int) : Prop :=
  ∃ item ∈ raw.splitOn ',', ∃ range, rangeOf number min max item = some range ∧ range.Contains value

/-- Weekday 7 is Sunday as weekday 0 is. -/
def ListsWeekday (raw : Text) (weekday : Int) : Prop := ∃ value, Lists number 0 7 raw value ∧ value % 7 = weekday

/-- A minute that the five fields name. A day is named by either of its fields when both are
restricted, that is, not `*`. -/
structure Named (fields : List Text) (time : Int) : Prop where
  minute : Lists number 0 59 (fields.getD 0 []) (getUTCMinutes time)
  hour : Lists number 0 23 (fields.getD 1 []) (getUTCHours time)
  day : if fields.getD 2 [] ≠ ['*'] ∧ fields.getD 4 [] ≠ ['*']
    then Lists number 1 31 (fields.getD 2 []) (getUTCDate time) ∨ ListsWeekday number (fields.getD 4 []) (getUTCDay time)
    else Lists number 1 31 (fields.getD 2 []) (getUTCDate time) ∧ ListsWeekday number (fields.getD 4 []) (getUTCDay time)
  month : Lists number 1 12 (fields.getD 3 []) (getUTCMonth time + 1)

/-- Every item of the weekday field that ends in 7 names it, or the field names Sunday elsewhere. -/
def SundaysNamed (raw : Text) : Prop :=
  ∀ item ∈ raw.splitOn ',', ∀ range, rangeOf number 0 7 item = some range → range.last = 7 → ListsWeekday number raw 0

end Meaning

variable {number : Text → Option Int} {spec : CronSpec}

/-! ## The parser's values -/

theorem mem_span_iff {start last step value : Int} (positive : 0 < step) :
    value ∈ span start last step ↔ Range.Contains ⟨start, last, step⟩ value := by
  constructor
  · intro member
    have within := mem_span positive member
    obtain ⟨count, -, rfl⟩ := List.mem_map.mp member
    exact ⟨count, rfl, within.2⟩
  · rintro ⟨count, rfl, within⟩
    dsimp only at within
    refine List.mem_map.mpr ⟨count, List.mem_range.mpr ?_, rfl⟩
    have room : (count : Int) ≤ (last - start) / step := (Int.le_ediv_iff_mul_le positive).mpr (by omega)
    omega

theorem parseStep_eq {raw : Text} {stepText : Option Text} {step : Int}
    (parsed : parseStep number raw stepText = .ok step) : stepText.elim (some 1) number = some step := by
  obtain ⟨value, read, parsed⟩ := bind_eq_ok.mp parsed
  obtain ⟨_, -, parsed⟩ := bind_eq_ok.mp parsed
  rw [← pure_eq_ok.mp parsed]
  exact required_eq_ok.mp read

/-- The range that the parser reads is that of the item. -/
theorem rangeOf_parsed {raw item : Text} {min max start last step : Int} {first final : Option Int}
    (stepped : parseStep number raw (item.splitOn '/')[1]? = .ok step)
    (ranged : parseRange number raw min max ((item.splitOn '/').headD []) = .ok (first, final))
    (from_ : first = some start) (until_ : final = some last) :
    rangeOf number min max item = some ⟨start, last, step⟩ := by
  subst from_ until_
  unfold rangeOf
  dsimp only
  rw [parseStep_eq stepped]
  unfold parseRange at ranged
  split at ranged
  · rename_i star
    obtain ⟨rfl, rfl⟩ : min = start ∧ max = last := by simpa using Prod.mk.inj (pure_eq_ok.mp ranged)
    exact if_pos star
  · rename_i other
    dsimp only
    rw [if_neg other]
    split at ranged
    · obtain ⟨_, two, ranged⟩ := bind_eq_ok.mp ranged
      have two := refuse_eq_ok.mp two
      obtain ⟨one, another, parts⟩ := List.length_eq_two.mp (not_not.mp two)
      rw [parts] at ranged ⊢
      obtain ⟨left, right⟩ := Prod.mk.inj (pure_eq_ok.mp ranged)
      have left : number one = some start := left
      have right : number another = some last := right
      simp [left, right]
    · rename_i dashless
      rw [List.splitOn_eq_singleton dashless]
      obtain ⟨left, right⟩ := Prod.mk.inj (pure_eq_ok.mp ranged)
      dsimp only
      rw [left]
      obtain rfl := Option.some.inj (left.symm.trans right)
      rfl

/-- What the parser takes an item for. -/
structure Reads (number : Text → Option Int) (min max : Int) (item : Text) (range : Range) : Prop where
  spelled : rangeOf number min max item = some range
  positive : 0 < range.step
  start : min ≤ range.start
  last : range.last ≤ max

theorem parseItem_plain {raw item : Text} {min max : Int} {values : List Int}
    (parsed : parseItem number raw min max false item = .ok values) :
    ∃ range, Reads number min max item range ∧ ∀ value, value ∈ values ↔ range.Contains value := by
  obtain ⟨step, stepped, parsed⟩ := bind_eq_ok.mp parsed
  obtain ⟨⟨first, final⟩, ranged, parsed⟩ := bind_eq_ok.mp parsed
  dsimp only [Bool.false_and] at parsed
  simp only [Bool.false_eq_true, false_and, if_false] at parsed
  obtain ⟨start, from_, parsed⟩ := bind_eq_ok.mp parsed
  obtain ⟨last, until_, parsed⟩ := bind_eq_ok.mp parsed
  obtain ⟨_, inside, parsed⟩ := bind_eq_ok.mp parsed
  have inside := refuse_eq_ok.mp inside
  have positive := parseStep_pos stepped
  refine ⟨⟨start, last, step⟩, ⟨rangeOf_parsed stepped ranged (required_eq_ok.mp from_) (required_eq_ok.mp until_),
    positive, ?_, ?_⟩, ?_⟩
  · dsimp only
    omega
  · dsimp only
    omega
  · intro value
    rw [← pure_eq_ok.mp parsed]
    exact mem_span_iff positive

/-- A range that ends in 7 gives 0 and its values up to 6. -/
theorem parseItem_weekday {raw item : Text} {values : List Int}
    (parsed : parseItem number raw 0 7 true item = .ok values) :
    ∃ range, Reads number 0 7 item range ∧
      ∀ value, value ∈ values ↔ value = 0 ∧ range.last = 7 ∨ value ≤ 6 ∧ range.Contains value := by
  obtain ⟨step, stepped, parsed⟩ := bind_eq_ok.mp parsed
  obtain ⟨⟨first, final⟩, ranged, parsed⟩ := bind_eq_ok.mp parsed
  have positive := parseStep_pos stepped
  dsimp only at parsed
  split at parsed
  · rename_i sevens
    obtain ⟨-, rfl, rfl⟩ := sevens
    refine ⟨⟨7, 7, step⟩, ⟨rangeOf_parsed stepped ranged rfl rfl, positive, show (0 : Int) ≤ 7 by decide, le_rfl⟩, ?_⟩
    intro value
    rw [← pure_eq_ok.mp parsed, List.mem_singleton]
    constructor
    · exact fun zero => .inl ⟨zero, rfl⟩
    · rintro (⟨zero, -⟩ | ⟨small, count, rfl, -⟩)
      · exact zero
      · have := Int.mul_nonneg (Int.natCast_nonneg count) positive.le
        dsimp only at small
        omega
  · obtain ⟨start, from_, parsed⟩ := bind_eq_ok.mp parsed
    obtain ⟨last, until_, parsed⟩ := bind_eq_ok.mp parsed
    obtain ⟨_, inside, parsed⟩ := bind_eq_ok.mp parsed
    have inside := refuse_eq_ok.mp inside
    have until_ := required_eq_ok.mp until_
    have names := parsed
    rw [Bool.true_and] at until_ parsed
    by_cases seven : final = some 7
    · simp only [seven, decide_true, if_true] at until_ parsed
      obtain rfl := Option.some.inj until_
      refine ⟨⟨start, 7, step⟩, ⟨rangeOf_parsed stepped ranged (required_eq_ok.mp from_) seven, positive, ?_, le_rfl⟩, ?_⟩
      · dsimp only
        omega
      · intro value
        rw [← pure_eq_ok.mp parsed, List.mem_append, List.mem_singleton, mem_span_iff positive]
        refine or_congr (by simp) ?_
        constructor
        · rintro ⟨count, rfl, small⟩
          dsimp only at small ⊢
          exact ⟨small, count, rfl, by dsimp only; omega⟩
        · rintro ⟨small, count, rfl, -⟩
          exact ⟨count, rfl, small⟩
    · simp only [seven, decide_false, Bool.false_eq_true, if_false] at until_ parsed
      have below : last ≠ 7 := fun equal => seven (until_.trans (congrArg some equal))
      refine ⟨⟨start, last, step⟩, ⟨rangeOf_parsed stepped ranged (required_eq_ok.mp from_) until_, positive, ?_, ?_⟩, ?_⟩
      · dsimp only
        omega
      · dsimp only
        omega
      · intro value
        rw [← pure_eq_ok.mp parsed, List.nil_append, mem_span_iff positive]
        constructor
        · rintro ⟨count, equal, small⟩
          dsimp only at small
          exact .inr ⟨by omega, count, equal, small⟩
        · rintro (⟨-, equal⟩ | ⟨-, named⟩)
          · exact absurd equal below
          · exact named

/-- A field has the values of its items. -/
theorem parseField_items {raw : Text} {min max : Int} {weekday : Bool} {field : CronField}
    (parsed : parseField number raw min max weekday = .ok field) (value : Int) :
    (value ∈ field.values ↔ ∃ item ∈ raw.splitOn ',', ∃ values, parseItem number raw min max weekday item = .ok values ∧
      value ∈ values) ∧ (field.wildcard ↔ raw = ['*']) := by
  obtain ⟨items, each, parsed⟩ := bind_eq_ok.mp parsed
  obtain ⟨_, -, parsed⟩ := bind_eq_ok.mp parsed
  rw [← pure_eq_ok.mp parsed]
  refine ⟨?_, decide_eq_true_iff⟩
  rw [List.mem_insertionSort, List.mem_dedup, List.mem_flatten]
  constructor
  · rintro ⟨values, listed, member⟩
    obtain ⟨item, inside, read⟩ := mem_of_mapM each listed
    exact ⟨item, inside, values, read, member⟩
  · rintro ⟨item, inside, values, read, member⟩
    obtain ⟨values', read', listed⟩ := mapM_ok_mem each inside
    obtain rfl := Except.ok.inj (read.symm.trans read')
    exact ⟨values, listed, member⟩

theorem mem_plain {raw : Text} {min max : Int} {field : CronField}
    (parsed : parseField number raw min max false = .ok field) (value : Int) :
    value ∈ field.values ↔ Lists number min max raw value := by
  rw [(parseField_items parsed value).1]
  constructor
  · rintro ⟨item, inside, values, read, member⟩
    obtain ⟨range, reads, named⟩ := parseItem_plain read
    exact ⟨item, inside, range, reads.spelled, (named value).mp member⟩
  · rintro ⟨item, inside, range, spelled, named⟩
    obtain ⟨items, each, -⟩ := bind_eq_ok.mp parsed
    obtain ⟨values, read, -⟩ := mapM_ok_mem each inside
    obtain ⟨range', reads, named'⟩ := parseItem_plain read
    obtain rfl := Option.some.inj (spelled.symm.trans reads.spelled)
    exact ⟨item, inside, values, read, (named' value).mpr named⟩

theorem mem_weekday {raw : Text} {field : CronField} (parsed : parseField number raw 0 7 true = .ok field)
    (sundays : SundaysNamed number raw) (value : Int) : value ∈ field.values ↔ ListsWeekday number raw value := by
  rw [(parseField_items parsed value).1]
  constructor
  · rintro ⟨item, inside, values, read, member⟩
    obtain ⟨range, reads, named⟩ := parseItem_weekday read
    rcases (named value).mp member with ⟨rfl, seven⟩ | ⟨small, count, equal, within⟩
    · exact sundays item inside range reads.spelled seven
    · refine ⟨value, ⟨item, inside, range, reads.spelled, count, equal, within⟩, ?_⟩
      have forward := Int.mul_nonneg (Int.natCast_nonneg count) reads.positive.le
      have start := reads.start
      omega
  · rintro ⟨day, ⟨item, inside, range, spelled, count, equal, within⟩, rfl⟩
    obtain ⟨items, each, -⟩ := bind_eq_ok.mp parsed
    obtain ⟨values, read, -⟩ := mapM_ok_mem each inside
    obtain ⟨range', reads, named⟩ := parseItem_weekday read
    obtain rfl := Option.some.inj (spelled.symm.trans reads.spelled)
    refine ⟨item, inside, values, read, (named (day % 7)).mpr ?_⟩
    have forward := Int.mul_nonneg (Int.natCast_nonneg count) reads.positive.le
    have start := reads.start
    have last := reads.last
    -- Only 7 is more than a weekday.
    rcases (show day = 7 ∨ 0 ≤ day ∧ day ≤ 6 by omega) with rfl | ⟨low, high⟩
    · exact .inl ⟨rfl, by omega⟩
    · refine .inr ⟨by omega, ?_⟩
      rw [Int.emod_eq_of_lt low (by omega)]
      exact ⟨count, equal, within⟩

/-- The parser's fields name what the expression names. -/
theorem matches_iff {expression canonical : Text} (parsed : parseCron number expression = .ok (canonical, spec))
    (sundays : SundaysNamed number ((words canonical).getD 4 [])) (time : Int) :
    Matches spec time ↔ Named number (words canonical) time := by
  unfold parseCron at parsed
  dsimp only at parsed
  obtain ⟨_, -, parsed⟩ := bind_eq_ok.mp parsed
  split at parsed
  · rename_i one two three four five spelled
    obtain ⟨minute, minutes, parsed⟩ := bind_eq_ok.mp parsed
    obtain ⟨hour, hours, parsed⟩ := bind_eq_ok.mp parsed
    obtain ⟨day, days, parsed⟩ := bind_eq_ok.mp parsed
    obtain ⟨month, months, parsed⟩ := bind_eq_ok.mp parsed
    obtain ⟨weekday, weekdays, parsed⟩ := bind_eq_ok.mp parsed
    obtain ⟨text, rfl⟩ := Prod.mk.inj (pure_eq_ok.mp parsed)
    rw [text] at spelled
    rw [spelled] at sundays ⊢
    have named : dayMatches ⟨minute, hour, day, month, weekday⟩ time = true ↔
        if three ≠ ['*'] ∧ five ≠ ['*'] then Lists number 1 31 three (getUTCDate time) ∨ ListsWeekday number five (getUTCDay time)
        else Lists number 1 31 three (getUTCDate time) ∧ ListsWeekday number five (getUTCDay time) := by
      rw [← mem_plain days, ← mem_weekday weekdays sundays]
      have first := (parseField_items days 0).2
      have second := (parseField_items weekdays 0).2
      unfold dayMatches includes
      dsimp only
      by_cases restricted : three ≠ ['*'] ∧ five ≠ ['*']
      · have left : day.wildcard = false := Bool.eq_false_iff.mpr fun star => restricted.1 (first.mp star)
        have right : weekday.wildcard = false := Bool.eq_false_iff.mpr fun star => restricted.2 (second.mp star)
        simp [restricted, left, right]
      · have star : (!day.wildcard && !weekday.wildcard) = false := by
          rcases Classical.not_and_iff_not_or_not.mp restricted with left | right
          · rw [first.mpr (not_not.mp left)]
            rfl
          · rw [second.mpr (not_not.mp right)]
            exact Bool.and_false _
        rw [if_neg restricted]
        simp [star]
    constructor
    · intro matches_
      exact ⟨(mem_plain minutes _).mp matches_.minute, (mem_plain hours _).mp matches_.hour, named.mp matches_.day,
        (mem_plain months _).mp matches_.month⟩
    · intro named'
      exact ⟨(mem_plain months _).mpr named'.month, named.mpr named'.day, (mem_plain hours _).mpr named'.hour,
        (mem_plain minutes _).mpr named'.minute⟩
  · cases parsed

/-! ## The search -/

/-- The first named minute after a second, where the search looks for it: before the sixth new year
and within the range of a date. -/
structure FirstNamed (number : Text → Option Int) (fields : List Text) (afterSeconds found : Int) : Prop where
  least : IsLeast { time | minuteAfter afterSeconds ≤ time ∧ Named number fields time } found
  timely : Timely (deadline (minuteAfter afterSeconds)) found
  begun : -maxTime ≤ minuteAfter afterSeconds

theorem begun_of_search {limit : Int} {fuel : Nat} {date found : Int} (ended : search spec limit fuel date = some found) :
    -maxTime ≤ date := by
  cases fuel with
  | zero => cases ended
  | succ fuel =>
    rw [search] at ended
    split at ended
    · rename_i timely
      exact timely.1
    · cases ended

/-- The search returns the first named minute if that lies within its six years, and else throws. -/
theorem nextCronTime_exact {expression canonical : Text} (parsed : parseCron number expression = .ok (canonical, spec))
    (sundays : SundaysNamed number ((words canonical).getD 4 [])) (afterSeconds : Int) :
    (∀ found, FirstNamed number (words canonical) afterSeconds found →
      nextCronTime number expression afterSeconds = .ok (60 * found)) ∧
    ((¬∃ found, FirstNamed number (words canonical) afterSeconds found) →
      nextCronTime number expression afterSeconds = .error (invalidCron "Cron has no matching time within six years")) := by
  have same : { time | minuteAfter afterSeconds ≤ time ∧ Matches spec time } =
      { time | minuteAfter afterSeconds ≤ time ∧ Named number (words canonical) time } := by
    ext time
    exact and_congr_right fun _ => matches_iff parsed sundays time
  have wellFormed := parseCron_wellFormed parsed
  have run : nextCronTime number expression afterSeconds =
      (required (search spec (deadline (minuteAfter afterSeconds)) (passes (minuteAfter afterSeconds)) (minuteAfter afterSeconds))
        (invalidCron "Cron has no matching time within six years") >>= fun found => pure (60 * found)) := by
    rw [nextCronTime, parsed]
    rfl
  constructor
  · intro found first
    have least := first.least
    rw [← same] at least
    obtain ⟨found', searched⟩ := search_complete wellFormed
      (show _ < (passes (minuteAfter afterSeconds) : Int) by unfold passes; omega) first.begun least.1.1 least.1.2 first.timely
    have next := (search_sound wellFormed searched).1
    rw [run, searched, next.unique least]
    rfl
  · intro none_
    rw [run]
    cases searched : search spec (deadline (minuteAfter afterSeconds)) (passes (minuteAfter afterSeconds))
        (minuteAfter afterSeconds) with
    | none => rfl
    | some found =>
      obtain ⟨next, timely⟩ := search_sound wellFormed searched
      unfold Next at next
      rw [same] at next
      exact absurd ⟨found, next, timely, begun_of_search searched⟩ none_

/-- `Number` on decimal digits. -/
def decimalNumber (text : Text) : Option Int :=
  if text ≠ [] ∧ text.all Char.isDigit then some (text.foldl (fun value digit => 10 * value + (digit.toNat - '0'.toNat : Nat)) (0 : Int))
  else none

def weekdays : Text := "*/15 9-17 * * 1-5".toList

def weekdaysSpec : CronSpec where
  minute := ⟨[0, 15, 30, 45], false⟩
  hour := ⟨[9, 10, 11, 12, 13, 14, 15, 16, 17], false⟩
  day := ⟨span 1 31 1, true⟩
  month := ⟨span 1 12 1, true⟩
  weekday := ⟨[1, 2, 3, 4, 5], false⟩

theorem nextCronTime_exact_weekdays :
    (∀ found, FirstNamed decimalNumber (words weekdays) 1784542020 found →
      nextCronTime decimalNumber weekdays 1784542020 = .ok (60 * found)) ∧
    ((¬∃ found, FirstNamed decimalNumber (words weekdays) 1784542020 found) →
      nextCronTime decimalNumber weekdays 1784542020 =
        .error (invalidCron "Cron has no matching time within six years")) := by
  refine @nextCronTime_exact decimalNumber weekdaysSpec weekdays weekdays (by decide +kernel) ?_ 1784542020
  intro item inside range spelled seven
  have items : ((words weekdays).getD 4 []).splitOn ',' = ["1-5".toList] := by decide +kernel
  rw [items, List.mem_singleton] at inside
  subst inside
  have whole : range = ⟨1, 5, 1⟩ := Option.some.inj (spelled.symm.trans (by decide +kernel))
  rw [whole] at seven
  exact absurd seven (by decide)

/-- There is no 29 February between those of 2096 and of 2104. -/
theorem nextCronTime_gives_up : ¬∀ (number : Text → Option Int) (expression canonical : Text) (spec : CronSpec),
    parseCron number expression = .ok (canonical, spec) → ∀ afterSeconds time : Int,
      minuteAfter afterSeconds ≤ time → Named number (words canonical) time →
      ∃ next, nextCronTime number expression afterSeconds = .ok next := by
  intro returns
  have fields : words "0 0 29 2 *".toList = [['0'], ['0'], ['2', '9'], ['2'], ['*']] := by decide +kernel
  have single (min max value : Int) (text : Text) (alone : text.splitOn ',' = [text])
      (read : rangeOf decimalNumber min max text = some ⟨value, value, 1⟩) : Lists decimalNumber min max text value :=
    ⟨text, by rw [alone]; exact List.mem_singleton_self _, ⟨value, value, 1⟩, read, 0, by simp, le_rfl⟩
  obtain ⟨next, found⟩ := returns decimalNumber "0 0 29 2 *".toList "0 0 29 2 *".toList
    ⟨⟨[0], false⟩, ⟨[0], false⟩, ⟨[29], false⟩, ⟨[2], false⟩, ⟨[0, 1, 2, 3, 4, 5, 6], true⟩⟩ (by decide +kernel)
    3981398400 70561440 (by decide +kernel) (by
      rw [fields]
      refine ⟨single 0 59 0 ['0'] (by decide +kernel) (by decide +kernel),
        single 0 23 0 ['0'] (by decide +kernel) (by decide +kernel), ?_,
        single 1 12 2 ['2'] (by decide +kernel) (by decide +kernel)⟩
      rw [if_neg (by decide +kernel)]
      refine ⟨single 1 31 29 ['2', '9'] (by decide +kernel) (by decide +kernel), 5, ?_, by decide +kernel⟩
      exact ⟨['*'], by decide +kernel, ⟨0, 7, 1⟩, by decide +kernel, 5, by decide +kernel, by decide +kernel⟩)
  have failed : nextCronTime decimalNumber "0 0 29 2 *".toList 3981398400 =
      .error (invalidCron "Cron has no matching time within six years") := by decide +kernel
  rw [failed] at found
  cases found

end Schedules

end AiryFS
