import AiryFS.Schedules.Cron
import Mathlib.Order.Bounds.Basic

/-! The search finds the least minute that matches, and finds one whenever there is one in time.

Every pass of the loop moves the date ahead, over minutes that do not match.
-/

set_option autoImplicit false

namespace AiryFS

open Foundation Calendar

namespace Schedules

/-- A minute that a cron expression names. -/
structure Matches (spec : CronSpec) (time : Int) : Prop where
  month : getUTCMonth time + 1 ∈ spec.month.values
  day : dayMatches spec time = true
  hour : getUTCHours time ∈ spec.hour.values
  minute : getUTCMinutes time ∈ spec.minute.values

/-- The values of a field as the parser leaves them. -/
structure CronField.Within (min max : Int) (field : CronField) : Prop where
  sorted : field.values.Pairwise (· ≤ ·)
  nonempty : field.values ≠ []
  range : ∀ value ∈ field.values, min ≤ value ∧ value ≤ max

structure CronSpec.WellFormed (spec : CronSpec) : Prop where
  minute : spec.minute.Within 0 59
  hour : spec.hour.Within 0 23
  month : spec.month.Within 1 12

variable {number : Text → Option Int} {spec : CronSpec}

/-! ## Fields -/

section Fields
variable {min max : Int} {field : CronField}

theorem CronField.Within.first_mem (within : field.Within min max) : field.first ∈ field.values := by
  unfold CronField.first
  cases values : field.values with
  | nil => exact absurd values within.nonempty
  | cons value rest => exact List.mem_cons_self

theorem CronField.Within.first_le (within : field.Within min max) {value : Int} (member : value ∈ field.values) :
    field.first ≤ value := by
  have sorted := within.sorted
  unfold CronField.first
  cases values : field.values with
  | nil => exact absurd values within.nonempty
  | cons first rest =>
    rw [values] at member sorted
    rcases List.mem_cons.mp member with rfl | later
    · exact le_rfl
    · exact List.rel_of_pairwise_cons sorted later

/-- The next value of a field is the least one that is greater. -/
theorem CronField.Within.next_le (within : field.Within min max) {current next : Int}
    (found : field.values.find? (fun value => value > current) = some next) :
    next ∈ field.values ∧ current < next ∧ ∀ value ∈ field.values, current < value → next ≤ value := by
  obtain ⟨greater, before, after, values, smaller⟩ := List.find?_eq_some_iff_append.mp found
  refine ⟨by simp [values], by simpa using greater, ?_⟩
  intro value member later
  have sorted := within.sorted
  rw [values] at member sorted
  rcases List.mem_append.mp member with early | late
  · have := smaller value early
    simp only [gt_iff_lt, Bool.not_eq_true', decide_eq_false_iff_not] at this
    omega
  · rcases List.mem_cons.mp late with rfl | last
    · exact le_rfl
    · exact List.rel_of_pairwise_cons (List.pairwise_append.mp sorted).2.1 last

theorem no_next {current : Int} (missing : field.values.find? (fun value => value > current) = none) :
    ∀ value ∈ field.values, value ≤ current := by
  intro value member
  have := List.find?_eq_none.mp missing value member
  simpa using this

end Fields

/-! ## Parsing -/

theorem mem_span {start last step value : Int} (positive : 0 < step) (member : value ∈ span start last step) :
    start ≤ value ∧ value ≤ last := by
  obtain ⟨count, listed, rfl⟩ := List.mem_map.mp member
  rw [List.mem_range] at listed
  have room : (count : Int) ≤ (last - start) / step := by omega
  have bound := (Int.le_ediv_iff_mul_le positive).mp room
  have forward : 0 ≤ (count : Int) * step := Int.mul_nonneg (Int.natCast_nonneg _) positive.le
  omega

theorem parseStep_pos {raw : Text} {stepText : Option Text} {step : Int}
    (parsed : parseStep number raw stepText = .ok step) : 0 < step := by
  obtain ⟨value, -, parsed⟩ := bind_eq_ok.mp parsed
  obtain ⟨_, positive, parsed⟩ := bind_eq_ok.mp parsed
  have positive := refuse_eq_ok.mp positive
  rw [← pure_eq_ok.mp parsed]
  omega

theorem parseItem_range {raw item : Text} {min max : Int} {weekday : Bool} {values : List Int}
    (zero : weekday = true → min ≤ 0 ∧ 0 ≤ max)
    (parsed : parseItem number raw min max weekday item = .ok values) : ∀ value ∈ values, min ≤ value ∧ value ≤ max := by
  intro value member
  unfold parseItem at parsed
  dsimp only at parsed
  obtain ⟨step, stepped, parsed⟩ := bind_eq_ok.mp parsed
  obtain ⟨⟨start, last⟩, -, parsed⟩ := bind_eq_ok.mp parsed
  have positive := parseStep_pos stepped
  dsimp only at parsed
  split at parsed
  · rename_i sunday
    rw [← pure_eq_ok.mp parsed, List.mem_singleton] at member
    rw [member]
    exact zero sunday.1
  · obtain ⟨start, -, parsed⟩ := bind_eq_ok.mp parsed
    obtain ⟨last, -, parsed⟩ := bind_eq_ok.mp parsed
    obtain ⟨_, inside, parsed⟩ := bind_eq_ok.mp parsed
    have inside := refuse_eq_ok.mp inside
    rw [← pure_eq_ok.mp parsed] at member
    rcases List.mem_append.mp member with sunday | listed
    · split at sunday
      · rename_i sevenths
        rw [List.mem_singleton.mp sunday]
        exact zero (Bool.and_eq_true_iff.mp sevenths).1
      · cases sunday
    · have := mem_span (by omega) listed
      omega

theorem parseField_within {raw : Text} {min max : Int} {weekday : Bool} {field : CronField}
    (zero : weekday = true → min ≤ 0 ∧ 0 ≤ max)
    (parsed : parseField number raw min max weekday = .ok field) : field.Within min max := by
  obtain ⟨items, each, parsed⟩ := bind_eq_ok.mp parsed
  obtain ⟨_, some_, parsed⟩ := bind_eq_ok.mp parsed
  rw [← pure_eq_ok.mp parsed]
  refine ⟨List.pairwise_insertionSort _ _, ?_, ?_⟩
  · intro empty
    have perm := List.perm_insertionSort (· ≤ ·) items.flatten.dedup
    dsimp only at empty
    rw [empty] at perm
    exact refuse_eq_ok.mp some_ perm.nil_eq.symm
  · intro value member
    rw [List.mem_insertionSort, List.mem_dedup, List.mem_flatten] at member
    obtain ⟨values, listed, member⟩ := member
    obtain ⟨item, -, parsed⟩ := mem_of_mapM each listed
    exact parseItem_range zero parsed value member

theorem parseCron_wellFormed {expression canonical : Text} (parsed : parseCron number expression = .ok (canonical, spec)) :
    spec.WellFormed := by
  unfold parseCron at parsed
  dsimp only at parsed
  obtain ⟨_, -, parsed⟩ := bind_eq_ok.mp parsed
  split at parsed
  · obtain ⟨minute, minutes, parsed⟩ := bind_eq_ok.mp parsed
    obtain ⟨hour, hours, parsed⟩ := bind_eq_ok.mp parsed
    obtain ⟨day, -, parsed⟩ := bind_eq_ok.mp parsed
    obtain ⟨month, months, parsed⟩ := bind_eq_ok.mp parsed
    obtain ⟨weekday, -, parsed⟩ := bind_eq_ok.mp parsed
    rw [← (Prod.mk.inj (pure_eq_ok.mp parsed)).2]
    refine ⟨parseField_within ?_ minutes, parseField_within ?_ hours, parseField_within ?_ months⟩
    · exact fun never => by cases never
    · exact fun never => by cases never
    · exact fun never => by cases never
  · cases parsed

/-! ## One pass -/

theorem not_includes {field : CronField} {value : Int} : (!includes field value) = true ↔ value ∉ field.values := by
  simp [includes]

theorem advance_none {date : Int} (done : advance spec date = none) : Matches spec date := by
  unfold advance at done
  split_ifs at done with month day hour minute
  rw [not_includes, not_not] at month hour minute
  exact ⟨month, by simpa using day, hour, minute⟩

theorem dayMatches_congr {date time : Int} (same : dayOf date = dayOf time) : dayMatches spec date = dayMatches spec time := by
  have years : getUTCFullYear date = getUTCFullYear time := by rw [getUTCFullYear, same, getUTCFullYear]
  have months : getUTCMonth date = getUTCMonth time := by
    rw [getUTCMonth, dayInYear, same, years, getUTCMonth, dayInYear]
  have dates : getUTCDate date = getUTCDate time := by
    rw [getUTCDate, dayInYear, same, years, months, getUTCDate, dayInYear]
  have weekdays : getUTCDay date = getUTCDay time := by rw [getUTCDay, same, getUTCDay]
  rw [dayMatches, dayMatches, dates, weekdays]

/-- What a pass moves over. -/
def Ahead (spec : CronSpec) (date date' : Int) : Prop :=
  date < date' ∧ ∀ time, date ≤ time → Matches spec time → date' ≤ time

section Passes
variable {date : Int} (wellFormed : spec.WellFormed)
include wellFormed

theorem ahead_month (other : getUTCMonth date + 1 ∉ spec.month.values) :
    Ahead spec date (setUTCHours ((advanceToAllowed spec.month (getUTCMonth date + 1) fun month =>
      setUTCMonth date (month - 1) 1).getD
        (setUTCFullYear date (getUTCFullYear date + 1) (spec.month.first - 1) 1)) 0 0) := by
  unfold advanceToAllowed
  cases found : spec.month.values.find? (fun value => value > getUTCMonth date + 1) with
  | some month =>
    obtain ⟨member, later, least⟩ := wellFormed.month.next_le found
    have range := wellFormed.month.range month member
    rw [Option.map_some, Option.getD_some, setUTCMonth, setUTCFullYear_start]
    constructor
    · exact lt_of_dayOf (lt_makeDay (by omega) (.inr ⟨rfl, by omega⟩))
    · intro time after matches_
      apply le_of_dayOf
      apply makeDay_le (by omega)
      rcases (getUTCFullYear_mono after).lt_or_eq with ahead | same
      · exact .inl ahead
      · have forward := getUTCMonth_mono after same
        have apart : getUTCMonth date ≠ getUTCMonth time := fun equal => other (equal ▸ matches_.month)
        have := least _ matches_.month (by omega)
        exact .inr ⟨same, by omega⟩
  | none =>
    have range := wellFormed.month.range _ wellFormed.month.first_mem
    rw [Option.map_none, Option.getD_none, setUTCFullYear_start]
    constructor
    · exact lt_of_dayOf (lt_makeDay (by omega) (.inl (by omega)))
    · intro time after matches_
      apply le_of_dayOf
      apply makeDay_le (by omega)
      have first := wellFormed.month.first_le matches_.month
      rcases (getUTCFullYear_mono after).lt_or_eq with ahead | same
      · omega
      · have forward := getUTCMonth_mono after same
        have last := no_next found _ matches_.month
        have equal : getUTCMonth date = getUTCMonth time := by omega
        exact absurd (equal ▸ matches_.month) other

omit wellFormed in
theorem ahead_day (other : dayMatches spec date = false) :
    Ahead spec date (setUTCHours (setUTCDate date (getUTCDate date + 1)) 0 0) := by
  rw [setUTCDate_hours]
  constructor
  · exact lt_of_dayOf (by omega)
  · intro time after matches_
    apply le_of_dayOf
    have apart : dayOf date ≠ dayOf time := by
      intro same
      have day := matches_.day
      rw [← dayMatches_congr same, other] at day
      cases day
    have := dayOf_mono after
    omega

theorem ahead_hour (other : getUTCHours date ∉ spec.hour.values) :
    Ahead spec date ((advanceToAllowed spec.hour (getUTCHours date) fun hour =>
      setUTCHours date hour spec.minute.first).getD
        (setUTCHours (setUTCDate date (getUTCDate date + 1)) spec.hour.first spec.minute.first)) := by
  have minutes := wellFormed.minute.range _ wellFormed.minute.first_mem
  unfold advanceToAllowed
  cases found : spec.hour.values.find? (fun value => value > getUTCHours date) with
  | some hour =>
    obtain ⟨member, later, least⟩ := wellFormed.hour.next_le found
    have range := wellFormed.hour.range hour member
    rw [Option.map_some, Option.getD_some, setUTCHours]
    constructor
    · exact lt_makeTime range.1 minutes.1 (.inr ⟨rfl, .inl later⟩)
    · intro time after matches_
      apply makeTime_le range.2 minutes
      rcases (dayOf_mono after).lt_or_eq with ahead | same
      · exact .inl ahead
      · have forward := getUTCHours_mono after same
        have apart : getUTCHours date ≠ getUTCHours time := fun equal => other (equal ▸ matches_.hour)
        have := least _ matches_.hour (by omega)
        have := wellFormed.minute.first_le matches_.minute
        exact .inr ⟨same, by omega⟩
  | none =>
    have range := wellFormed.hour.range _ wellFormed.hour.first_mem
    rw [Option.map_none, Option.getD_none, setUTCDate_hours]
    constructor
    · exact lt_makeTime range.1 minutes.1 (.inl (by omega))
    · intro time after matches_
      apply makeTime_le range.2 minutes
      have := wellFormed.hour.first_le matches_.hour
      have := wellFormed.minute.first_le matches_.minute
      rcases (dayOf_mono after).lt_or_eq with ahead | same
      · omega
      · have forward := getUTCHours_mono after same
        have last := no_next found _ matches_.hour
        have equal : getUTCHours date = getUTCHours time := by omega
        exact absurd (equal ▸ matches_.hour) other

theorem ahead_minute (other : getUTCMinutes date ∉ spec.minute.values) :
    Ahead spec date ((advanceToAllowed spec.minute (getUTCMinutes date) fun minute => setUTCMinutes date minute).getD
      (setUTCHours date (getUTCHours date + 1) spec.minute.first)) := by
  have hours := getUTCHours_range date
  unfold advanceToAllowed
  cases found : spec.minute.values.find? (fun value => value > getUTCMinutes date) with
  | some minute =>
    obtain ⟨member, later, least⟩ := wellFormed.minute.next_le found
    have range := wellFormed.minute.range minute member
    rw [Option.map_some, Option.getD_some, setUTCMinutes, setUTCHours]
    constructor
    · exact lt_makeTime hours.1 range.1 (.inr ⟨rfl, .inr ⟨rfl, later⟩⟩)
    · intro time after matches_
      apply makeTime_le hours.2 range
      rcases (dayOf_mono after).lt_or_eq with ahead | same
      · exact .inl ahead
      · rcases (getUTCHours_mono after same).lt_or_eq with ahead | hour
        · exact .inr ⟨same, .inl ahead⟩
        · have forward := getUTCMinutes_mono after same hour
          have apart : getUTCMinutes date ≠ getUTCMinutes time := fun equal => other (equal ▸ matches_.minute)
          have := least _ matches_.minute (by omega)
          exact .inr ⟨same, .inr ⟨hour, this⟩⟩
  | none =>
    have range := wellFormed.minute.range _ wellFormed.minute.first_mem
    have whole := makeTime_getters date
    have minutes := getUTCMinutes_range date
    rw [Option.map_none, Option.getD_none, setUTCHours]
    constructor
    · unfold makeTime at whole ⊢
      omega
    · intro time after matches_
      have first := wellFormed.minute.first_le matches_.minute
      have whole' := makeTime_getters time
      have hours' := getUTCHours_range time
      have minutes' := getUTCMinutes_range time
      -- The hour after the last one of a day is the first one of the next day.
      rcases (dayOf_mono after).lt_or_eq with ahead | same
      · unfold makeTime minutesOfDay at whole' ⊢
        omega
      · rcases (getUTCHours_mono after same).lt_or_eq with ahead | hour
        · unfold makeTime minutesOfDay at whole' ⊢
          omega
        · have forward := getUTCMinutes_mono after same hour
          have last := no_next found _ matches_.minute
          have equal : getUTCMinutes date = getUTCMinutes time := by omega
          exact absurd (equal ▸ matches_.minute) other

theorem advance_some {date' : Int} (moved : advance spec date = some date') : Ahead spec date date' := by
  unfold advance at moved
  split_ifs at moved with month day hour minute
  · cases moved
    exact ahead_month wellFormed (not_includes.mp month)
  · cases moved
    exact ahead_day (by simpa using day)
  · cases moved
    exact ahead_hour wellFormed (not_includes.mp hour)
  · cases moved
    exact ahead_minute wellFormed (not_includes.mp minute)

end Passes

/-! ## The whole search -/

/-- A time that the search may return. -/
structure Timely (limit time : Int) : Prop where
  before : -maxTime ≤ time
  after : time ≤ maxTime
  year : getUTCFullYear time < limit

/-- The least time from a date on that the expression names. -/
def Next (spec : CronSpec) (date found : Int) : Prop := IsLeast { time | date ≤ time ∧ Matches spec time } found

theorem Next.of_ahead {date date' found : Int} (ahead : Ahead spec date date') (next : Next spec date' found) :
    Next spec date found := by
  refine ⟨⟨ahead.1.le.trans next.1.1, next.1.2⟩, ?_⟩
  rintro time ⟨after, matches_⟩
  exact next.2 ⟨ahead.2 time after matches_, matches_⟩

theorem search_sound (wellFormed : spec.WellFormed) {limit : Int} {fuel : Nat} {date found : Int}
    (ended : search spec limit fuel date = some found) : Next spec date found ∧ Timely limit found := by
  induction fuel generalizing date with
  | zero => cases ended
  | succ fuel ih =>
    rw [search] at ended
    split at ended
    · rename_i timely
      cases moved : advance spec date with
      | none =>
        rw [moved] at ended
        cases ended
        exact ⟨⟨⟨le_rfl, advance_none moved⟩, fun _ later => later.1⟩, ⟨timely.1, timely.2.1, timely.2.2⟩⟩
      | some date' =>
        rw [moved] at ended
        obtain ⟨next, timely⟩ := ih ended
        exact ⟨next.of_ahead (advance_some wellFormed moved), timely⟩
    · cases ended

/-- With enough passes, the search finds a time if there is one. -/
theorem search_complete (wellFormed : spec.WellFormed) {limit : Int} {fuel : Nat} {date time : Int}
    (enough : makeTime (yearStart limit) 0 0 - date < fuel) (begun : -maxTime ≤ date) (after : date ≤ time)
    (matches_ : Matches spec time) (timely : Timely limit time) : ∃ found, search spec limit fuel date = some found := by
  have end_ : time < makeTime (yearStart limit) 0 0 := by
    apply lt_of_dayOf
    have unended := (yearOf_spec (dayOf time)).2
    have limits := yearStart_le (show getUTCFullYear time + 1 ≤ limit from timely.year)
    unfold getUTCFullYear at limits
    omega
  induction fuel generalizing date with
  | zero => omega
  | succ fuel ih =>
    have room : -maxTime ≤ date ∧ date ≤ maxTime ∧ getUTCFullYear date < limit :=
      ⟨begun, after.trans timely.after, (getUTCFullYear_mono after).trans_lt timely.year⟩
    rw [search, if_pos room]
    cases moved : advance spec date with
    | none => exact ⟨date, rfl⟩
    | some date' =>
      obtain ⟨forward, unmatched⟩ := advance_some wellFormed moved
      exact ih (by omega) (by omega) (unmatched time after matches_)

variable {expression : Text} {afterSeconds : Int}

theorem nextCronTime_eq_ok {next : Int} (ended : nextCronTime number expression afterSeconds = .ok next) :
    ∃ canonical spec found, parseCron number expression = .ok (canonical, spec) ∧ next = 60 * found ∧
      Next spec (minuteAfter afterSeconds) found ∧ Timely (deadline (minuteAfter afterSeconds)) found := by
  obtain ⟨⟨canonical, spec⟩, parsed, ended⟩ := bind_eq_ok.mp ended
  obtain ⟨found, searched, ended⟩ := bind_eq_ok.mp ended
  obtain ⟨least, timely⟩ := search_sound (parseCron_wellFormed parsed) (required_eq_ok.mp searched)
  exact ⟨canonical, spec, found, parsed, (pure_eq_ok.mp ended).symm, least, timely⟩

theorem nextCronTime_complete {canonical : Text} {time : Int} (parsed : parseCron number expression = .ok (canonical, spec))
    (begun : -maxTime ≤ minuteAfter afterSeconds) (after : minuteAfter afterSeconds ≤ time) (matches_ : Matches spec time)
    (timely : Timely (deadline (minuteAfter afterSeconds)) time) :
    ∃ next, nextCronTime number expression afterSeconds = .ok next := by
  obtain ⟨found, searched⟩ := search_complete (parseCron_wellFormed parsed)
    (show _ < (passes (minuteAfter afterSeconds) : Int) by unfold passes; omega) begun after matches_ timely
  refine ⟨60 * found, ?_⟩
  rw [nextCronTime, parsed]
  change (required (search spec _ _ _) _ >>= fun found => _) = _
  rw [searched]
  rfl

end Schedules

end AiryFS
