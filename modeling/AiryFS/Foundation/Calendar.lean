import Mathlib.Algebra.Order.Ring.Int
import Mathlib.Tactic.SplitIfs

/-! The UTC calendar over full minutes since 1970: years, months, days and hours of a time, and
the times that setters reach. Months count from zero.
-/

set_option autoImplicit false

namespace Foundation.Calendar

/-! ## Days -/

def leapDay (year : Int) : Int := if year % 4 = 0 ∧ (year % 100 ≠ 0 ∨ year % 400 = 0) then 1 else 0

/-- The day on which a year begins. -/
def yearStart (year : Int) : Int :=
  365 * (year - 1970) + (year - 1969) / 4 - (year - 1901) / 100 + (year - 1601) / 400

/-- Days before a month of its year; month 12 is the end of the year. -/
def monthOffset (leap month : Int) : Int :=
  if month < 2 then 31 * month else 59 + leap + (153 * (month - 2) + 2) / 5

def makeDay (year month date : Int) : Int := yearStart year + monthOffset (leapDay year) month + (date - 1)

def yearOf (day : Int) : Int :=
  let year := 1970 + 400 * day / 146097
  if yearStart (year + 1) ≤ day then year + 1 else if day < yearStart year then year - 1 else year

def monthOf (leap dayInYear : Int) : Int :=
  if dayInYear < 31 then 0 else if dayInYear < 59 + leap then 1 else 2 + (5 * (dayInYear - 59 - leap) + 2) / 153

theorem leapDay_cases (year : Int) : leapDay year = 0 ∨ leapDay year = 1 := by
  unfold leapDay
  split_ifs <;> simp

theorem yearStart_succ (year : Int) : yearStart (year + 1) = yearStart year + 365 + leapDay year := by
  unfold yearStart leapDay
  split_ifs <;> omega

theorem yearStart_le {year year' : Int} (earlier : year ≤ year') : yearStart year ≤ yearStart year' := by
  unfold yearStart
  omega

/-- The year of a day is the one it lies in. -/
theorem yearOf_spec (day : Int) : yearStart (yearOf day) ≤ day ∧ day < yearStart (yearOf day + 1) := by
  -- The estimate is off by one year at most.
  have below : yearStart (1970 + 400 * day / 146097 - 1) ≤ day := by
    unfold yearStart
    omega
  have above : day < yearStart (1970 + 400 * day / 146097 + 1 + 1) := by
    unfold yearStart
    omega
  unfold yearOf
  dsimp only
  split_ifs with later earlier
  · exact ⟨later, above⟩
  · rw [Int.sub_add_cancel]
    exact ⟨below, earlier⟩
  · exact ⟨Int.not_lt.mp earlier, Int.not_le.mp later⟩

theorem yearOf_mono {day day' : Int} (earlier : day ≤ day') : yearOf day ≤ yearOf day' := by
  by_contra later
  have next := yearStart_le (show yearOf day' + 1 ≤ yearOf day by omega)
  have := (yearOf_spec day).1
  have := (yearOf_spec day').2
  omega

theorem monthOffset_lt {leap month month' : Int} (leaps : leap = 0 ∨ leap = 1) (earlier : month < month') :
    monthOffset leap month < monthOffset leap month' := by
  unfold monthOffset
  split_ifs <;> omega

theorem monthOffset_le {leap month month' : Int} (leaps : leap = 0 ∨ leap = 1) (earlier : month ≤ month') :
    monthOffset leap month ≤ monthOffset leap month' := by
  unfold monthOffset
  split_ifs <;> omega

theorem monthOf_spec {leap dayInYear : Int} (begun : 0 ≤ dayInYear)
    (unended : dayInYear < 365 + leap) : 0 ≤ monthOf leap dayInYear ∧ monthOf leap dayInYear ≤ 11 ∧
      monthOffset leap (monthOf leap dayInYear) ≤ dayInYear ∧
      dayInYear < monthOffset leap (monthOf leap dayInYear + 1) := by
  unfold monthOf monthOffset
  split_ifs <;> omega

/-! ## Times -/

def minutesOfDay : Int := 24 * 60

def makeTime (day hour minute : Int) : Int := minutesOfDay * day + 60 * hour + minute

def dayOf (time : Int) : Int := time / minutesOfDay

def getUTCFullYear (time : Int) : Int := yearOf (dayOf time)

def dayInYear (time : Int) : Int := dayOf time - yearStart (getUTCFullYear time)

def getUTCMonth (time : Int) : Int := monthOf (leapDay (getUTCFullYear time)) (dayInYear time)

def getUTCDate (time : Int) : Int :=
  dayInYear time - monthOffset (leapDay (getUTCFullYear time)) (getUTCMonth time) + 1

/-- The first of January 1970 was a Thursday. -/
def getUTCDay (time : Int) : Int := (dayOf time + 4) % 7

def getUTCHours (time : Int) : Int := time % minutesOfDay / 60

def getUTCMinutes (time : Int) : Int := time % minutesOfDay % 60

def setUTCFullYear (time year month date : Int) : Int :=
  makeTime (makeDay year month date) (getUTCHours time) (getUTCMinutes time)

def setUTCMonth (time month date : Int) : Int := setUTCFullYear time (getUTCFullYear time) month date

def setUTCDate (time date : Int) : Int := setUTCMonth time (getUTCMonth time) date

def setUTCHours (time hour minute : Int) : Int := makeTime (dayOf time) hour minute

def setUTCMinutes (time minute : Int) : Int := setUTCHours time (getUTCHours time) minute

theorem makeTime_getters (time : Int) : makeTime (dayOf time) (getUTCHours time) (getUTCMinutes time) = time := by
  unfold makeTime dayOf getUTCHours getUTCMinutes minutesOfDay
  omega

theorem getUTCHours_range (time : Int) : 0 ≤ getUTCHours time ∧ getUTCHours time ≤ 23 := by
  unfold getUTCHours minutesOfDay
  omega

theorem getUTCMinutes_range (time : Int) : 0 ≤ getUTCMinutes time ∧ getUTCMinutes time ≤ 59 := by
  unfold getUTCMinutes minutesOfDay
  omega

theorem dayOf_mono {time time' : Int} (earlier : time ≤ time') : dayOf time ≤ dayOf time' := by
  unfold dayOf minutesOfDay
  omega

theorem getUTCFullYear_mono {time time' : Int} (earlier : time ≤ time') : getUTCFullYear time ≤ getUTCFullYear time' :=
  yearOf_mono (dayOf_mono earlier)

/-- The month of a time is the one its day lies in. -/
theorem getUTCMonth_spec (time : Int) : 0 ≤ getUTCMonth time ∧ getUTCMonth time ≤ 11 ∧
    makeDay (getUTCFullYear time) (getUTCMonth time) 1 ≤ dayOf time ∧
    dayOf time < makeDay (getUTCFullYear time) (getUTCMonth time + 1) 1 := by
  obtain ⟨begun, unended⟩ := yearOf_spec (dayOf time)
  rw [yearStart_succ] at unended
  have within := @monthOf_spec (leapDay (getUTCFullYear time)) (dayInYear time)
    (by unfold dayInYear getUTCFullYear; omega) (by unfold dayInYear getUTCFullYear; omega)
  obtain ⟨first, last, from_, until_⟩ := within
  refine ⟨first, last, ?_, ?_⟩
  · unfold makeDay getUTCMonth
    unfold dayInYear at from_ ⊢
    omega
  · unfold makeDay getUTCMonth
    unfold dayInYear at until_ ⊢
    omega

/-- A day on or after the first of a month. -/
theorem makeDay_le {time year month : Int} (last : month ≤ 11)
    (reached : year < getUTCFullYear time ∨ year = getUTCFullYear time ∧ month ≤ getUTCMonth time) :
    makeDay year month 1 ≤ dayOf time := by
  obtain ⟨-, -, from_, -⟩ := getUTCMonth_spec time
  rcases reached with later | ⟨rfl, month_le⟩
  · have begun := (yearOf_spec (dayOf time)).1
    have next := yearStart_le (show year + 1 ≤ getUTCFullYear time by omega)
    have within := monthOffset_lt (leapDay_cases year) (show month < 12 by omega)
    have ended : monthOffset (leapDay year) 12 = 365 + leapDay year := by
      unfold monthOffset
      omega
    rw [yearStart_succ] at next
    unfold getUTCFullYear at next
    unfold makeDay
    omega
  · have earlier := monthOffset_le (leapDay_cases (getUTCFullYear time)) month_le
    unfold makeDay at from_ ⊢
    omega

/-- The first of a later month lies ahead. -/
theorem lt_makeDay {time year month : Int} (first : 0 ≤ month)
    (ahead : getUTCFullYear time < year ∨ year = getUTCFullYear time ∧ getUTCMonth time < month) :
    dayOf time < makeDay year month 1 := by
  obtain ⟨-, -, -, until_⟩ := getUTCMonth_spec time
  rcases ahead with later | ⟨rfl, month_lt⟩
  · have unended := (yearOf_spec (dayOf time)).2
    have next := yearStart_le (show getUTCFullYear time + 1 ≤ year by omega)
    have within := monthOffset_le (leapDay_cases year) first
    have zero : monthOffset (leapDay year) 0 = 0 := by simp [monthOffset]
    unfold getUTCFullYear at next
    unfold makeDay
    omega
  · have earlier := monthOffset_le (leapDay_cases (getUTCFullYear time)) (show getUTCMonth time + 1 ≤ month by omega)
    unfold makeDay at until_ ⊢
    omega

theorem getUTCMonth_mono {time time' : Int} (earlier : time ≤ time')
    (same : getUTCFullYear time = getUTCFullYear time') : getUTCMonth time ≤ getUTCMonth time' := by
  by_contra later
  obtain ⟨first, -, from_, -⟩ := getUTCMonth_spec time
  have ahead := lt_makeDay first (.inr ⟨same, Int.not_le.mp later⟩)
  have days := dayOf_mono earlier
  omega

/-- Setting the date to the next one reaches the next day, also past the end of the month. -/
theorem setUTCDate_next (time : Int) : setUTCDate time (getUTCDate time + 1) =
    makeTime (dayOf time + 1) (getUTCHours time) (getUTCMinutes time) := by
  unfold setUTCDate setUTCMonth setUTCFullYear
  congr 1
  unfold makeDay getUTCDate dayInYear
  omega

theorem dayOf_makeTime {day hour minute : Int} (hours : 0 ≤ hour ∧ hour ≤ 23) (minutes : 0 ≤ minute ∧ minute ≤ 59) :
    dayOf (makeTime day hour minute) = day := by
  unfold dayOf makeTime minutesOfDay
  omega

theorem le_of_dayOf {time day : Int} (reached : day ≤ dayOf time) : makeTime day 0 0 ≤ time := by
  unfold dayOf minutesOfDay at reached
  unfold makeTime minutesOfDay
  omega

theorem lt_of_dayOf {time day : Int} (ahead : dayOf time < day) : time < makeTime day 0 0 := by
  unfold dayOf minutesOfDay at ahead
  unfold makeTime minutesOfDay
  omega

/-! ## Setters -/

theorem setUTCHours_makeTime {day hour minute : Int} (time hour' minute' : Int)
    (set : time = makeTime day hour minute) (hours : 0 ≤ hour ∧ hour ≤ 23) (minutes : 0 ≤ minute ∧ minute ≤ 59) :
    setUTCHours time hour' minute' = makeTime day hour' minute' := by
  rw [setUTCHours, set, dayOf_makeTime hours minutes]

/-- A month, from its first minute on. -/
theorem setUTCFullYear_start (time year month : Int) :
    setUTCHours (setUTCFullYear time year month 1) 0 0 = makeTime (makeDay year month 1) 0 0 :=
  setUTCHours_makeTime _ 0 0 rfl (getUTCHours_range time) (getUTCMinutes_range time)

theorem setUTCDate_hours (time hour minute : Int) :
    setUTCHours (setUTCDate time (getUTCDate time + 1)) hour minute = makeTime (dayOf time + 1) hour minute :=
  setUTCHours_makeTime _ hour minute (setUTCDate_next time) (getUTCHours_range time) (getUTCMinutes_range time)

/-- A time of a later day, or of a later hour, or of a later minute. -/
theorem makeTime_le {time day hour minute : Int} (hours : hour ≤ 23) (minutes : 0 ≤ minute ∧ minute ≤ 59)
    (reached : day < dayOf time ∨ day = dayOf time ∧
      (hour < getUTCHours time ∨ hour = getUTCHours time ∧ minute ≤ getUTCMinutes time)) :
    makeTime day hour minute ≤ time := by
  have whole := makeTime_getters time
  have := getUTCHours_range time
  have := getUTCMinutes_range time
  unfold makeTime minutesOfDay at whole ⊢
  omega

theorem lt_makeTime {time day hour minute : Int} (hours : 0 ≤ hour) (minutes : 0 ≤ minute)
    (ahead : dayOf time < day ∨ day = dayOf time ∧
      (getUTCHours time < hour ∨ hour = getUTCHours time ∧ getUTCMinutes time < minute)) :
    time < makeTime day hour minute := by
  have whole := makeTime_getters time
  have := getUTCHours_range time
  have := getUTCMinutes_range time
  unfold makeTime minutesOfDay at whole ⊢
  omega

theorem getUTCHours_mono {time time' : Int} (earlier : time ≤ time') (same : dayOf time = dayOf time') :
    getUTCHours time ≤ getUTCHours time' := by
  unfold dayOf minutesOfDay at same
  unfold getUTCHours minutesOfDay
  omega

theorem getUTCMinutes_mono {time time' : Int} (earlier : time ≤ time') (same : dayOf time = dayOf time')
    (hour : getUTCHours time = getUTCHours time') : getUTCMinutes time ≤ getUTCMinutes time' := by
  unfold dayOf minutesOfDay at same
  unfold getUTCHours minutesOfDay at hour
  unfold getUTCMinutes minutesOfDay
  omega

end Foundation.Calendar
