import AiryFS.Foundation.Calendar
import AiryFS.Jobs.Runner
import Mathlib.Data.List.Dedup
import Mathlib.Data.List.Sort

/-! Cron expressions in UTC, and the search for the next time of one.

A date of the search is always on a full minute and is kept as the minutes since 1970. `number`
is the integer that `Number` reads from a text, if it reads an integer.
-/

set_option autoImplicit false

namespace AiryFS

open Foundation Calendar

namespace Schedules

structure CronField where
  values : List Int
  wildcard : Bool
  deriving DecidableEq

structure CronSpec where
  minute : CronField
  hour : CronField
  day : CronField
  month : CronField
  weekday : CronField
  deriving DecidableEq

def ALIASES : List (Text × Text) :=
  [("@hourly".toList, "0 * * * *".toList), ("@daily".toList, "0 0 * * *".toList), ("@weekly".toList, "0 0 * * 0".toList),
    ("@monthly".toList, "0 0 1 * *".toList), ("@yearly".toList, "0 0 1 1 *".toList)]

/-- What every object inherits under these names is not a text. -/
def inherited : List Text := ["constructor".toList, "__proto__".toList]

def invalidCron (message : String) : Failure := .http 400 "INVALID_CRON" message

def invalidField (raw : Text) : Failure := invalidCron s!"Invalid cron field: {String.ofList raw}"

/-- `for (let value = start; value <= end; value += step)`. -/
def span (start last step : Int) : List Int :=
  (List.range ((last - start) / step + 1).toNat).map fun count : Nat => start + count * step

section Parsing

variable (number : Text → Option Int)

def parseStep (raw : Text) (stepText : Option Text) : Except Failure Int := do
  let step ← required (stepText.elim (some 1) number) (invalidField raw)
  refuse (step ≤ 0) (invalidField raw)
  return step

/-- The ends of a range, as numbers. -/
def parseRange (raw : Text) (min max : Int) (rangeText : Text) : Except Failure (Option Int × Option Int) := do
  if rangeText = ['*'] then return (some min, some max)
  else if '-' ∈ rangeText then
    let parts := rangeText.splitOn '-'
    refuse (parts.length ≠ 2) (invalidField raw)
    return (number (parts.getD 0 []), number (parts.getD 1 []))
  else return (number rangeText, number rangeText)

/-- The values of one item of the list. -/
def parseItem (raw : Text) (min max : Int) (weekday : Bool) (item : Text) : Except Failure (List Int) := do
  let parts := item.splitOn '/'
  let step ← parseStep number raw parts[1]?
  let (start, last) ← parseRange number raw min max (parts.headD [])
  if weekday ∧ start = some 7 ∧ last = some 7 then return [0]
  else
    let sunday := weekday && last = some 7
    let start ← required start (invalidField raw)
    let last ← required (if sunday then some 6 else last) (invalidField raw)
    refuse (start < min ∨ last > max ∨ start > last) (invalidField raw)
    return (if sunday then [0] else []) ++ span start last step

def parseField (raw : Text) (min max : Int) (weekday : Bool) : Except Failure CronField := do
  let items ← (raw.splitOn ',').mapM (parseItem number raw min max weekday)
  let values := items.flatten.dedup
  refuse (values = []) (invalidField raw)
  return { values := values.insertionSort (· ≤ ·), wildcard := raw = ['*'] }

/-- `split(/\s+/)` of a text without blanks around it. -/
def words (text : Text) : List Text := (text.splitOnP SnapshotStorage.trimmable).filter (· ≠ [])

def parseCron (expression : Text) : Except Failure (Text × CronSpec) := do
  let trimmed := SnapshotStorage.trim expression
  let name := trimmed.map Jobs.lowerCase
  refuse (name ∈ inherited) (.error "canonical.split is not a function")
  let canonical := ((ALIASES.find? fun entry => entry.1 = name).map Prod.snd).getD trimmed
  match words canonical with
  | [minute, hour, day, month, weekday] =>
    let minute ← parseField number minute 0 59 false
    let hour ← parseField number hour 0 23 false
    let day ← parseField number day 1 31 false
    let month ← parseField number month 1 12 false
    let weekday ← parseField number weekday 0 7 true
    return (canonical, { minute, hour, day, month, weekday })
  | _ => throw (invalidCron "Cron must contain five UTC fields: minute hour day month weekday")

end Parsing

/-! ## The search -/

def includes (field : CronField) (value : Int) : Bool := value ∈ field.values

def dayMatches (spec : CronSpec) (date : Int) : Bool :=
  let day := includes spec.day (getUTCDate date)
  let weekday := includes spec.weekday (getUTCDay date)
  if !spec.day.wildcard && !spec.weekday.wildcard then day || weekday else day && weekday

def advanceToAllowed (field : CronField) (current : Int) (advance : Int → Int) : Option Int :=
  (field.values.find? fun value => value > current).map advance

def CronField.first (field : CronField) : Int := field.values.headD 0

/-- One pass of the loop, `none` where every field matches. -/
def advance (spec : CronSpec) (date : Int) : Option Int :=
  if !includes spec.month (getUTCMonth date + 1) then
    let date := (advanceToAllowed spec.month (getUTCMonth date + 1) fun month => setUTCMonth date (month - 1) 1).getD
      (setUTCFullYear date (getUTCFullYear date + 1) (spec.month.first - 1) 1)
    some (setUTCHours date 0 0)
  else if !dayMatches spec date then
    some (setUTCHours (setUTCDate date (getUTCDate date + 1)) 0 0)
  else if !includes spec.hour (getUTCHours date) then
    some ((advanceToAllowed spec.hour (getUTCHours date) fun hour => setUTCHours date hour spec.minute.first).getD
      (setUTCHours (setUTCDate date (getUTCDate date + 1)) spec.hour.first spec.minute.first))
  else if !includes spec.minute (getUTCMinutes date) then
    some ((advanceToAllowed spec.minute (getUTCMinutes date) fun minute => setUTCMinutes date minute).getD
      (setUTCHours date (getUTCHours date + 1) spec.minute.first))
  else none

/-- A time beyond 100 million days from 1970 is no date, and compares with nothing. -/
def maxTime : Int := 100000000 * minutesOfDay

def search (spec : CronSpec) (deadline : Int) : Nat → Int → Option Int
  | 0, _ => none
  | fuel + 1, date =>
    if -maxTime ≤ date ∧ date ≤ maxTime ∧ getUTCFullYear date < deadline then
      match advance spec date with
      | some date => search spec deadline fuel date
      | none => some date
    else none

/-- The first minute after the given second. -/
def minuteAfter (seconds : Int) : Int := seconds / 60 + 1

/-- The year in which the search gives up. -/
def deadline (date : Int) : Int := getUTCFullYear date + 6

/-- Every pass moves ahead by a minute at least, so the loop ends within the minutes that are left. -/
def passes (date : Int) : Nat := (makeTime (yearStart (deadline date)) 0 0 - date).toNat + 1

def nextCronTime (number : Text → Option Int) (expression : Text) (afterSeconds : Int) : Except Failure Int := do
  let (_, spec) ← parseCron number expression
  let date := minuteAfter afterSeconds
  let found ← required (search spec (deadline date) (passes date) date)
    (invalidCron "Cron has no matching time within six years")
  return 60 * found

end Schedules

end AiryFS
