/-
Cron rules in local time (`parseCron` and `nextCronTime` of
`internal/task/schedule.go`).

`Task.Schedule` leaves open what a rule and a time zone come to; here both
are what the code has (`goCron`). A zone is its offset at every instant,
in whole minutes. The calendar is the Gregorian one, with days counted
from the first of January 1970.

# Fields

A field is a list of parts, and a part a range with a step. The loop that
selects the values of a range adds the step in 64 bits (`bmod`).
-/
import Yunling.Redis.Lease
import Yunling.Task.Schedule

namespace Yunling.Task

-- ======== fields

/-- `strconv.Atoi`. -/
def atoi (text : List Char) : Option Int :=
  let value := match text with
    | '+' :: digits => number? digits
    | '-' :: digits => (number? digits).map (- ·)
    | digits => number? digits
  value.filter fun n => -2 ^ 63 ≤ n ∧ n < 2 ^ 63

/-- A range of values and its step. -/
structure CronRange where
  first : Int
  last : Int
  step : Int

section Field

variable (minimum maximum : Int)

/-- The range of a part without its step. -/
def parseBase (base : List Char) (step : Int) : Option CronRange :=
  if base = ['*'] then some ⟨minimum, maximum, step⟩
  else if '-' ∈ base then
    match base.splitOn '-' with
    | [first, last] => do return ⟨← atoi first, ← atoi last, step⟩
    | _ => none
  else if step = 1 then (atoi base).map fun n => ⟨n, n, step⟩
  else none

/-- The range of a part, with the checks before its loop. -/
def parsePart (part : List Char) : Option CronRange :=
  let range :=
    if '/' ∈ part then
      match part.splitOn '/' with
      | [base, step] => ((atoi step).filter (0 < ·)).bind (parseBase minimum maximum base)
      | _ => none
    else parseBase minimum maximum part 1
  range.filter fun r => minimum ≤ r.first ∧ r.last ≤ maximum ∧ r.first ≤ r.last

/-- The loop of a part, which adds in 64 bits; `none` if it goes on after
so many turns. -/
def CronRange.items (r : CronRange) : Nat → Int → Option (List Int)
  | 0, _ => none
  | turns + 1, item =>
    if item ≤ r.last then
      (r.items turns ((item + r.step).bmod (2 ^ 64))).map (item :: ·)
    else some []

/-- `selectedItem`: Sunday has two numbers. -/
def selectedItem (normalizeSunday : Bool) (item : Int) : Int :=
  if normalizeSunday ∧ item = 7 then 0 else item

/-- The ranges of the parts of a field that have one. -/
def fieldRanges (value : List Char) : List CronRange :=
  (value.splitOn ',').filterMap (parsePart minimum maximum)

/-- `parseCronField`. The turns are enough for every loop within the
bounds of `parseCron` (`CronRange.Within.items`). -/
def parseCronField (value : List Char) (normalizeSunday : Bool) : Option (List Int × Bool) :=
  if (value.splitOn ',').all fun part => (parsePart minimum maximum part).isSome then
    let selected := ((fieldRanges minimum maximum value).flatMap fun r =>
      (r.items 200 r.first).getD []).map (selectedItem normalizeSunday)
    if selected = [] then none else some (selected, value = ['*'])
  else none

end Field

-- ======== rules

/-- `cronSpec`. -/
structure CronSpec where
  minute : List Int
  hour : List Int
  day : List Int
  month : List Int
  weekday : List Int
  dayWildcard : Bool
  weekdayWildcard : Bool

/-- `parseCron`. -/
def parseCron (expression : String) : Option CronSpec :=
  match (expression.toList.splitOnP isSpace).filter (· ≠ []) with
  | [minute, hour, day, month, weekday] => do
    let (minute, _) ← parseCronField 0 59 minute false
    let (hour, _) ← parseCronField 0 23 hour false
    let (day, dayWildcard) ← parseCronField 1 31 day false
    let (month, _) ← parseCronField 1 12 month false
    let (weekday, weekdayWildcard) ← parseCronField 0 7 weekday true
    return { minute, hour, day, month, weekday, dayWildcard, weekdayWildcard }
  | _ => none

-- ======== local time

/-- The year, the month and the day of the month of a day. -/
def civil (days : Int) : Int × Int × Int :=
  -- years start in March, so that the leap day comes last
  let n := days + 719468
  let era := n / 146097
  let ofEra := n % 146097
  let year := (ofEra - ofEra / 1460 + ofEra / 36524 - ofEra / 146096) / 365
  let ofYear := ofEra - (365 * year + year / 4 - year / 100)
  let month := (5 * ofYear + 2) / 153
  let january := if month < 10 then 0 else 1
  (era * 400 + year + january, month + 3 - 12 * january, ofYear - (153 * month + 2) / 5 + 1)

/-- The day of a date; days past the end of a month go on in the next. -/
def dayOf (year month day : Int) : Int :=
  let january := if month < 3 then 1 else 0
  let y := year - january
  365 * y + y / 4 - y / 100 + y / 400 + (153 * (month - 3 + 12 * january) + 2) / 5 + day - 719469

example : civil 0 = (1970, 1, 1) ∧ civil 11016 = (2000, 2, 29) ∧ civil 47541 = (2100, 3, 1) := by
  decide

example : dayOf 2000 2 29 = 11016 ∧ dayOf 2005 2 29 = dayOf 2005 3 1 := by decide

/-- The offset of local time at an instant, in minutes. -/
abbrev Zone := Int → Int

namespace Zone

variable (zone : Zone)

/-- The minutes of local time since 1970. -/
def clock (t : Int) : Int := t / minute + zone t

/-- `AddDate` for years, of a whole minute. The offset of the new local
time is looked up at the instant its own offset would make of it. -/
def addYears (years t : Int) : Int :=
  let now := zone.clock t
  let (year, month, day) := civil (now / 1440)
  let moved := dayOf (year + years) month day * 1440 + now % 1440
  (moved - zone ((moved - zone (moved * minute)) * minute)) * minute

/-- The local time of an instant fits a rule. -/
def fits (spec : CronSpec) (t : Int) : Bool :=
  let now := zone.clock t
  let (_, month, day) := civil (now / 1440)
  let dayMatches := spec.day.contains day
  let weekdayMatches := spec.weekday.contains ((now / 1440 + 4) % 7)
  let calendarMatches := match spec.dayWildcard, spec.weekdayWildcard with
    | true, true => true
    | true, false => weekdayMatches
    | false, true => dayMatches
    | false, false => dayMatches || weekdayMatches
  spec.minute.contains (now % 60) && spec.hour.contains (now % 1440 / 60)
    && spec.month.contains month && calendarMatches

end Zone

/-- Rules and time zones as the code has them; `zones` is what
`time.LoadLocation` knows. -/
def goCron (zones : String → Option Zone) : Cron where
  parses expression := (parseCron expression).isSome
  located timezone := (zones timezone).isSome
  fires expression timezone t :=
    (parseCron expression).any fun spec => (zones timezone).any fun zone => zone.fits spec t
  limit timezone t := ((zones timezone).map fun zone => zone.addYears 5 t).getD t

end Yunling.Task
