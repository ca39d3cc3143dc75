import Mathlib.Data.Int.Init

/-
  The calendar of budget windows, in UTC.

  An instant is a count of seconds since the epoch, which may be negative.  Dates are those of the
  Gregorian calendar carried back before its introduction.
-/

namespace Tracelane.Gateway

/- Seconds since the epoch. -/
abbrev DateTime := Int

abbrev secsPerDay : Int := 86400

abbrev u32Size : Int := 4294967296

--
-- Dates
--

structure Date where
  year : Int
  month : Int
  day : Int
deriving DecidableEq

/- The whole days between the epoch and the instant's date. -/
def dayIndex (now : DateTime) : Int :=
  now / secsPerDay

/-
  The date of a day, years counted from the first of March so
  that a leap day is the last of its year.
-/
def civilFromDays (days : Int) : Date :=
  let z := days + 719468
  let era := z / 146097
  let dayOfEra := z % 146097
  let yearOfEra := (dayOfEra - dayOfEra / 1460 + dayOfEra / 36524 - dayOfEra / 146096) / 365
  let dayOfYear := dayOfEra - (365 * yearOfEra + yearOfEra / 4 - yearOfEra / 100)
  let marchMonth := (5 * dayOfYear + 2) / 153
  let month :=
    if marchMonth < 10 then marchMonth + 3 else marchMonth - 9
  { year :=
      yearOfEra + era * 400 + (if month ≤ 2 then 1 else 0)
    month := month
    day := dayOfYear - (153 * marchMonth + 2) / 5 + 1 }

/- The day of a date. -/
def daysFromCivil (d : Date) : Int :=
  let year := if d.month ≤ 2 then d.year - 1 else d.year
  let era := year / 400
  let yearOfEra := year % 400
  let marchMonth :=
    if d.month ≤ 2 then d.month + 9 else d.month - 3
  let dayOfYear := (153 * marchMonth + 2) / 5 + d.day - 1
  let dayOfEra := yearOfEra * 365 + yearOfEra / 4 - yearOfEra / 100 + dayOfYear
  era * 146097 + dayOfEra - 719468

/- Days since Monday; the epoch was a Thursday. -/
def numDaysFromMonday (days : Int) : Int :=
  (days + 3) % 7

/- The ISO year and week: those of the week's Thursday. -/
def isoWeek (days : Int) : Int × Int :=
  let thursday := days - numDaysFromMonday days + 3
  let year := (civilFromDays thursday).year
  (year, (thursday - daysFromCivil ⟨year, 1, 1⟩) / 7 + 1)

--
-- Windows
--

inductive BudgetWindow where
| daily
| weekly
| monthly
| rolling1h
| rolling24h
| rolling7d
| rolling30d
deriving DecidableEq

namespace BudgetWindow

def asStr : BudgetWindow → String
| .daily => "daily"
| .weekly => "weekly"
| .monthly => "monthly"
| .rolling1h => "rolling_1h"
| .rolling24h => "rolling_24h"
| .rolling7d => "rolling_7d"
| .rolling30d => "rolling_30d"

/- The length of a rolling window. -/
def rollingHours : BudgetWindow → Option Nat
| .rolling1h => some 1
| .rolling24h => some 24
| .rolling7d => some (24 * 7)
| .rolling30d => some (24 * 30)
| .daily => none
| .weekly => none
| .monthly => none

end BudgetWindow

/- Hours since the epoch, none before it. -/
def hourIndex (now : DateTime) : Nat :=
  now.toNat / 3600

/- A key as the source's `u32` arithmetic leaves it. -/
def u32Key (n : Int) : Nat :=
  (n % u32Size).toNat

def yearMonth (now : DateTime) : Nat :=
  let d := civilFromDays (dayIndex now)
  u32Key (d.year * 100 + d.month)

/-
  `YYYYMMDD`, ISO `YYYYWW`, or `YYYYMM`; for a rolling window
  the number of whole windows since the epoch.
-/
def periodKey (window : BudgetWindow) (now : DateTime) : Nat :=
  match window with
  | .daily =>
      let d := civilFromDays (dayIndex now)
      u32Key (d.year * 10000 + d.month * 100 + d.day)
  | .weekly =>
      let iso := isoWeek (dayIndex now)
      u32Key (iso.1 * 100 + iso.2)
  | .monthly => yearMonth now
  | w => hourIndex now / w.rollingHours.getD 1

/- The first instant the window covers. -/
def windowStart (window : BudgetWindow) (now : DateTime) : DateTime :=
  let today := dayIndex now
  match window with
  | .daily => today * secsPerDay
  | .weekly => (today - numDaysFromMonday today) * secsPerDay
  | .monthly => (today - ((civilFromDays today).day - 1)) * secsPerDay
  | w =>
      let n := w.rollingHours.getD 1
      ((hourIndex now - (n - 1)) * 3600 : Nat)

/- When a calendar window resets. -/
def resetsAt (window : BudgetWindow) (now : DateTime) : Option DateTime :=
  let start := windowStart window now
  match window with
  | .daily => some (start + secsPerDay)
  | .weekly => some (start + 7 * secsPerDay)
  | .monthly =>
      let d := civilFromDays (dayIndex start)
      let next : Date :=
        if d.month = 12 then ⟨d.year + 1, 1, 1⟩
        else ⟨d.year, d.month + 1, 1⟩
      some (daysFromCivil next * secsPerDay)
  | _ => none

/- Noon on 2026-10-04, in the ISO week 40 of that year. -/
example :
    periodKey .daily 1791115200 = 20261004 ∧
      periodKey .weekly 1791115200 = 202640 ∧
      periodKey .monthly 1791115200 = 202610 := by
  decide

end Tracelane.Gateway
