import Conveyor.Text.Column

/-!
# Dates

Days of the Gregorian calendar, extended to all years from 1 to 9999.

- `Date`: a year, a month and a day of the month.
- `Date.check`: the first field of a date that is out of range, as a `DateFault`.
- `Date.ordinal`, `Date.ofOrdinal`: the count of days since the first day of year 1.
- `Date.ofWeek?`: the date of a day in a numbered week of a year.
-/

namespace Conveyor

open Conveyor.Text

/-- A day of the calendar. -/
structure Date where
  year : Nat
  month : Nat
  day : Nat
  deriving DecidableEq, Repr, Inhabited

/-- A date or time of day that does not exist. -/
inductive DateFault where
  | year (n : Nat)
  | month
  | day
  | hour
  | minute
  | second
  deriving DecidableEq, Repr

/-- What is wrong with a date or time of day. -/
def DateFault.message : DateFault → String
  | .year n => "year " ++ Nat.repr n ++ " is out of range"
  | .month => "month must be in 1..12"
  | .day => "day is out of range for month"
  | .hour => "hour must be in 0..23"
  | .minute => "minute must be in 0..59"
  | .second => "second must be in 0..59"

/-- Does the year have a 29th of February? -/
def isLeapYear (y : Nat) : Bool := y % 4 == 0 && (y % 100 != 0 || y % 400 == 0)

/-- The number of days of a month. -/
def daysInMonth (y m : Nat) : Nat :=
  if m = 2 then if isLeapYear y then 29 else 28
  else if m = 4 || m = 6 || m = 9 || m = 11 then 30
  else 31

/-- The number of days of a year before a month. -/
def daysBeforeMonth (y m : Nat) : Nat :=
  (List.range (m - 1)).foldl (fun days k => days + daysInMonth y (k + 1)) 0

/-- The number of days before a year. -/
def daysBeforeYear (y : Nat) : Nat :=
  let p := y - 1
  p * 365 + p / 4 - p / 100 + p / 400

namespace Date

/-- The first field that is out of range. -/
def check (d : Date) : Except DateFault Date :=
  if d.year < 1 || 9999 < d.year then .error (.year d.year)
  else if d.month < 1 || 12 < d.month then .error .month
  else if d.day < 1 || daysInMonth d.year d.month < d.day then .error .day
  else .ok d

/-- The number of the day, the first day of year 1 being 1. -/
def ordinal (d : Date) : Nat := daysBeforeYear d.year + daysBeforeMonth d.year d.month + d.day

/-- The month and day of the `n`-th day of a year, counted from 0, searching from month `m`
on. -/
def ofDayOfYear (y : Nat) : Nat → Nat → Nat → Date
  | 0, m, n => ⟨y, m, n + 1⟩
  | fuel + 1, m, n =>
    if n < daysInMonth y m then ⟨y, m, n + 1⟩ else
    ofDayOfYear y fuel (m + 1) (n - daysInMonth y m)

/-- The day with the given number. -/
def ofOrdinal (n : Nat) : Date :=
  let n := n - 1
  let n400 := n / 146097
  let r := n % 146097
  let n100 := min 3 (r / 36524)
  let r := r - n100 * 36524
  let n4 := r / 1461
  let r := r % 1461
  let n1 := min 3 (r / 365)
  let r := r - n1 * 365
  let y := n400 * 400 + n100 * 100 + n4 * 4 + n1 + 1
  ofDayOfYear y 12 1 r

/-- The day of the week, Monday being 0. -/
def weekday (d : Date) : Nat := (d.ordinal + 6) % 7

/-- The number of the Monday of the first week of a year: the week that holds the first
Thursday. -/
def firstMonday (y : Nat) : Nat :=
  let first := (⟨y, 1, 1⟩ : Date).ordinal
  let wd := (first + 6) % 7
  if 3 < wd then first - wd + 7 else first - wd

/-- Does the year have a 53rd week? -/
def hasLongYear (y : Nat) : Bool :=
  let wd := (⟨y, 1, 1⟩ : Date).weekday
  wd == 3 || (wd == 2 && isLeapYear y)

/-- The date of a day, Monday being 1, in a numbered week of a year. The weeks of year 0 lie
before the calendar, in no month of it. -/
def ofWeek? (y week day : Nat) : Option Date :=
  if week < 1 || 53 < week || (week == 53 && (y == 0 || !hasLongYear y)) then none
  else if day < 1 || 7 < day then none
  else if y = 0 then some ⟨1, 0, day⟩
  else some (ofOrdinal (firstMonday y + (week - 1) * 7 + (day - 1)))

/-- The date as year, month and day between hyphens. -/
def text (d : Date) : String :=
  zeroPadded 4 d.year ++ "-" ++ zeroPadded 2 d.month ++ "-" ++ zeroPadded 2 d.day

end Date

end Conveyor
