import SharedRuntime.Text.Ascii

/-!
# Points in time

An instant is a day of the Gregorian calendar in UTC and a time of that day. A leap second is the
sixtieth second of a minute. `Instant.shift` moves an instant by whole minutes of less than a day,
which is what an offset from UTC asks for.
-/

set_option autoImplicit false

namespace SharedRuntime

/-- A day of the Gregorian calendar. -/
structure Date where
  year : Int
  month : Nat
  day : Nat
  deriving DecidableEq, Repr

namespace Date

/-- Has the year a leap day? -/
def isLeapYear (y : Int) : Bool := y % 4 = 0 && (y % 100 != 0 || y % 400 = 0)

/-- The number of days in a month. -/
def daysIn (y : Int) (m : Nat) : Nat :=
  if m = 2 then (if isLeapYear y then 29 else 28)
  else if m = 4 || m = 6 || m = 9 || m = 11 then 30 else 31

/-- The first year that a date may have. -/
def minYear : Int := -262143

/-- The last year that a date may have. -/
def maxYear : Int := 262142

/-- Is this a day of the calendar, in the range of years? -/
def isValid (d : Date) : Bool :=
  minYear ≤ d.year && d.year ≤ maxYear && 1 ≤ d.month && d.month ≤ 12 && 1 ≤ d.day &&
  d.day ≤ daysIn d.year d.month

/-- The day after. -/
def next (d : Date) : Date :=
  if d.day < daysIn d.year d.month then { d with day := d.day + 1 }
  else if d.month < 12 then ⟨d.year, d.month + 1, 1⟩
  else ⟨d.year + 1, 1, 1⟩

/-- The day before. -/
def previous (d : Date) : Date :=
  if 1 < d.day then { d with day := d.day - 1 }
  else if 1 < d.month then ⟨d.year, d.month - 1, daysIn d.year (d.month - 1)⟩
  else ⟨d.year - 1, 12, 31⟩

/-- The date a number of days after the first of January 1970. -/
def ofDays (days : Int) : Date :=
  let z := days + 719468
  let era := z / 146097
  let doe := (z % 146097).toNat
  let yoe := (doe - doe / 1460 + doe / 36524 - doe / 146096) / 365
  let doy := doe - (365 * yoe + yoe / 4 - yoe / 100)
  let mp := (5 * doy + 2) / 153
  let day := doy - (153 * mp + 2) / 5 + 1
  let month := if mp < 10 then mp + 3 else mp - 9
  ⟨era * 400 + yoe + (if month ≤ 2 then 1 else 0), month, day⟩

end Date

/-- A point in time, in UTC. -/
structure Instant where
  date : Date
  hour : Nat
  minute : Nat
  /-- Up to 59, or 60 in a leap second. -/
  second : Nat
  nano : Nat
  deriving DecidableEq, Repr

namespace Instant

/-- The instant that many minutes later; `none` outside the range of years. -/
def shift (minutes : Int) (t : Instant) : Option Instant :=
  let total := (t.hour * 60 + t.minute : Nat) + minutes
  let (date, inDay) :=
    if total < 0 then (t.date.previous, total + 1440)
    else if 1440 ≤ total then (t.date.next, total - 1440)
    else (t.date, total)
  let n := inDay.toNat
  if date.isValid then some { t with date := date, hour := n / 60, minute := n % 60 } else none

/-- The instant a number of nanoseconds after the start of 1970. -/
def ofNanos (n : Nat) : Instant :=
  let secs := n / 1000000000
  let inDay := secs % 86400
  ⟨Date.ofDays (secs / 86400), inDay / 3600, inDay / 60 % 60, inDay % 60, n % 1000000000⟩

end Instant

end SharedRuntime
