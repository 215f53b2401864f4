/-! # The proleptic Gregorian calendar

* **`Date`** — a year, month and day.
* **`Date.dayNumber`** — days since 1970-01-01; **`Date.ofDayNumber`** — its inverse.
* **`Date.isValid`** — the month exists and has the day. -/

namespace PayloadGate.Time

/-- **A calendar date.** -/
structure Date where
  /-- The year; zero and negative years are allowed. -/
  year : Int
  /-- The month, from 1. -/
  month : Nat
  /-- The day of the month, from 1. -/
  day : Nat
  deriving DecidableEq, Repr

namespace Date

/-- Every fourth year is a leap year, but of the centuries, `year % 100 = 0`, only every fourth one. -/
def isLeapYear (year : Int) : Bool := year % 4 == 0 && (year % 100 != 0 || year % 400 == 0)

/-- The number of days of a month. -/
def monthLength (year : Int) (month : Nat) : Nat :=
  if month == 2 then (if isLeapYear year then 29 else 28)
  else if month == 4 || month == 6 || month == 9 || month == 11 then 30
  else 31

/-- **A date of the calendar**: `month` is one of `1` to `12`, and `day` one of `1` to `monthLength year month`. -/
def isValid (d : Date) : Bool :=
  1 ≤ d.month && d.month ≤ 12 && 1 ≤ d.day && d.day ≤ monthLength d.year d.month

/-- **Days since 1970-01-01.** Years are counted from March, so that the leap day is the last one of its year; `719468`
days lie between 0000-03-01 and 1970-01-01. -/
def dayNumber (d : Date) : Int :=
  -- January and February belong to the year before
  let year := if d.month ≤ 2 then d.year - 1 else d.year
  let month := (d.month + 9) % 12
  let dayOfYear := (153 * month + 2) / 5 + d.day - 1
  365 * year + year / 4 - year / 100 + year / 400 + dayOfYear - 719468

/-- **The date that lies `n` days after 1970-01-01**, by eras of `146097` days; the inverse of `dayNumber`. -/
def ofDayNumber (n : Int) : Date :=
  let shifted := n + 719468
  let era := shifted / 146097
  let dayOfEra := (shifted % 146097).toNat
  let yearOfEra := (dayOfEra - dayOfEra / 1460 + dayOfEra / 36524 - dayOfEra / 146096) / 365
  -- the days behind the leap days and years before
  let dayOfYear := dayOfEra - (365 * yearOfEra + yearOfEra / 4 - yearOfEra / 100)
  let month := (5 * dayOfYear + 2) / 153
  let day := dayOfYear - (153 * month + 2) / 5 + 1
  if month < 10 then ⟨yearOfEra + era * 400, month + 3, day⟩
  else ⟨yearOfEra + era * 400 + 1, month - 9, day⟩

end Date

end PayloadGate.Time
