/-!
# Instants and calendar dates

An instant is a number of seconds since the start of 1970 in universal time; during a leap second
the nanoseconds count on beyond one second.  A date is one of the Gregorian calendar, extended to
all years.

Days are counted in cycles of 400 years from the first of March of the year 0, so that a leap day
is the last day of its year: `civil` cuts a number of days into 400 years, then centuries, then
four years, then years, and the days of the year into months.

- `daysInMonth_pos`: every month has a day.
-/

namespace UpdateFeed

/-! ## §1 Instants and dates -/

/-- A point in time. -/
structure Instant where
  /-- Whole seconds since the start of 1970. -/
  seconds : Int
  /-- The part of a second, `10 ^ 9` and more during a leap second. -/
  nanoseconds : Nat
  deriving DecidableEq, Repr, Inhabited

/-- A day of the calendar. -/
structure Date where
  year : Int
  month : Nat
  day : Nat
  deriving DecidableEq, Repr

namespace Date

/-- Whether a year has a leap day. -/
def isLeapYear (year : Int) : Bool :=
  year % 4 = 0 && (year % 100 ≠ 0 || year % 400 = 0)

/-- The number of days of a month. -/
def daysInMonth (year : Int) (month : Nat) : Nat :=
  match month with
  | 2 => if isLeapYear year then 29 else 28
  | 4 | 6 | 9 | 11 => 30
  | _ => 31

theorem daysInMonth_pos (year : Int) (month : Nat) : 0 < daysInMonth year month := by
  unfold daysInMonth
  split <;> (try split) <;> omega

/-- Whether month and day exist. -/
def isValid (date : Date) : Bool :=
  1 ≤ date.month && date.month ≤ 12 && 1 ≤ date.day
    && date.day ≤ daysInMonth date.year date.month

/-- The number of days from the first of March of the year 0 to the start of 1970. -/
def epochShift : Int := 719468

/-- The date that lies a number of days after the start of 1970. -/
def civil (days : Int) : Date :=
  let shifted := days + epochShift
  let cycle := shifted.fdiv 146097
  let dayOfCycle := (shifted.fmod 146097).toNat
  let yearOfCycle :=
    (dayOfCycle - dayOfCycle / 1460 + dayOfCycle / 36524 - dayOfCycle / 146096) / 365
  let dayOfYear := dayOfCycle - (365 * yearOfCycle + yearOfCycle / 4 - yearOfCycle / 100)
  let monthFromMarch := (5 * dayOfYear + 2) / 153
  let day := dayOfYear - (153 * monthFromMarch + 2) / 5 + 1
  let month := if monthFromMarch < 10 then monthFromMarch + 3 else monthFromMarch - 9
  let year := (yearOfCycle : Int) + cycle * 400 + (if month ≤ 2 then 1 else 0)
  ⟨year, month, day⟩

end Date

/-! ## §2 Timestamps -/

namespace Instant

/-- A number with zeros in front up to a width. -/
def padded (width value : Nat) : List Char :=
  let digits := Nat.toDigits 10 value
  List.replicate (width - digits.length) '0' ++ digits

/-- A year with four digits at least; a sign stands before negative years and those above 9999. -/
def yearChars (year : Int) : List Char :=
  if year < 0 then '-' :: padded 4 year.natAbs
  else if 9999 < year then '+' :: padded 4 year.natAbs
  else padded 4 year.natAbs

/-- The time in universal time as `YYYY-MM-DDTHH:MM:SSZ`; a leap second is second 60. -/
def timestamp (instant : Instant) : String :=
  let date := Date.civil (instant.seconds.fdiv 86400)
  let secondOfDay := (instant.seconds.fmod 86400).toNat
  let second := secondOfDay % 60 + (if 1000000000 ≤ instant.nanoseconds then 1 else 0)
  String.ofList <|
    yearChars date.year ++ '-' :: padded 2 date.month ++ '-' :: padded 2 date.day
      ++ 'T' :: padded 2 (secondOfDay / 3600) ++ ':' :: padded 2 (secondOfDay / 60 % 60)
      ++ ':' :: padded 2 second ++ ['Z']

end Instant

end UpdateFeed
