/-!
# Points in time

A point in time is a number of seconds since the start of 1970 and a number of nanoseconds behind
them, in universal time. Its text is the one of RFC 3339, with as many groups of three digits behind
the second as are needed.

The date is found by counting years from March on, so that the day a leap year adds is its last one.
-/

namespace BlockLedger

/-- **A point in time.** -/
structure Instant where
  seconds : Int64
  nanoseconds : Nat
  deriving DecidableEq, Repr

namespace Instant

/-- A day in a calendar. -/
structure Date where
  year : Int
  month : Nat
  day : Nat
  deriving DecidableEq, Repr

/-- The days of four hundred years, after which the calendar repeats. -/
def daysOfCycle : Nat := 146097

/-- The day that is so many days behind the start of 1970. -/
def dateOf (days : Int) : Date :=
  let shifted := days + 719468
  let inCycle := (shifted % daysOfCycle).toNat
  let year := (inCycle - inCycle / 1460 + inCycle / 36524 - inCycle / 146096) / 365
  let inYear := inCycle - (365 * year + year / 4 - year / 100)
  let month := (5 * inYear + 2) / 153
  let start := year + 400 * (shifted / daysOfCycle)
  { year := if month < 10 then start else start + 1
    month := if month < 10 then month + 3 else month - 9
    day := inYear - (153 * month + 2) / 5 + 1 }

/-- A number with zeros in front of it, up to so many digits. -/
def padded (width n : Nat) : String :=
  let digits := toString n
  String.ofList (List.replicate (width - digits.length) '0') ++ digits

/-- The digits behind the second, with the point in front of them. -/
def fraction (nanoseconds : Nat) : String :=
  if nanoseconds = 0 then ""
  else if nanoseconds % 1000000 = 0 then "." ++ padded 3 (nanoseconds / 1000000)
  else if nanoseconds % 1000 = 0 then "." ++ padded 6 (nanoseconds / 1000)
  else "." ++ padded 9 nanoseconds

/-- A year, with its sign where it does not have four digits. -/
def yearText (year : Int) : String :=
  if year < 0 then "-" ++ padded 4 year.natAbs
  else if year < 10000 then padded 4 year.natAbs
  else "+" ++ padded 5 year.natAbs

/-- **The text of a point in time**, with the given name of the zone behind it. -/
def render (i : Instant) (zone : String) : String :=
  let days := i.seconds.toInt / 86400
  let second := (i.seconds.toInt % 86400).toNat
  let date := dateOf days
  yearText date.year ++ "-" ++ padded 2 date.month ++ "-" ++ padded 2 date.day ++ "T"
    ++ padded 2 (second / 3600) ++ ":" ++ padded 2 (second / 60 % 60) ++ ":"
    ++ padded 2 (second % 60) ++ fraction i.nanoseconds ++ zone

example : dateOf 0 = ⟨1970, 1, 1⟩ := by decide
example : dateOf 11016 = ⟨2000, 2, 29⟩ := by decide
example : dateOf (-1) = ⟨1969, 12, 31⟩ := by decide

end Instant

end BlockLedger
