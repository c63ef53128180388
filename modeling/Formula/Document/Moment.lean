import Formula.Text.Digit

/-!
# Dates and moments

A date is a day of the calendar, and a moment is a time on a date, perhaps with the
difference between the local clock and the common one.  Two moments with such differences
are the same if the common clock shows the same.
-/

namespace Formula

/-- A number with zeros before it, so that it has `width` digits at least. -/
def Numeral.padded (width n : Nat) : Text :=
  let digits := write n
  List.replicate (width - digits.length) '0' ++ digits

open Numeral (padded)

/-- A date of the calendar. -/
structure Date where
  year : Nat
  month : Nat
  day : Nat
deriving DecidableEq, Repr

namespace Date

/-- Whether a year has a leap day. -/
def isLeap (year : Nat) : Bool := year % 4 = 0 && (year % 100 ≠ 0 || year % 400 = 0)

/-- The number of days in a month of a year. -/
def daysIn (year month : Nat) : Nat :=
  if month = 2 then if isLeap year then 29 else 28
  else if [4, 6, 9, 11].contains month then 30 else 31

/-- Whether there is such a date.  Years have at most four digits. -/
def isValid (d : Date) : Bool :=
  1 ≤ d.year && d.year ≤ 9999 && 1 ≤ d.month && d.month ≤ 12
    && 1 ≤ d.day && d.day ≤ daysIn d.year d.month

/-- The number of days before a date, counted from the first year on. -/
def daysBefore (d : Date) : Nat :=
  let years := d.year - 1
  let months := (List.range (d.month - 1)).map fun m => daysIn d.year (m + 1)
  365 * years + years / 4 - years / 100 + years / 400 + months.foldl (· + ·) 0 + (d.day - 1)

/-- The text of a date: year, month and day. -/
def write (d : Date) : Text :=
  padded 4 d.year ++ ['-'] ++ padded 2 d.month ++ ['-'] ++ padded 2 d.day

/-- The numbers of a date. -/
def parts (d : Date) : List Nat := [d.year, d.month, d.day]

end Date

/-- A time on a date. -/
structure Moment where
  date : Date
  hour : Nat
  minute : Nat
  second : Nat
  microsecond : Nat
  /-- By how many minutes the local clock is ahead of the common one, if that is known. -/
  ahead : Option Int
deriving DecidableEq, Repr

namespace Moment

/-- Whether there is such a moment.  A local clock is ahead or behind by less than a day. -/
def isValid (m : Moment) : Bool :=
  m.date.isValid && m.hour < 24 && m.minute < 60 && m.second < 60 && m.microsecond < 1000000
    && m.ahead.all fun a => a.natAbs < 24 * 60

/-- The minutes before a moment, on the common clock if the difference to it is known. -/
def minutesBefore (m : Moment) : Int :=
  ((m.date.daysBefore * 24 + m.hour) * 60 + m.minute : Nat) - m.ahead.getD 0

/-- Whether two moments are the same.  A moment on an unknown clock is the same only as one on
an unknown clock. -/
def isSame (m n : Moment) : Bool :=
  m.ahead.isSome = n.ahead.isSome && m.minutesBefore = n.minutesBefore && m.second = n.second
    && m.microsecond = n.microsecond

/-- The text of a difference of clocks: a sign, hours and minutes. -/
def writeAhead (a : Int) : Text :=
  (if a < 0 then ['-'] else ['+']) ++ padded 2 (a.natAbs / 60) ++ [':'] ++ padded 2 (a.natAbs % 60)

/-- The text of a moment: its date, its time, and the difference of clocks. -/
def write (m : Moment) : Text :=
  m.date.write ++ [' '] ++ padded 2 m.hour ++ [':'] ++ padded 2 m.minute ++ [':']
    ++ padded 2 m.second ++ (if m.microsecond = 0 then [] else '.' :: padded 6 m.microsecond)
    ++ (m.ahead.map writeAhead).getD []

/-- The numbers of a moment.  Seconds and their fractions are left out at the end if they are
zero. -/
def parts (m : Moment) : List Nat :=
  m.date.parts ++ [m.hour, m.minute]
    ++ if m.microsecond ≠ 0 then [m.second, m.microsecond]
      else if m.second ≠ 0 then [m.second] else []

/-- A difference of clocks as a number of days and a number of seconds that is less than a
day. -/
def daysAndSeconds (a : Int) : Int × Int := (Int.fdiv a (24 * 60), Int.fmod a (24 * 60) * 60)

end Moment

end Formula
