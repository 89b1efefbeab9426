import TagWire.Text.Digits

/-!
# Dates and epoch days

Dates are those of the proleptic Gregorian calendar, year zero included, in
the range of years from `minYear` to `maxYear`.  The epoch day of a date
counts the days from 1970-01-01.

A date is found back from its epoch day in two steps.  The average length of
a year gives a year that is off by at most one, and comparing with the first
days of that year and the next corrects it; what is left are days into the
year, which the lengths of the months use up one after the other.
-/

namespace TagWire

namespace Calendar

/-- First year of the supported dates. -/
def minYear : Int := -262143

/-- Last year of the supported dates. -/
def maxYear : Int := 262142

/-- Every fourth year is a leap year, of the centuries every fourth one. -/
def isLeap (year : Int) : Bool := year % 4 = 0 && (year % 100 ≠ 0 || year % 400 = 0)

/-- The lengths of the months, January first. -/
def monthLengths (year : Int) : List Nat :=
  [31, if isLeap year then 29 else 28, 31, 30, 31, 30, 31, 31, 30, 31, 30, 31]

/-- The length of a month, zero for one that does not exist. -/
def daysInMonth (year : Int) (month : Nat) : Nat :=
  if month = 0 then 0 else (monthLengths year).getD (month - 1) 0

/-- The days from the first day of year 1 to that of `year`. -/
def daysBeforeYear (year : Int) : Int :=
  let past := year - 1
  365 * past + past / 4 - past / 100 + past / 400

/-- The days of a year before a month begins. -/
def daysBeforeMonth (year : Int) (month : Nat) : Nat :=
  ((monthLengths year).take (month - 1)).foldr (· + ·) 0

/-- The days from the first day of year 1 to 1970-01-01. -/
def epochOffset : Int := 719162

/-- The year that day `n` falls in, counted from the first day of year 1. -/
def yearOfDay (n : Int) : Int :=
  let year := 400 * n / 146097 + 1
  if n < daysBeforeYear year then year - 1
  else if daysBeforeYear (year + 1) ≤ n then year + 1
  else year

/-- The month and the day in it, both from one, that lie `n` days into a year of
months of these lengths. -/
def monthAndDay : List Nat → Nat → Nat × Nat
  | [], n => (1, n + 1)
  | length :: later, n =>
      if n < length then (1, n + 1)
      else
        let found := monthAndDay later (n - length)
        (found.1 + 1, found.2)

end Calendar

open Calendar

/-- A day of the calendar. -/
structure Date where
  year : Int
  month : Nat
  day : Nat
  year_in_range : minYear ≤ year ∧ year ≤ maxYear
  day_in_month : 1 ≤ day ∧ day ≤ daysInMonth year month
  deriving DecidableEq, Repr

namespace Date

/-- The date of a year, a month and a day, if there is one. -/
def ofParts? (year : Int) (month day : Nat) : Option Date :=
  if hy : minYear ≤ year ∧ year ≤ maxYear then
    if hd : 1 ≤ day ∧ day ≤ daysInMonth year month then some ⟨year, month, day, hy, hd⟩ else none
  else none

/-- Days from 1970-01-01 to the date. -/
def epochDay (date : Date) : Int :=
  daysBeforeYear date.year + (daysBeforeMonth date.year date.month + (date.day - 1) : Nat)
    - epochOffset

/-- The date at an epoch day, unless its year is out of range. -/
def ofEpochDay? (day : Int) : Option Date :=
  let n := day + epochOffset
  let year := yearOfDay n
  let found := monthAndDay (monthLengths year) (n - daysBeforeYear year).toNat
  ofParts? year found.1 found.2

/-- The year with four digits, and with a sign where four digits are not enough or
the year is before year zero. -/
def yearText (year : Int) : String :=
  let digits := Digits.padded 10 4 year.natAbs
  if year < 0 then "-" ++ digits else if 9999 < year then "+" ++ digits else digits

/-- The date as year, month and day. -/
def text (date : Date) : String :=
  yearText date.year ++ "-" ++ Digits.padded 10 2 date.month ++ "-" ++ Digits.padded 10 2 date.day

end Date

end TagWire
