import TagWire.Calendar.Date

/-!
# Times of day and date-times

A time of day counts seconds from midnight and nanoseconds within the second.
A leap second has no number of its own: it is shown as nanoseconds beyond one
second, and only the last second of a minute can be so long.  A date and a
time of day make a date-time; a timestamp is the date-time that clocks show
in UTC.
-/

namespace TagWire

namespace Calendar

/-- Seconds of a day. -/
def secondsPerDay : Nat := 86400

/-- Nanoseconds of a second. -/
def nanosPerSecond : Nat := 1000000000

/-- Nanoseconds of a day. -/
def nanosPerDay : Nat := secondsPerDay * nanosPerSecond

end Calendar

open Calendar

/-- A time of day, possibly within a leap second. -/
structure TimeOfDay where
  second : Nat
  nano : Nat
  second_lt : second < secondsPerDay
  nano_lt : nano < 2 * nanosPerSecond
  ends_minute : nanosPerSecond ≤ nano → second % 60 = 59
  deriving DecidableEq, Repr

namespace TimeOfDay

/-- The time of day with these parts, if there is one. -/
def ofParts? (second nano : Nat) : Option TimeOfDay :=
  if hs : second < secondsPerDay then
    if hn : nano < 2 * nanosPerSecond then
      if hl : nanosPerSecond ≤ nano → second % 60 = 59 then some ⟨second, nano, hs, hn, hl⟩
      else none
    else none
  else none

/-- Whether the time lies within a leap second. -/
def isLeapSecond (time : TimeOfDay) : Bool := nanosPerSecond ≤ time.nano

/-- A fraction of a second with the fewest digits of 0, 3, 6 or 9 that are exact. -/
def fractionText (nano : Nat) : String :=
  if nano = 0 then ""
  else if nano % 1000000 = 0 then "." ++ Digits.padded 10 3 (nano / 1000000)
  else if nano % 1000 = 0 then "." ++ Digits.padded 10 6 (nano / 1000)
  else "." ++ Digits.padded 10 9 nano

/-- Hours, minutes and seconds, with the fraction where there is one.  A leap
second is second 60. -/
def text (time : TimeOfDay) : String :=
  let extra := if time.isLeapSecond then 1 else 0
  Digits.padded 10 2 (time.second / 3600) ++ ":" ++ Digits.padded 10 2 (time.second / 60 % 60)
    ++ ":" ++ Digits.padded 10 2 (time.second % 60 + extra)
    ++ fractionText (time.nano - extra * nanosPerSecond)

end TimeOfDay

/-- A date and a time of day. -/
structure DateTime where
  date : Date
  time : TimeOfDay
  deriving DecidableEq, Repr

/-- The date, a blank and the time of day. -/
def DateTime.text (t : DateTime) : String := t.date.text ++ " " ++ t.time.text

namespace Calendar

/-- Why numbers do not stand for a time, or a time has no number. -/
inductive TimeFault where
  /-- Seconds and nanoseconds that no timestamp has. -/
  | timestamp (seconds : Int64) (nanos : Int32)
  /-- A number that is no nanosecond of a day. -/
  | nanoOfDay (nano : Int64)
  /-- A leap second, which has no nanosecond of the day. -/
  | leapSecond (time : DateTime)
  deriving DecidableEq, Repr

/-- The cause in words. -/
def TimeFault.message : TimeFault → String
  | timestamp seconds nanos => s!"{seconds}s + {nanos}ns"
  | nanoOfDay nano => s!"nano of day {nano}"
  | leapSecond time => "leap second at " ++ time.text

end Calendar

end TagWire
