import TagWire.Fault

/-!
# Dates and times on the wire

A date travels as its epoch day, a timestamp as seconds since 1970-01-01 and
nanoseconds, a date-time as an epoch day and the nanosecond of that day.  A
leap second fits into a timestamp, but has no nanosecond of the day.
-/

namespace TagWire

open Calendar

/-- The date at an epoch day. -/
def Date.ofDay (day : Int64) : Except Fault Date :=
  match Date.ofEpochDay? day.toInt with
  | some date => .ok date
  | none => .error (.dateOutOfRange day)

/-- The epoch day as it is written. -/
def Date.day64 (date : Date) : Int64 := Int64.ofInt date.epochDay

namespace DateTime

/-- Seconds since 1970-01-01, and the nanoseconds on top of them. -/
def toTimestamp (t : DateTime) : Int64 × Int32 :=
  (Int64.ofInt (t.date.epochDay * secondsPerDay + t.time.second), Int32.ofNat t.time.nano)

/-- The date-time of a timestamp. -/
def ofTimestamp (seconds : Int64) (nanos : Int32) : Except Fault DateTime :=
  let date? := Date.ofEpochDay? (seconds.toInt / secondsPerDay)
  let time? :=
    if nanos < 0 then none
    else TimeOfDay.ofParts? (seconds.toInt % secondsPerDay).toNat nanos.toInt.toNat
  match date?, time? with
  | some date, some time => .ok ⟨date, time⟩
  | _, _ => .error (.timestampOutOfRange (.timestamp seconds nanos))

/-- Epoch day and nanosecond of the day. -/
def toDayAndNano (t : DateTime) : Except Fault (Int64 × Int64) :=
  if t.time.isLeapSecond then .error (.timestampOutOfRange (.leapSecond t))
  else .ok (t.date.day64, Int64.ofNat (t.time.second * nanosPerSecond + t.time.nano))

/-- The date-time of a nanosecond of a day. -/
def ofDayAndNano (day nano : Int64) : Except Fault DateTime := do
  let date ← Date.ofDay day
  let n := nano.toInt.toNat
  let time? :=
    if nano < 0 then none else TimeOfDay.ofParts? (n / nanosPerSecond) (n % nanosPerSecond)
  match time? with
  | some time => .ok ⟨date, time⟩
  | none => .error (.timestampOutOfRange (.nanoOfDay nano))

end DateTime

end TagWire
