import TagWire.Proofs.Calendar

/-!
# The calendar in words

Dates and times are converted by a few additions, products and divisions of 32 and 64 bits.  Here
each conversion is carried out once more with every number checked against its word, in the order
in which the numbers arise:

* `int64?`, `int32?`, `uint32?` — a number as a word, unless it is too large for one;
* `Date.dayInWords?`, `Date.ofDayInWords` — a date by way of the count of its days from year 1;
* `DateTime.timestampInWords?`, `DateTime.ofTimestampInWords?`, `DateTime.dayAndNanoInWords?`,
  `DateTime.ofDayAndNanoInWords?` — the same for times.

A conversion that ends in `none` has left its words.  None does, and what they end in is the result
of the conversion of the same name: `Date.dayInWords?_eq` and the theorems after it.
-/

namespace TagWire

namespace Calendar

/-- A number, if it lies in a range. -/
def inRange? (low high n : Int) : Option Int := if low ≤ n ∧ n < high then some n else none

/-- A number as a word of 64 bits with a sign. -/
def int64? : Int → Option Int := inRange? (-2 ^ 63) (2 ^ 63)

/-- A number as a word of 32 bits with a sign. -/
def int32? : Int → Option Int := inRange? (-2 ^ 31) (2 ^ 31)

/-- A number as a word of 32 bits without a sign. -/
def uint32? : Int → Option Int := inRange? 0 (2 ^ 32)

theorem inRange?_of_mem {low high n : Int} (hlow : low ≤ n) (hhigh : n < high) :
    inRange? low high n = some n := if_pos ⟨hlow, hhigh⟩

/-- A check that refuses only what is refused behind it anyway makes no difference. -/
theorem inRange?_bind {α : Type} {low high n : Int} {next : Int → Option α}
    (h : ¬ (low ≤ n ∧ n < high) → next n = none) : (inRange? low high n).bind next = next n := by
  unfold inRange?
  split
  next hmem => rfl
  next hnot => exact (h hnot).symm

theorem int64?_of_mem {n : Int} (hlow : -2 ^ 63 ≤ n) (hhigh : n < 2 ^ 63) : int64? n = some n :=
  inRange?_of_mem hlow hhigh

theorem int32?_of_mem {n : Int} (hlow : -2 ^ 31 ≤ n) (hhigh : n < 2 ^ 31) : int32? n = some n :=
  inRange?_of_mem hlow hhigh

theorem uint32?_of_mem {n : Int} (hlow : 0 ≤ n) (hhigh : n < 2 ^ 32) : uint32? n = some n :=
  inRange?_of_mem hlow hhigh

end Calendar

open Calendar

/-! ## Dates -/

namespace Date

/-- The days of a date, counted from the first day of year 1 as day one. -/
def count (d : Date) : Int := daysBeforeYear d.year + daysBeforeMonth d.year d.month + d.day

/-- The date of a count. -/
def ofCount? (count : Int) : Option Date := ofEpochDay? (count - (epochOffset + 1))

/-- The epoch day of a date, from its count in 32 bits. -/
def dayInWords? (d : Date) : Option Int64 := do
  let count ← int32? d.count
  let day ← int64? (count - (epochOffset + 1))
  return Int64.ofInt day

/-- The date at an epoch day, from its count in 64 bits and then in 32.  A count that does not fit
is that of no date. -/
def ofDayInWords (day : Int64) : Except Fault Date :=
  let date? := do
    let count ← int64? (day.toInt + (epochOffset + 1))
    let count ← int32? count
    ofCount? count
  match date? with
  | some date => .ok date
  | none => .error (.dateOutOfRange day)

/-- The count starts a number of days before the epoch. -/
theorem count_eq (d : Date) : d.count = d.epochDay + (epochOffset + 1) := by
  have hday := d.day_in_month.1
  unfold count epochDay
  omega

/-- The epoch day is found in words. -/
theorem dayInWords?_eq (d : Date) : d.dayInWords? = some d.day64 := by
  have hbounds := d.epochDay_bounds
  have hcount := d.count_eq
  unfold epochOffset at hcount
  have hnarrow : int32? d.count = some d.count := int32?_of_mem (by omega) (by omega)
  have hday : d.count - (epochOffset + 1) = d.epochDay := by unfold epochOffset; omega
  have hwide : int64? d.epochDay = some d.epochDay := int64?_of_mem (by omega) (by omega)
  unfold dayInWords?
  rw [hnarrow, Option.bind_eq_bind, Option.bind_some, hday, hwide]
  rfl

/-- A count that does not fit in 32 bits is that of no date. -/
theorem ofCount?_of_wide {count : Int} (h : ¬ (-2 ^ 31 ≤ count ∧ count < 2 ^ 31)) :
    ofCount? count = none := by
  rw [Option.eq_none_iff_forall_not_mem]
  intro d hd
  have hday : d.epochDay = count - (epochOffset + 1) := ofEpochDay?_eq_some_iff.mp hd
  have hbounds := d.epochDay_bounds
  unfold epochOffset at hday
  omega

/-- A date is found by its count in 32 bits. -/
theorem int32?_bind_ofCount? (count : Int) : (int32? count).bind ofCount? = ofCount? count :=
  inRange?_bind ofCount?_of_wide

/-- The date at an epoch day is found in words. -/
theorem ofDayInWords_eq (day : Int64) : ofDayInWords day = ofDay day := by
  have hcount : ofCount? (day.toInt + (epochOffset + 1)) = ofEpochDay? day.toInt :=
    congrArg ofEpochDay? (Int.add_sub_cancel _ _)
  have hdate : (int64? (day.toInt + (epochOffset + 1))).bind (fun count =>
      (int32? count).bind ofCount?) = ofEpochDay? day.toInt := by
    simp only [int32?_bind_ofCount?]
    rw [← hcount]
    exact inRange?_bind fun hwide => ofCount?_of_wide fun h => hwide (by omega)
  unfold ofDayInWords ofDay
  cases hday : ofEpochDay? day.toInt with
  | none => simp only [Option.bind_eq_bind, hdate, hday]
  | some date => simp only [Option.bind_eq_bind, hdate, hday]

end Date

/-! ## Times -/

namespace DateTime

/-- The timestamp of a date-time, from its epoch day. -/
def timestampInWords? (t : DateTime) : Option (Int64 × Int32) := do
  let day ← t.date.dayInWords?
  let midnight ← int64? (day.toInt * secondsPerDay)
  let seconds ← int64? (midnight + t.time.second)
  let nanos ← int32? t.time.nano
  return (Int64.ofInt seconds, Int32.ofInt nanos)

/-- The date-time of a timestamp.  Nanoseconds below zero are refused before anything is
computed. -/
def ofTimestampInWords? (seconds : Int64) (nanos : Int32) : Option (Except Fault DateTime) :=
  match uint32? nanos.toInt with
  | none => some (.error (.timestampOutOfRange (.timestamp seconds nanos)))
  | some nano => do
      let count ← int64? (seconds.toInt / secondsPerDay + (epochOffset + 1))
      let second ← uint32? (seconds.toInt % secondsPerDay)
      let date? := (int32? count).bind Date.ofCount?
      let time? := TimeOfDay.ofParts? second.toNat nano.toNat
      return match date?, time? with
        | some date, some time => .ok ⟨date, time⟩
        | _, _ => .error (.timestampOutOfRange (.timestamp seconds nanos))

/-- The epoch day and the nanosecond of the day, unless the second has none left. -/
def dayAndNanoInWords? (t : DateTime) : Option (Except Fault (Int64 × Int64)) :=
  if nanosPerSecond ≤ t.time.nano then
    some (.error (.timestampOutOfRange (.leapSecond t)))
  else do
    let whole ← int64? (t.time.second * nanosPerSecond)
    let nano ← int64? (whole + t.time.nano)
    let day ← t.date.dayInWords?
    return .ok (day, Int64.ofInt nano)

/-- The date-time of a nanosecond of a day.  Nanoseconds that no day has are refused before they
are divided. -/
def ofDayAndNanoInWords? (day nano : Int64) : Option (Except Fault DateTime) :=
  match Date.ofDayInWords day with
  | .error fault => some (.error fault)
  | .ok date =>
      if 0 ≤ nano.toInt ∧ nano.toInt < nanosPerDay then do
        let second ← uint32? (nano.toInt.tdiv nanosPerSecond)
        let rest ← uint32? (nano.toInt.tmod nanosPerSecond)
        return match TimeOfDay.ofParts? second.toNat rest.toNat with
          | some time => .ok ⟨date, time⟩
          | none => .error (.timestampOutOfRange (.nanoOfDay nano))
      else some (.error (.timestampOutOfRange (.nanoOfDay nano)))

/-- The timestamp is found in words. -/
theorem timestampInWords?_eq (t : DateTime) : t.timestampInWords? = some t.toTimestamp := by
  have hday := t.date.epochDay_bounds
  have hsecond := t.time.second_lt
  have hnano := t.time.nano_lt
  unfold secondsPerDay at hsecond
  unfold nanosPerSecond at hnano
  have hmidnight : int64? (t.date.epochDay * secondsPerDay) =
      some (t.date.epochDay * secondsPerDay) := by
    unfold secondsPerDay
    exact int64?_of_mem (by omega) (by omega)
  have hseconds : int64? (t.date.epochDay * secondsPerDay + t.time.second) =
      some (t.date.epochDay * secondsPerDay + t.time.second) := by
    unfold secondsPerDay
    exact int64?_of_mem (by omega) (by omega)
  have hnanos : int32? t.time.nano = some (t.time.nano : Int) :=
    int32?_of_mem (by omega) (by omega)
  unfold timestampInWords?
  simp only [Option.bind_eq_bind, Date.dayInWords?_eq, Option.bind_some, Date.toInt_day64,
    hmidnight, hseconds, hnanos]
  rfl

/-- The date-time of a timestamp is found in words. -/
theorem ofTimestampInWords?_eq (seconds : Int64) (nanos : Int32) :
    ofTimestampInWords? seconds nanos = some (ofTimestamp seconds nanos) := by
  have hlow := Int64.le_toInt seconds
  have hhigh := Int64.toInt_lt seconds
  have hnanos := Int32.toInt_lt nanos
  by_cases hneg : nanos < 0
  · have hneg' : nanos.toInt < 0 := by
      rwa [Int32.lt_iff_toInt_lt, Int32.toInt_zero] at hneg
    have hrefused : uint32? nanos.toInt = none := if_neg (by omega)
    unfold ofTimestampInWords? ofTimestamp
    simp only [hrefused, if_pos hneg]
    cases Date.ofEpochDay? (seconds.toInt / secondsPerDay) <;> rfl
  · have hpos : 0 ≤ nanos.toInt := by
      rw [Int32.lt_iff_toInt_lt, Int32.toInt_zero] at hneg
      omega
    have hnano : uint32? nanos.toInt = some nanos.toInt := uint32?_of_mem hpos (by omega)
    have hcount : int64? (seconds.toInt / secondsPerDay + (epochOffset + 1)) =
        some (seconds.toInt / secondsPerDay + (epochOffset + 1)) := by
      unfold secondsPerDay epochOffset
      exact int64?_of_mem (by omega) (by omega)
    have hsecond : uint32? (seconds.toInt % secondsPerDay) =
        some (seconds.toInt % secondsPerDay) := by
      unfold secondsPerDay
      exact uint32?_of_mem (by omega) (by omega)
    have hdate : (int32? (seconds.toInt / secondsPerDay + (epochOffset + 1))).bind Date.ofCount? =
        Date.ofEpochDay? (seconds.toInt / secondsPerDay) :=
      (Date.int32?_bind_ofCount? _).trans (congrArg Date.ofEpochDay? (Int.add_sub_cancel _ _))
    unfold ofTimestampInWords? ofTimestamp
    simp only [hnano, hcount, hsecond, Option.bind_eq_bind, Option.bind_some, hdate, if_neg hneg]
    rfl

/-- The epoch day and the nanosecond of the day are found in words. -/
theorem dayAndNanoInWords?_eq (t : DateTime) : t.dayAndNanoInWords? = some t.toDayAndNano := by
  have hsecond := t.time.second_lt
  unfold secondsPerDay at hsecond
  unfold dayAndNanoInWords? toDayAndNano TimeOfDay.isLeapSecond
  by_cases hleap : nanosPerSecond ≤ t.time.nano
  · rw [if_pos hleap, if_pos (decide_eq_true hleap)]
  · have hnano : t.time.nano < nanosPerSecond := Nat.lt_of_not_le hleap
    unfold nanosPerSecond at hnano
    have hwhole : int64? (t.time.second * nanosPerSecond) =
        some (t.time.second * nanosPerSecond : Int) := by
      unfold nanosPerSecond
      exact int64?_of_mem (by omega) (by omega)
    have hall : int64? (t.time.second * nanosPerSecond + t.time.nano) =
        some (t.time.second * nanosPerSecond + t.time.nano : Int) := by
      unfold nanosPerSecond
      exact int64?_of_mem (by omega) (by omega)
    have hword : Int64.ofInt (t.time.second * nanosPerSecond + t.time.nano) =
        Int64.ofNat (t.time.second * nanosPerSecond + t.time.nano) := by
      rw [← Int64.ofInt_eq_ofNat, Int.natCast_add, Int.natCast_mul]
    rw [if_neg hleap, if_neg (by simpa using hleap), ← hword, hwhole, Option.bind_eq_bind,
      Option.bind_some, hall, Option.bind_eq_bind, Option.bind_some, Date.dayInWords?_eq]
    rfl

/-- The time of day at a nanosecond of the day, unless there is none. -/
theorem timeAt?_eq_none {nano : Int64} (h : ¬ (0 ≤ nano.toInt ∧ nano.toInt < nanosPerDay)) :
    (if nano < 0 then none
      else TimeOfDay.ofParts? (nano.toInt.toNat / nanosPerSecond)
        (nano.toInt.toNat % nanosPerSecond)) = none := by
  by_cases hneg : nano < 0
  · rw [if_pos hneg]
  · rw [Int64.lt_iff_toInt_lt, Int64.toInt_zero] at hneg
    have hlarge : ¬ nano.toInt.toNat / nanosPerSecond < secondsPerDay := by
      unfold nanosPerDay secondsPerDay nanosPerSecond at h
      unfold secondsPerDay nanosPerSecond
      omega
    unfold TimeOfDay.ofParts?
    rw [dif_neg hlarge, ite_self]

/-- The second that a nanosecond of the day falls in has 32 bits. -/
theorem uint32?_second {nano : Int} (hlow : 0 ≤ nano) (hhigh : nano < nanosPerDay) :
    uint32? (nano.tdiv nanosPerSecond) = some ((nano.toNat / nanosPerSecond : Nat) : Int) := by
  have hdiv : nano.tdiv nanosPerSecond = (nano.toNat / nanosPerSecond : Nat) := by
    rw [Int.tdiv_eq_ediv_of_nonneg hlow, Int.natCast_ediv, Int.toNat_of_nonneg hlow]
  unfold nanosPerDay secondsPerDay nanosPerSecond at hhigh
  rw [hdiv]
  unfold nanosPerSecond
  exact uint32?_of_mem (by omega) (by omega)

/-- What a nanosecond is past its second has 32 bits. -/
theorem uint32?_rest {nano : Int} (hlow : 0 ≤ nano) :
    uint32? (nano.tmod nanosPerSecond) = some ((nano.toNat % nanosPerSecond : Nat) : Int) := by
  have hmod : nano.tmod nanosPerSecond = (nano.toNat % nanosPerSecond : Nat) := by
    rw [Int.tmod_eq_emod_of_nonneg hlow, Int.natCast_emod, Int.toNat_of_nonneg hlow]
  rw [hmod]
  unfold nanosPerSecond
  exact uint32?_of_mem (by omega) (by omega)

/-- The date-time of a nanosecond of a day is found in words. -/
theorem ofDayAndNanoInWords?_eq (day nano : Int64) :
    ofDayAndNanoInWords? day nano = some (ofDayAndNano day nano) := by
  unfold ofDayAndNanoInWords? ofDayAndNano
  rw [Date.ofDayInWords_eq]
  cases Date.ofDay day with
  | error fault => rfl
  | ok date =>
      dsimp only [bind, Except.bind]
      by_cases hmem : 0 ≤ nano.toInt ∧ nano.toInt < nanosPerDay
      · have hpos : ¬ nano < 0 := by
          rw [Int64.lt_iff_toInt_lt, Int64.toInt_zero]
          omega
        rw [if_pos hmem, if_neg hpos, uint32?_second hmem.1 hmem.2, uint32?_rest hmem.1]
        simp only [Option.bind_some, Int.toNat_natCast]
        cases TimeOfDay.ofParts? (nano.toInt.toNat / nanosPerSecond)
          (nano.toInt.toNat % nanosPerSecond) <;> rfl
      · rw [if_neg hmem, timeAt?_eq_none hmem]

end DateTime

end TagWire
