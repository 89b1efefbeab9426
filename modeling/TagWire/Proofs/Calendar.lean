import Mathlib.Algebra.Ring.Int.Defs
import Mathlib.Algebra.Ring.Nat
import TagWire.Calendar.Parts

/-!
# Dates, times and their numbers

Every conversion of the calendar is undone by the one in the other direction,
on exactly the numbers that the first one yields:

* `yearOfDay_eq_iff` — the year of a day is the one between whose first day
  and that of the next year it lies;
* `ofEpochDay?_eq_some_iff` — a date is found at its epoch day and nowhere else;
* `Date.ofDay_eq_ok_iff`, `DateTime.ofTimestamp_eq_ok_iff`,
  `DateTime.ofDayAndNano_eq_ok_iff` — the same for the numbers on the wire,
  none of which overflows.
-/

namespace TagWire

namespace Calendar

/-- A year is as long as its months. -/
theorem daysBeforeYear_succ (year : Int) :
    daysBeforeYear (year + 1) = daysBeforeYear year + (monthLengths year).sum := by
  have hsum : ((monthLengths year).sum : Int) = if isLeap year then 366 else 365 := by
    cases h : isLeap year <;> simp [monthLengths, h]
  rw [hsum]
  unfold isLeap daysBeforeYear
  dsimp only
  split
  next hleap =>
    simp only [Bool.and_eq_true, Bool.or_eq_true, decide_eq_true_eq] at hleap
    omega
  next hcommon =>
    simp only [Bool.and_eq_true, Bool.or_eq_true, decide_eq_true_eq] at hcommon
    omega

/-- Years begin one after the other. -/
theorem daysBeforeYear_mono {a b : Int} (h : a ≤ b) : daysBeforeYear a ≤ daysBeforeYear b := by
  unfold daysBeforeYear
  dsimp only
  omega

/-- A day lies in the year that is found for it. -/
theorem yearOfDay_bounds (n : Int) :
    daysBeforeYear (yearOfDay n) ≤ n ∧ n < daysBeforeYear (yearOfDay n + 1) := by
  have hlow : daysBeforeYear (400 * n / 146097 + 1 - 1) ≤ n := by
    unfold daysBeforeYear
    dsimp only
    omega
  have hhigh : n < daysBeforeYear (400 * n / 146097 + 1 + 1 + 1) := by
    unfold daysBeforeYear
    dsimp only
    omega
  unfold yearOfDay
  dsimp only
  split
  next hbefore => exact ⟨hlow, by rwa [Int.sub_add_cancel]⟩
  next hfrom =>
    split
    next hafter => exact ⟨hafter, hhigh⟩
    next huntil => omega

/-- The year of a day is the one in which it lies. -/
theorem yearOfDay_eq_iff {n year : Int} :
    yearOfDay n = year ↔ daysBeforeYear year ≤ n ∧ n < daysBeforeYear (year + 1) := by
  obtain ⟨hlow, hhigh⟩ := yearOfDay_bounds n
  constructor
  · intro h
    subst h
    exact ⟨hlow, hhigh⟩
  · intro h
    rcases h with ⟨hlow', hhigh'⟩
    rcases Int.lt_trichotomy (yearOfDay n) year with hlt | heq | hgt
    · have := daysBeforeYear_mono (show yearOfDay n + 1 ≤ year by omega)
      omega
    · exact heq
    · have := daysBeforeYear_mono (show year + 1 ≤ yearOfDay n by omega)
      omega

/-- Before a month lie the months that come before it. -/
theorem daysBeforeMonth_succ (year : Int) (k : Nat) :
    daysBeforeMonth year (k + 1) = ((monthLengths year).take k).sum := by
  rw [daysBeforeMonth, Nat.add_sub_cancel, List.sum]

/-- A day of a month is a day of the year. -/
theorem sum_take_add_lt {lengths : List Nat} {k j : Nat} (h : j < lengths.getD k 0) :
    (lengths.take k).sum + j < lengths.sum := by
  induction lengths generalizing k with
  | nil => simp at h
  | cons length later ih =>
      cases k with
      | zero =>
          simp at h
          simp only [List.take_zero, List.sum_nil, List.sum_cons]
          omega
      | succ k =>
          have hlater := ih (k := k) (by simpa using h)
          simp only [List.take_succ_cons, List.sum_cons]
          omega

/-- Every day of a year is a day of one of its months. -/
theorem exists_month_of_lt (lengths : List Nat) {n : Nat} (h : n < lengths.sum) :
    ∃ k j, j < lengths.getD k 0 ∧ (lengths.take k).sum + j = n := by
  induction lengths generalizing n with
  | nil => simp at h
  | cons length later ih =>
      by_cases hfirst : n < length
      · exact ⟨0, n, by simpa using hfirst, by simp⟩
      · rw [List.sum_cons] at h
        obtain ⟨k, j, hj, hn⟩ := ih (n := n - length) (by omega)
        refine ⟨k + 1, j, by simpa using hj, ?_⟩
        rw [List.take_succ_cons, List.sum_cons]
        omega

/-- The months use up the days before a day, and it is found in the next one. -/
theorem monthAndDay_sum_take_add {lengths : List Nat} {k j : Nat} (h : j < lengths.getD k 0) :
    monthAndDay lengths ((lengths.take k).sum + j) = (k + 1, j + 1) := by
  induction lengths generalizing k with
  | nil => simp at h
  | cons length later ih =>
      cases k with
      | zero =>
          have hlt : j < length := by simpa using h
          simp [monthAndDay, hlt]
      | succ k =>
          have hlater := ih (k := k) (by simpa using h)
          rw [List.take_succ_cons, List.sum_cons, monthAndDay, if_neg (by omega)]
          have hrest : length + (later.take k).sum + j - length = (later.take k).sum + j := by
            omega
          rw [hrest, hlater]

end Calendar

open Calendar

namespace Date

/-- The day of a year that a date falls on, counted from zero. -/
theorem dayOfYear_spec (d : Date) :
    ∃ k j, d.month = k + 1 ∧ d.day = j + 1 ∧ j < (monthLengths d.year).getD k 0 := by
  obtain ⟨year, month, day, hyear, hday⟩ := d
  unfold daysInMonth at hday
  split at hday
  · omega
  · exact ⟨month - 1, day - 1, by dsimp only; omega, by dsimp only; omega, by dsimp only; omega⟩

/-- A date is found at its epoch day, and nowhere else. -/
theorem ofEpochDay?_eq_some_iff {n : Int} {d : Date} :
    ofEpochDay? n = some d ↔ d.epochDay = n := by
  constructor
  · intro h
    obtain ⟨hlow, hhigh⟩ := yearOfDay_bounds (n + epochOffset)
    rw [daysBeforeYear_succ] at hhigh
    obtain ⟨k, j, hj, hn⟩ := exists_month_of_lt (monthLengths (yearOfDay (n + epochOffset)))
      (n := (n + epochOffset - daysBeforeYear (yearOfDay (n + epochOffset))).toNat) (by omega)
    unfold ofEpochDay? ofParts? at h
    dsimp only at h
    rw [← hn, monthAndDay_sum_take_add hj] at h
    split at h
    · split at h
      · cases h
        unfold epochDay
        dsimp only
        rw [daysBeforeMonth_succ, Nat.add_sub_cancel, hn]
        omega
      · cases h
    · cases h
  · intro h
    subst h
    obtain ⟨k, j, hmonth, hday, hj⟩ := d.dayOfYear_spec
    have hlt := sum_take_add_lt hj
    have hn : d.epochDay + epochOffset =
        daysBeforeYear d.year + ((monthLengths d.year).take k).sum + j := by
      unfold epochDay
      rw [hmonth, hday, daysBeforeMonth_succ, Nat.add_sub_cancel]
      omega
    have hyear : yearOfDay (d.epochDay + epochOffset) = d.year := by
      rw [yearOfDay_eq_iff, daysBeforeYear_succ]
      omega
    have hrest : (d.epochDay + epochOffset - daysBeforeYear d.year).toNat =
        ((monthLengths d.year).take k).sum + j := by
      omega
    unfold ofEpochDay?
    dsimp only
    rw [hyear, hrest, monthAndDay_sum_take_add hj, ← hmonth, ← hday]
    unfold ofParts?
    rw [dif_pos d.year_in_range, dif_pos d.day_in_month]

/-- Epoch days are small. -/
theorem epochDay_bounds (d : Date) : -100000000 < d.epochDay ∧ d.epochDay < 100000000 := by
  obtain ⟨k, j, hmonth, hday, hj⟩ := d.dayOfYear_spec
  have hlt := sum_take_add_lt hj
  have hsucc := daysBeforeYear_succ d.year
  have hrange := d.year_in_range
  have hfirst := daysBeforeYear_mono hrange.1
  have hlast := daysBeforeYear_mono (show d.year + 1 ≤ maxYear + 1 by omega)
  have hmin : -100000000 < daysBeforeYear minYear - epochOffset := by decide
  have hmax : daysBeforeYear (maxYear + 1) - epochOffset < 100000000 := by decide
  unfold epochDay
  rw [hmonth, hday, daysBeforeMonth_succ, Nat.add_sub_cancel]
  omega

/-- The epoch day of a date fits into its word. -/
theorem toInt_day64 (d : Date) : d.day64.toInt = d.epochDay := by
  have hbounds := d.epochDay_bounds
  exact Int64.toInt_ofInt_of_le (by omega) (by omega)

/-- A word is read as the date whose epoch day it is. -/
theorem ofDay_eq_ok_iff {day : Int64} {d : Date} : ofDay day = .ok d ↔ day = d.day64 := by
  have hsome : ofDay day = .ok d ↔ ofEpochDay? day.toInt = some d := by
    unfold ofDay
    cases ofEpochDay? day.toInt <;> simp
  rw [hsome, ofEpochDay?_eq_some_iff, ← Int64.toInt_inj, toInt_day64]
  exact eq_comm

end Date

/-- A time of day is found by its parts. -/
theorem TimeOfDay.ofParts?_eq_some_iff {second nano : Nat} {time : TimeOfDay} :
    ofParts? second nano = some time ↔ time.second = second ∧ time.nano = nano := by
  constructor
  · intro h
    unfold ofParts? at h
    split at h
    · split at h
      · split at h
        · cases h
          exact ⟨rfl, rfl⟩
        · cases h
      · cases h
    · cases h
  · intro h
    rcases h with ⟨rfl, rfl⟩
    unfold ofParts?
    rw [dif_pos time.second_lt, dif_pos time.nano_lt, dif_pos time.ends_minute]

namespace DateTime

/-- The seconds of a timestamp fit into their word. -/
theorem toInt_toTimestamp_fst (t : DateTime) :
    t.toTimestamp.1.toInt = t.date.epochDay * secondsPerDay + t.time.second := by
  have hday := t.date.epochDay_bounds
  have hsecond := t.time.second_lt
  unfold secondsPerDay at hsecond
  exact Int64.toInt_ofInt_of_le (by unfold secondsPerDay; omega) (by unfold secondsPerDay; omega)

/-- The nanoseconds of a timestamp fit into their word. -/
theorem toInt_toTimestamp_snd (t : DateTime) : t.toTimestamp.2.toInt = t.time.nano := by
  have hnano := t.time.nano_lt
  unfold nanosPerSecond at hnano
  exact Int32.toInt_ofNat_of_lt (by omega)

/-- What words the timestamp of a date-time is. -/
theorem toTimestamp_eq_iff {t : DateTime} {seconds : Int64} {nanos : Int32} :
    t.toTimestamp = (seconds, nanos) ↔
      seconds.toInt = t.date.epochDay * secondsPerDay + t.time.second ∧
      nanos.toInt = t.time.nano := by
  rw [← toInt_toTimestamp_fst, ← toInt_toTimestamp_snd, Int64.toInt_inj, Int32.toInt_inj,
    Prod.ext_iff]
  exact and_congr eq_comm eq_comm

/-- Two words are read as the date-time whose timestamp they are. -/
theorem ofTimestamp_eq_ok_iff {seconds : Int64} {nanos : Int32} {t : DateTime} :
    ofTimestamp seconds nanos = .ok t ↔ t.toTimestamp = (seconds, nanos) := by
  have hsecond := t.time.second_lt
  unfold secondsPerDay at hsecond
  have hparts : ofTimestamp seconds nanos = .ok t ↔
      Date.ofEpochDay? (seconds.toInt / secondsPerDay) = some t.date ∧
        (if nanos < 0 then none
          else TimeOfDay.ofParts? (seconds.toInt % secondsPerDay).toNat nanos.toInt.toNat) =
            some t.time := by
    unfold ofTimestamp
    dsimp only
    split
    next date time hdate htime => rw [hdate, htime]; cases t; simp
    next hnone =>
      constructor
      · intro h
        cases h
      · intro h
        rcases h with ⟨hdate, htime⟩
        exact (hnone _ _ hdate htime).elim
  rw [toTimestamp_eq_iff, hparts, Date.ofEpochDay?_eq_some_iff]
  unfold secondsPerDay
  by_cases hneg : nanos < 0
  · rw [if_pos hneg]
    rw [Int32.lt_iff_toInt_lt, Int32.toInt_zero] at hneg
    constructor
    · intro h
      rcases h with ⟨_, h⟩
      cases h
    · omega
  · rw [if_neg hneg, TimeOfDay.ofParts?_eq_some_iff]
    rw [Int32.lt_iff_toInt_lt, Int32.toInt_zero] at hneg
    omega

/-- The nanosecond of the day of a date-time fits into its word. -/
theorem toInt_nanoOfDay (time : TimeOfDay) :
    (Int64.ofNat (time.second * nanosPerSecond + time.nano)).toInt =
      time.second * nanosPerSecond + time.nano := by
  have hsecond := time.second_lt
  have hnano := time.nano_lt
  unfold secondsPerDay at hsecond
  unfold nanosPerSecond at hnano ⊢
  rw [Int64.toInt_ofNat_of_lt (by omega)]
  omega

/-- A date-time is the one at this day and nanosecond when it is in no leap second. -/
theorem toDayAndNano_eq_ok_iff {t : DateTime} {day nano : Int64} :
    t.toDayAndNano = .ok (day, nano) ↔
      day.toInt = t.date.epochDay ∧
      nano.toInt = t.time.second * nanosPerSecond + t.time.nano ∧
      t.time.isLeapSecond = false := by
  rw [← t.date.toInt_day64, ← toInt_nanoOfDay, Int64.toInt_inj, Int64.toInt_inj]
  unfold toDayAndNano
  cases t.time.isLeapSecond with
  | true => simp
  | false => simp [eq_comm]

/-- A leap second shows in the nanoseconds. -/
theorem isLeapSecond_eq_false_iff {time : TimeOfDay} :
    time.isLeapSecond = false ↔ time.nano < nanosPerSecond := by
  simp [TimeOfDay.isLeapSecond]

/-- Two words are read as the date-time whose day and nanosecond of the day they are. -/
theorem ofDayAndNano_eq_ok_iff {day nano : Int64} {t : DateTime} :
    ofDayAndNano day nano = .ok t ↔ t.toDayAndNano = .ok (day, nano) := by
  have hsecond := t.time.second_lt
  have hnano := t.time.nano_lt
  unfold secondsPerDay at hsecond
  unfold nanosPerSecond at hnano
  have hparts : ofDayAndNano day nano = .ok t ↔
      Date.ofDay day = .ok t.date ∧
        (if nano < 0 then none
          else TimeOfDay.ofParts? (nano.toInt.toNat / nanosPerSecond)
            (nano.toInt.toNat % nanosPerSecond)) = some t.time := by
    unfold ofDayAndNano
    cases Date.ofDay day with
    | error fault => simp [bind, Except.bind]
    | ok date =>
        simp only [bind, Except.bind, Except.ok.injEq]
        split
        next time htime => rw [htime]; cases t; simp
        next hnone => rw [hnone]; simp
  rw [toDayAndNano_eq_ok_iff, isLeapSecond_eq_false_iff, hparts, Date.ofDay_eq_ok_iff,
    ← Int64.toInt_inj, Date.toInt_day64]
  unfold nanosPerSecond
  by_cases hneg : nano < 0
  · rw [if_pos hneg]
    rw [Int64.lt_iff_toInt_lt, Int64.toInt_zero] at hneg
    constructor
    · intro h
      rcases h with ⟨_, h⟩
      cases h
    · omega
  · rw [if_neg hneg, TimeOfDay.ofParts?_eq_some_iff]
    rw [Int64.lt_iff_toInt_lt, Int64.toInt_zero] at hneg
    omega

end DateTime

end TagWire
