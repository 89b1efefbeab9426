import TagWire.Proofs.EpochDays

/-!
# Times and their parts

A time travels in two numbers.  Each way of splitting it is undone by the way back, and the way
back accepts just the numbers that some time is split into:

* `DateTime.exists_ofTimestamp_iff` — what two words are a timestamp;
* `DateTime.exists_ofDayAndNano_iff` — what two words are a day and a nanosecond of it;
* `DateTime.parts_determine_times` — both ways of splitting, each with its way back, in words.

A leap second is a timestamp, with more nanoseconds than a second has.  The nanoseconds of a day
have no room for it, so it is not split into a day and a nanosecond of it.
-/

namespace TagWire

open Calendar

namespace TimeOfDay

/-- The parts that times of day have. -/
theorem exists_parts_iff {second nano : Nat} :
    (∃ time : TimeOfDay, time.second = second ∧ time.nano = nano) ↔
      second < secondsPerDay ∧ nano < 2 * nanosPerSecond ∧
        (nano < nanosPerSecond ∨ second % 60 = 59) := by
  refine ⟨fun h => ?_, fun h => ?_⟩
  · rcases h with ⟨time, rfl, rfl⟩
    have hends := time.ends_minute
    refine ⟨time.second_lt, time.nano_lt, ?_⟩
    by_cases hleap : nanosPerSecond ≤ time.nano
    · exact .inr (hends hleap)
    · exact .inl (Nat.lt_of_not_le hleap)
  · rcases h with ⟨hsecond, hnano, hends⟩
    exact ⟨⟨second, nano, hsecond, hnano, fun hleap =>
      hends.resolve_left (Nat.not_lt.mpr hleap)⟩, rfl, rfl⟩

end TimeOfDay

namespace DateTime

variable {t : DateTime} {seconds day nano : Int64} {nanos : Int32}

/-- Two words are read as a timestamp exactly when the seconds fall on a day of a date, and the
nanoseconds on a second, or on two if the second ends a minute. -/
theorem exists_ofTimestamp_iff :
    (∃ t, ofTimestamp seconds nanos = .ok t) ↔
      (Date.first.epochDay ≤ seconds.toInt / 86400 ∧
        seconds.toInt / 86400 ≤ Date.last.epochDay) ∧
      0 ≤ nanos.toInt ∧ nanos.toInt < 2 * 10 ^ 9 ∧
      (nanos.toInt < 10 ^ 9 ∨ seconds.toInt % 60 = 59) := by
  simp only [ofTimestamp_eq_ok_iff, toTimestamp_eq_iff]
  rw [← Date.exists_epochDay_iff]
  refine ⟨fun h => ?_, fun h => ?_⟩
  · obtain ⟨t, hseconds, hnanos⟩ := h
    obtain ⟨hsecond, hnano, hends⟩ :=
      TimeOfDay.exists_parts_iff.mp ⟨t.time, rfl, rfl⟩
    unfold secondsPerDay at hsecond hseconds
    unfold nanosPerSecond at hnano hends
    exact ⟨⟨t.date, by omega⟩, by omega, by omega, by omega⟩
  · obtain ⟨⟨date, hday⟩, hpos, hnano, hends⟩ := h
    obtain ⟨time, hsecond, htime⟩ := TimeOfDay.exists_parts_iff.mpr
      (show (seconds.toInt % 86400).toNat < secondsPerDay ∧
          nanos.toInt.toNat < 2 * nanosPerSecond ∧
          (nanos.toInt.toNat < nanosPerSecond ∨ (seconds.toInt % 86400).toNat % 60 = 59) by
        unfold secondsPerDay nanosPerSecond
        omega)
    refine ⟨⟨date, time⟩, ?_, ?_⟩
    · unfold secondsPerDay
      dsimp only
      omega
    · dsimp only
      omega

/-- Two words are read as a day and a nanosecond of it exactly when the first is the epoch day of a
date and the second a nanosecond that days have. -/
theorem exists_ofDayAndNano_iff :
    (∃ t, ofDayAndNano day nano = .ok t) ↔
      (Date.first.epochDay ≤ day.toInt ∧ day.toInt ≤ Date.last.epochDay) ∧
      0 ≤ nano.toInt ∧ nano.toInt < 86400 * 10 ^ 9 := by
  simp only [ofDayAndNano_eq_ok_iff, toDayAndNano_eq_ok_iff, isLeapSecond_eq_false_iff]
  rw [← Date.exists_epochDay_iff]
  refine ⟨fun h => ?_, fun h => ?_⟩
  · obtain ⟨t, hday, hnano, hregular⟩ := h
    have hsecond := t.time.second_lt
    unfold secondsPerDay at hsecond
    unfold nanosPerSecond at hnano hregular
    exact ⟨⟨t.date, hday.symm⟩, by omega, by omega⟩
  · obtain ⟨⟨date, hday⟩, hpos, hnano⟩ := h
    obtain ⟨time, hsecond, htime⟩ := TimeOfDay.exists_parts_iff.mpr
      (show nano.toInt.toNat / 10 ^ 9 < secondsPerDay ∧
          nano.toInt.toNat % 10 ^ 9 < 2 * nanosPerSecond ∧
          (nano.toInt.toNat % 10 ^ 9 < nanosPerSecond ∨ nano.toInt.toNat / 10 ^ 9 % 60 = 59) by
        unfold secondsPerDay nanosPerSecond
        omega)
    refine ⟨⟨date, time⟩, hday.symm, ?_, ?_⟩
    · unfold nanosPerSecond
      dsimp only
      omega
    · unfold nanosPerSecond
      dsimp only
      omega

/-- A date-time has no nanosecond of the day exactly when it lies in a leap second. -/
theorem toDayAndNano_eq_error_iff {fault : Fault} :
    t.toDayAndNano = .error fault ↔
      nanosPerSecond ≤ t.time.nano ∧ fault = .timestampOutOfRange (.leapSecond t) := by
  unfold toDayAndNano TimeOfDay.isLeapSecond
  by_cases hleap : nanosPerSecond ≤ t.time.nano
  · simp [hleap, eq_comm]
  · simp [hleap]

/-- **Times are determined by their parts.**  Two words are a timestamp exactly when their seconds
fall on a day of a date and their nanoseconds on one second, or on two at the end of a minute; then
they are the parts of the timestamp, and every date-time is found by its own.  A date-time has an
epoch day and a nanosecond of the day unless it lies in a leap second.  Two words are these parts
exactly when the first is the epoch day of a date and the second one of the nanoseconds of a day.
No number on the way leaves its word, whatever the words are. -/
theorem parts_determine_times :
    (∀ (seconds : Int64) (nanos : Int32),
      ((∃ t, ofTimestamp seconds nanos = .ok t) ↔
        (Date.first.epochDay ≤ seconds.toInt / 86400 ∧
          seconds.toInt / 86400 ≤ Date.last.epochDay) ∧
        0 ≤ nanos.toInt ∧ nanos.toInt < 2 * 10 ^ 9 ∧
        (nanos.toInt < 10 ^ 9 ∨ seconds.toInt % 60 = 59)) ∧
      (∀ t, ofTimestamp seconds nanos = .ok t → t.toTimestamp = (seconds, nanos)) ∧
      ofTimestampInWords? seconds nanos = some (ofTimestamp seconds nanos)) ∧
    (∀ t : DateTime,
      ofTimestamp t.toTimestamp.1 t.toTimestamp.2 = .ok t ∧
      t.timestampInWords? = some t.toTimestamp) ∧
    (∀ t : DateTime,
      (∀ fault, t.toDayAndNano = .error fault ↔
        10 ^ 9 ≤ t.time.nano ∧ fault = .timestampOutOfRange (.leapSecond t)) ∧
      (∀ day nano, t.toDayAndNano = .ok (day, nano) → ofDayAndNano day nano = .ok t) ∧
      t.dayAndNanoInWords? = some t.toDayAndNano) ∧
    ∀ day nano : Int64,
      ((∃ t, ofDayAndNano day nano = .ok t) ↔
        (Date.first.epochDay ≤ day.toInt ∧ day.toInt ≤ Date.last.epochDay) ∧
        0 ≤ nano.toInt ∧ nano.toInt < 86400 * 10 ^ 9) ∧
      (∀ t, ofDayAndNano day nano = .ok t → t.toDayAndNano = .ok (day, nano)) ∧
      ofDayAndNanoInWords? day nano = some (ofDayAndNano day nano) := by
  refine ⟨fun seconds nanos => ?_, fun t => ?_, fun t => ?_, fun day nano => ?_⟩
  · exact ⟨exists_ofTimestamp_iff, fun t => ofTimestamp_eq_ok_iff.mp,
      ofTimestampInWords?_eq seconds nanos⟩
  · exact ⟨ofTimestamp_eq_ok_iff.mpr rfl, t.timestampInWords?_eq⟩
  · exact ⟨fun fault => toDayAndNano_eq_error_iff,
      fun day nano => ofDayAndNano_eq_ok_iff.mpr, t.dayAndNanoInWords?_eq⟩
  · exact ⟨exists_ofDayAndNano_iff, fun t => ofDayAndNano_eq_ok_iff.mp,
      ofDayAndNanoInWords?_eq day nano⟩

/-- The leap second before 2017 is a timestamp, but no nanosecond of its day.  Half a microsecond
past the last whole second before 1970 is both. -/
theorem leapSecond_parts_determine_times :
    let leap : DateTime := ⟨⟨2016, 12, 31, by decide, by decide⟩,
      ⟨86399, 1000000000, by decide, by decide, by decide⟩⟩
    let before : DateTime := ⟨⟨1969, 12, 31, by decide, by decide⟩,
      ⟨86399, 500, by decide, by decide, by decide⟩⟩
    ofTimestamp 1483228799 1000000000 = .ok leap ∧
    leap.toTimestamp = (1483228799, 1000000000) ∧
    leap.toDayAndNano = .error (.timestampOutOfRange (.leapSecond leap)) ∧
    ofTimestamp (-1) 500 = .ok before ∧ before.toTimestamp = (-1, 500) ∧
    ofDayAndNano (-1) 86399000000500 = .ok before ∧
    before.toDayAndNano = .ok (-1, 86399000000500) := by
  intro leap before
  obtain ⟨htimestamps, -, hsplit, htimes⟩ := parts_determine_times
  have hleap : ofTimestamp 1483228799 1000000000 = .ok leap := by decide
  have hbefore : ofTimestamp (-1) 500 = .ok before := by decide
  have hday : ofDayAndNano (-1) 86399000000500 = .ok before := by decide
  exact ⟨hleap, (htimestamps 1483228799 1000000000).2.1 leap hleap,
    ((hsplit leap).1 _).mpr ⟨by decide, rfl⟩, hbefore,
    (htimestamps (-1) 500).2.1 before hbefore, hday,
    (htimes (-1) 86399000000500).2.1 before hday⟩

end DateTime

end TagWire
