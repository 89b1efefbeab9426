import Mathlib.Data.List.GetD
import Mathlib.Tactic.IntervalCases
import TagWire.Proofs.CalendarWords

/-!
# Dates on one line

The dates of the calendar, taken one after the other, are the epoch days between two ends:

* `a < b` for dates — by year, then by month, then by day;
* `Date.next?` — the date after a date, found by the lengths of months and years;
* `Date.epochDay_lt_iff` — later dates have larger epoch days;
* `Date.next?_eq_some_iff`, `Date.next?_eq_none_iff` — the next date has the next epoch day, and
  only the last date has none;
* `Date.exists_epochDay_iff` — every epoch day from that of the first date to that of the last is
  the epoch day of a date;
* `Date.epochDay_counts_dates` — all of it, with the conversions in words.
-/

namespace TagWire

namespace Calendar

/-- The days before a month are fewer than those before a later one, by the days of that month or
more. -/
theorem sum_take_add_lt_sum_take {lengths : List Nat} {k k' j : Nat} (h : j < lengths.getD k 0)
    (hk : k < k') : (lengths.take k).sum + j < (lengths.take k').sum := by
  have htake : (lengths.take k').take k = lengths.take k := by
    rw [List.take_take, Nat.min_eq_left (Nat.le_of_lt hk)]
  have hget : j < (lengths.take k').getD k 0 := by
    rwa [List.getD_eq_getElem?_getD, List.getElem?_take_of_lt hk, ← List.getD_eq_getElem?_getD]
  have hlt := sum_take_add_lt hget
  rwa [htake] at hlt

/-- A month ends where the next one begins. -/
theorem sum_take_succ (lengths : List Nat) (k : Nat) :
    (lengths.take (k + 1)).sum = (lengths.take k).sum + lengths.getD k 0 := by
  induction lengths generalizing k with
  | nil => simp
  | cons length later ih =>
      cases k with
      | zero => simp
      | succ k =>
          have hlater := ih k
          rw [List.take_succ_cons, List.take_succ_cons, List.sum_cons, List.sum_cons, hlater,
            List.getD_cons_succ]
          omega

/-- The year has twelve months. -/
theorem getD_monthLengths_pos_iff (year : Int) (k : Nat) :
    0 < (monthLengths year).getD k 0 ↔ k < 12 := by
  refine ⟨fun h => ?_, fun h => ?_⟩
  · by_contra hk
    have hnone : (monthLengths year).getD k 0 = 0 := List.getD_eq_default _ _ (not_lt.mp hk)
    omega
  · unfold monthLengths
    cases isLeap year <;> interval_cases k <;> decide

end Calendar

open Calendar

namespace Date

/-- Dates follow one another by year, then by month, then by day. -/
instance : LT Date where
  lt a b := a.year < b.year ∨ a.year = b.year ∧
    (a.month < b.month ∨ a.month = b.month ∧ a.day < b.day)

/-- The first date. -/
def first : Date where
  year := minYear
  month := 1
  day := 1
  year_in_range := by decide
  day_in_month := by decide

/-- The last date. -/
def last : Date where
  year := maxYear
  month := 12
  day := 31
  year_in_range := by decide
  day_in_month := by decide

/-- The date that epoch days count from. -/
def epoch : Date where
  year := 1970
  month := 1
  day := 1
  year_in_range := by decide
  day_in_month := by decide

/-- The date after a date: the next day of the month, or else the first of the next month, or else
the first of the next year. -/
def next? (d : Date) : Option Date :=
  (ofParts? d.year d.month (d.day + 1)).or
    ((ofParts? d.year (d.month + 1) 1).or (ofParts? (d.year + 1) 1 1))

/-! ## The order of dates -/

theorem lt_iff {a b : Date} :
    a < b ↔ a.year < b.year ∨ a.year = b.year ∧
      (a.month < b.month ∨ a.month = b.month ∧ a.day < b.day) := Iff.rfl

/-- Dates of the same year, month and day are the same. -/
theorem eq_of_parts {a b : Date} (hyear : a.year = b.year) (hmonth : a.month = b.month)
    (hday : a.day = b.day) : a = b := by
  cases a
  cases b
  dsimp only at hyear hmonth hday
  subst hyear hmonth hday
  rfl

/-- Of two dates one is earlier, unless they are the same. -/
theorem lt_trichotomy (a b : Date) : a < b ∨ a = b ∨ b < a := by
  by_cases heq : a = b
  · exact .inr (.inl heq)
  · have hparts : ¬ (a.year = b.year ∧ a.month = b.month ∧ a.day = b.day) :=
      fun h => heq (eq_of_parts h.1 h.2.1 h.2.2)
    rw [lt_iff, lt_iff]
    omega

/-- No date is earlier than the first one. -/
theorem not_lt_first (d : Date) : ¬ d < first := by
  have hyear := d.year_in_range.1
  have hday := d.day_in_month.1
  obtain ⟨k, j, hmonth, -, -⟩ := d.dayOfYear_spec
  rw [lt_iff]
  unfold first
  dsimp only
  omega

/-- No date is later than the last one. -/
theorem not_last_lt (d : Date) : ¬ last < d := by
  have hyear := d.year_in_range.2
  obtain ⟨k, j, hmonth, hday, hj⟩ := d.dayOfYear_spec
  have hk : k < 12 := (getD_monthLengths_pos_iff d.year k).mp (by omega)
  have hdecember : (monthLengths d.year).getD 11 0 = 31 := rfl
  rw [lt_iff]
  unfold last
  dsimp only
  intro h
  rcases h with hlater | ⟨-, hlater | ⟨htwelve, hlater⟩⟩
  · omega
  · omega
  · obtain rfl : k = 11 := by omega
    omega

/-- A date is the day `j` of the month `k`, both counted from zero. -/
theorem epochDay_eq {d : Date} {k j : Nat} (hmonth : d.month = k + 1) (hday : d.day = j + 1) :
    d.epochDay = daysBeforeYear d.year + ((monthLengths d.year).take k).sum + j - epochOffset := by
  unfold epochDay
  rw [hmonth, hday, daysBeforeMonth_succ, Nat.add_sub_cancel]
  omega

/-- The days of the months of a year are days of the year, and of no later one. -/
theorem epochDay_lt_of_year_lt {a b : Date} (h : a.year < b.year) : a.epochDay < b.epochDay := by
  obtain ⟨k, j, hmonth, hday, hj⟩ := a.dayOfYear_spec
  obtain ⟨k', j', hmonth', hday', -⟩ := b.dayOfYear_spec
  have hyear := daysBeforeYear_mono (show a.year + 1 ≤ b.year by omega)
  have hlt := sum_take_add_lt hj
  rw [daysBeforeYear_succ] at hyear
  rw [epochDay_eq hmonth hday, epochDay_eq hmonth' hday']
  omega

/-- Later dates have larger epoch days. -/
theorem epochDay_lt_of_lt {a b : Date} (h : a < b) : a.epochDay < b.epochDay := by
  rcases lt_iff.mp h with hyear | ⟨hyear, hwithin⟩
  · exact epochDay_lt_of_year_lt hyear
  · obtain ⟨k, j, hmonth, hday, hj⟩ := a.dayOfYear_spec
    obtain ⟨k', j', hmonth', hday', -⟩ := b.dayOfYear_spec
    rw [epochDay_eq hmonth hday, epochDay_eq hmonth' hday', ← hyear]
    rcases hwithin with hearlier | ⟨hsame, hbefore⟩
    · have hlt := sum_take_add_lt_sum_take hj (show k < k' by omega)
      omega
    · obtain rfl : k = k' := by omega
      omega

/-- The epoch day says which of two dates is earlier. -/
theorem epochDay_lt_iff {a b : Date} : a < b ↔ a.epochDay < b.epochDay := by
  refine ⟨epochDay_lt_of_lt, fun h => ?_⟩
  rcases lt_trichotomy a b with hlt | rfl | hgt
  · exact hlt
  · omega
  · have hgreater := epochDay_lt_of_lt hgt
    omega

/-- Dates of one epoch day are the same. -/
theorem epochDay_injective {a b : Date} (h : a.epochDay = b.epochDay) : a = b := by
  rcases lt_trichotomy a b with hlt | rfl | hgt
  · have hless := epochDay_lt_of_lt hlt
    omega
  · rfl
  · have hgreater := epochDay_lt_of_lt hgt
    omega

/-! ## The next date -/

/-- A date is made of its parts. -/
theorem ofParts?_eq_some_iff {year : Int} {month day : Nat} {d : Date} :
    ofParts? year month day = some d ↔ d.year = year ∧ d.month = month ∧ d.day = day := by
  refine ⟨fun h => ?_, fun h => ?_⟩
  · unfold ofParts? at h
    split at h
    · split at h
      · cases h
        exact ⟨rfl, rfl, rfl⟩
      · cases h
    · cases h
  · rcases h with ⟨rfl, rfl, rfl⟩
    unfold ofParts?
    rw [dif_pos d.year_in_range, dif_pos d.day_in_month]

/-- No date is made of parts out of range. -/
theorem ofParts?_eq_none_iff {year : Int} {month day : Nat} :
    ofParts? year month day = none ↔
      ¬ ((minYear ≤ year ∧ year ≤ maxYear) ∧ 1 ≤ day ∧ day ≤ daysInMonth year month) := by
  unfold ofParts?
  split
  next hyear =>
    split
    next hday => simp [hyear, hday]
    next hday => simp [hday]
  next hyear => simp [hyear]

/-- The length of a month, counted from zero. -/
theorem daysInMonth_succ (year : Int) (k : Nat) :
    daysInMonth year (k + 1) = (monthLengths year).getD k 0 := by
  rw [daysInMonth, if_neg (Nat.succ_ne_zero k), Nat.add_sub_cancel]

/-- What a date is like that is not followed by a day of its month: it is the last one. -/
theorem ends_month {d : Date} {k j : Nat} (hmonth : d.month = k + 1) (hday : d.day = j + 1)
    (hj : j < (monthLengths d.year).getD k 0) (h : ofParts? d.year d.month (d.day + 1) = none) :
    (monthLengths d.year).getD k 0 = j + 1 := by
  have hyear := d.year_in_range
  rw [ofParts?_eq_none_iff, hmonth, hday, daysInMonth_succ] at h
  omega

/-- A month that is not followed by a month of its year is the twelfth. -/
theorem ends_year {d : Date} {k j : Nat} (hmonth : d.month = k + 1)
    (hj : j < (monthLengths d.year).getD k 0) (h : ofParts? d.year (d.month + 1) 1 = none) :
    k = 11 := by
  have hyear := d.year_in_range
  have hk : k < 12 := (getD_monthLengths_pos_iff d.year k).mp (by omega)
  rw [ofParts?_eq_none_iff, hmonth, daysInMonth_succ] at h
  have hnext : ¬ k + 1 < 12 := by
    intro hlt
    have hpos := (getD_monthLengths_pos_iff d.year (k + 1)).mpr hlt
    omega
  omega

/-- The next date has the next epoch day. -/
theorem epochDay_of_next? {d e : Date} (h : d.next? = some e) :
    e.epochDay = d.epochDay + 1 := by
  obtain ⟨k, j, hmonth, hday, hj⟩ := d.dayOfYear_spec
  unfold next? at h
  rw [Option.or_eq_some_iff, Option.or_eq_some_iff] at h
  rw [epochDay_eq hmonth hday]
  -- a day of the same month, the first of a month of the same year, or the first of a year
  rcases h with hnext | ⟨hnoday, hnext | ⟨hnomonth, hnext⟩⟩
  · obtain ⟨hyear', hmonth', hday'⟩ := ofParts?_eq_some_iff.mp hnext
    rw [epochDay_eq (hmonth'.trans hmonth) (hday'.trans (congrArg (· + 1) hday)), hyear']
    omega
  · obtain ⟨hyear', hmonth', hday'⟩ := ofParts?_eq_some_iff.mp hnext
    have hlast := ends_month hmonth hday hj hnoday
    rw [epochDay_eq (hmonth'.trans (congrArg (· + 1) hmonth)) hday', hyear', sum_take_succ]
    omega
  · obtain ⟨hyear', hmonth', hday'⟩ := ofParts?_eq_some_iff.mp hnext
    have hlast := ends_month hmonth hday hj hnoday
    have hend := ends_year hmonth hj hnomonth
    have hsum := sum_take_succ (monthLengths d.year) k
    have hall : ((monthLengths d.year).take (k + 1)).sum = (monthLengths d.year).sum := by
      rw [List.take_of_length_le]
      rw [hend]
      exact Nat.le_refl 12
    rw [epochDay_eq hmonth' hday', hyear', daysBeforeYear_succ, List.take_zero]
    simp only [List.sum_nil]
    omega

/-- Only the last date has no next one. -/
theorem next?_eq_none_iff {d : Date} : d.next? = none ↔ d = last := by
  refine ⟨fun h => ?_, fun h => ?_⟩
  · obtain ⟨k, j, hmonth, hday, hj⟩ := d.dayOfYear_spec
    unfold next? at h
    rw [Option.or_eq_none_iff, Option.or_eq_none_iff] at h
    obtain ⟨hnoday, hnomonth, hnoyear⟩ := h
    have hlast := ends_month hmonth hday hj hnoday
    have hend := ends_year hmonth hj hnomonth
    have hyear := d.year_in_range
    have hjanuary := (getD_monthLengths_pos_iff (d.year + 1) 0).mpr (by decide)
    have hdecember : (monthLengths d.year).getD 11 0 = 31 := rfl
    rw [ofParts?_eq_none_iff, daysInMonth_succ] at hnoyear
    rw [hend, hdecember] at hlast
    have hmax : d.year = maxYear := by
      unfold minYear maxYear at *
      omega
    exact eq_of_parts hmax (hmonth.trans (congrArg (· + 1) hend)) (hday.trans hlast.symm)
  · subst h
    decide

/-- The next date is the one of the next epoch day. -/
theorem next?_eq_some_iff {d e : Date} : d.next? = some e ↔ e.epochDay = d.epochDay + 1 := by
  refine ⟨epochDay_of_next?, fun h => ?_⟩
  cases hnext : d.next? with
  | none =>
      have hlast := next?_eq_none_iff.mp hnext
      have hlater : d < e := epochDay_lt_iff.mpr (by omega)
      rw [hlast] at hlater
      exact absurd hlater e.not_last_lt
  | some next =>
      have hday := epochDay_of_next? hnext
      rw [epochDay_injective (hday.trans h.symm)]

/-! ## The days that are epoch days -/

/-- The epoch days of all dates lie between those of the first and of the last one. -/
theorem epochDay_mem (d : Date) : first.epochDay ≤ d.epochDay ∧ d.epochDay ≤ last.epochDay := by
  have hfirst := d.not_lt_first
  have hlast := d.not_last_lt
  rw [epochDay_lt_iff] at hfirst hlast
  omega

/-- From the first date the next one leads to each later day, up to that of the last date. -/
theorem exists_epochDay {n : Int} (hlow : first.epochDay ≤ n) :
    n ≤ last.epochDay → ∃ d : Date, d.epochDay = n := by
  induction n, hlow using Int.leInduction with
  | base => exact fun _ => ⟨first, rfl⟩
  | succ n hlow ih =>
      intro hhigh
      obtain ⟨d, hd⟩ := ih (by omega)
      cases hnext : d.next? with
      | none =>
          have hlast := next?_eq_none_iff.mp hnext
          rw [hlast] at hd
          omega
      | some e => exact ⟨e, by rw [epochDay_of_next? hnext, hd]⟩

/-- A number is the epoch day of a date exactly when it lies between those of the first and of the
last one. -/
theorem exists_epochDay_iff {n : Int} :
    (∃ d : Date, d.epochDay = n) ↔ first.epochDay ≤ n ∧ n ≤ last.epochDay := by
  refine ⟨fun h => ?_, fun h => exists_epochDay h.1 h.2⟩
  obtain ⟨d, rfl⟩ := h
  exact d.epochDay_mem

/-- A word is read as a date exactly when it lies between the epoch days of the first and of the
last one. -/
theorem exists_ofDay_iff {day : Int64} :
    (∃ d, ofDay day = .ok d) ↔ first.epochDay ≤ day.toInt ∧ day.toInt ≤ last.epochDay := by
  rw [← exists_epochDay_iff]
  refine exists_congr fun d => ?_
  rw [ofDay_eq_ok_iff, ← Int64.toInt_inj, toInt_day64]
  exact eq_comm

/-- A word that is not read as a date is refused with itself. -/
theorem ofDay_of_not_ok {day : Int64} (h : ¬ ∃ d, ofDay day = .ok d) :
    ofDay day = .error (.dateOutOfRange day) := by
  unfold ofDay at h ⊢
  split
  next date hdate => exact absurd ⟨date, by rw [hdate]⟩ h
  next hnone => rfl

/-- **Epoch days count the dates.**  Later dates have larger epoch days, the epoch has day zero, and
from each date but the last the next one is a day further.  A word is read as a date exactly when it
lies between the epoch days of the first and of the last date, and then as the one whose epoch day
it is; other words are refused.  Neither direction leaves its words, whatever the day. -/
theorem epochDay_counts_dates :
    (∀ a b : Date, a < b ↔ a.epochDay < b.epochDay) ∧
    epoch.epochDay = 0 ∧
    (∀ a b : Date, a.next? = some b ↔ b.epochDay = a.epochDay + 1) ∧
    (∀ d : Date, d.next? = none ↔ d = last) ∧
    (∀ d : Date, d.dayInWords? = some d.day64 ∧ d.day64.toInt = d.epochDay ∧
      ofDay d.day64 = .ok d) ∧
    ∀ day : Int64,
      ofDay day = ofDayInWords day ∧
      ((∃ d, ofDay day = .ok d) ↔
        first.epochDay ≤ day.toInt ∧ day.toInt ≤ last.epochDay) ∧
      (∀ d, ofDay day = .ok d → d.day64 = day) ∧
      (¬ (first.epochDay ≤ day.toInt ∧ day.toInt ≤ last.epochDay) →
        ofDay day = .error (.dateOutOfRange day)) := by
  refine ⟨fun _ _ => epochDay_lt_iff, by decide, fun _ _ => next?_eq_some_iff,
    fun _ => next?_eq_none_iff, fun d => ?_, fun day => ?_⟩
  · exact ⟨d.dayInWords?_eq, d.toInt_day64, ofDay_eq_ok_iff.mpr rfl⟩
  · refine ⟨(ofDayInWords_eq day).symm, exists_ofDay_iff, fun d h => ?_, fun h => ?_⟩
    · exact (ofDay_eq_ok_iff.mp h).symm
    · rw [← exists_ofDay_iff] at h
      exact ofDay_of_not_ok h

/-- The leap day of 2000 is day 11016.  The day behind that of the last date and the largest word
are refused. -/
theorem leapDay_counts_dates :
    let leapDay : Date := ⟨2000, 2, 29, by decide, by decide⟩
    ofDay 11016 = .ok leapDay ∧ leapDay.day64 = 11016 ∧
    ¬ (first.epochDay ≤ (95026237 : Int64).toInt ∧ (95026237 : Int64).toInt ≤ last.epochDay) ∧
    ofDay 95026237 = .error (.dateOutOfRange 95026237) ∧
    ¬ (first.epochDay ≤ Int64.maxValue.toInt ∧ Int64.maxValue.toInt ≤ last.epochDay) ∧
    ofDay Int64.maxValue = .error (.dateOutOfRange Int64.maxValue) := by
  intro leapDay
  obtain ⟨-, -, -, -, -, hwords⟩ := epochDay_counts_dates
  have hread : ofDay 11016 = .ok leapDay := by decide
  have hbehind : ¬ (first.epochDay ≤ (95026237 : Int64).toInt ∧
      (95026237 : Int64).toInt ≤ last.epochDay) := by decide
  have hlargest : ¬ (first.epochDay ≤ Int64.maxValue.toInt ∧
      Int64.maxValue.toInt ≤ last.epochDay) := by decide
  exact ⟨hread, (hwords 11016).2.2.1 leapDay hread, hbehind, (hwords 95026237).2.2.2 hbehind,
    hlargest, (hwords Int64.maxValue).2.2.2 hlargest⟩

end Date

end TagWire
