import Mathlib.Algebra.Order.Field.Rat
import Mathlib.Tactic.FieldSimp
import Mathlib.Tactic.NormNum
import Mathlib.Tactic.Ring
import TagWire.Proofs.Decimal

/-!
# Narrowing a decimal

A decimal is narrowed by two loops.  Each round moves the scale by one towards those of
fixed decimals and changes the mantissa by a factor of ten, so the number stays the same.

* `Decimal.value`, `FixedDecimal.value` — the number that a mantissa and a scale stand for;
* `Loop` — what a loop comes to, round by round, with a bound on every state it passes through;
* `raise_spec`, `reduce_spec` — what the two loops leave as it was, and where they stop;
* `Decimal.narrows_toFixed` — narrowing takes a few rounds, in machine words, whatever the scale;
* `Decimal.toFixed_eq_ok_iff` — what narrowing yields, and when;
* `Decimal.toFixed_keeps_value`, `Decimal.toFixed_succeeds_iff` — a fixed decimal is the same
  number at the nearest scale, and a number is refused if there is none, but not only then.

The mantissa has to fit where it stands: before the loops in 128 bits, behind them in 96.  Zeros
at its end are no reason to try a smaller scale, so `10 ^ 40` at scale 40 is refused although it
is one.
-/

namespace TagWire

/-! ## Numbers -/

/-- The number of a mantissa at a scale. -/
def scaled (mantissa scale : ℤ) : ℚ := mantissa * 10 ^ (-scale)

/-- The number that a decimal stands for. -/
def Decimal.value (d : Decimal) : ℚ := scaled d.unscaled d.scale.toInt

/-- The number that a fixed decimal stands for. -/
def FixedDecimal.value (v : FixedDecimal) : ℚ := scaled v.mantissa v.scale

/-- At one scale, different mantissas are different numbers. -/
theorem scaled_inj {m m' s : ℤ} : scaled m s = scaled m' s ↔ m = m' := by
  have hpower : (10 : ℚ) ^ (-s) ≠ 0 := zpow_ne_zero _ (by norm_num)
  unfold scaled
  rw [mul_left_inj' hpower, Int.cast_inj]

/-- Only the mantissa zero is zero. -/
theorem scaled_eq_zero_iff {m s : ℤ} : scaled m s = 0 ↔ m = 0 := by
  have hzero : scaled 0 s = 0 := by simp [scaled]
  rw [← hzero, scaled_inj]

/-- A factor of ten is worth one step of the scale. -/
theorem scaled_mul_ten (m s : ℤ) : scaled (m * 10) (s + 1) = scaled m s := by
  unfold scaled
  rw [neg_add, zpow_add₀ (by norm_num)]
  push_cast
  field_simp

/-- A zero at the end is worth one step of the scale. -/
theorem scaled_div_ten {m : ℤ} (hm : m % 10 = 0) (s : ℤ) :
    scaled (m / 10) (s - 1) = scaled m s := by
  have hstep := scaled_mul_ten (m / 10) (s - 1)
  rw [Int.ediv_mul_cancel (Int.dvd_of_emod_eq_zero hm), sub_add_cancel] at hstep
  exact hstep.symm

/-- Factors of ten are worth as many steps of the scale. -/
theorem scaled_mul_pow (m s : ℤ) (k : ℕ) : scaled (m * 10 ^ k) (s + k) = scaled m s := by
  induction k with
  | zero => simp
  | succ k ih =>
      rw [pow_succ, ← mul_assoc, Nat.cast_succ, ← add_assoc, scaled_mul_ten, ih]

/-- At a larger scale, the mantissa of the same number has more zeros at its end. -/
theorem exists_mul_pow_of_scaled_eq {m m' s s' : ℤ} (h : scaled m s = scaled m' s')
    (hle : s ≤ s') : ∃ k : ℕ, s + k = s' ∧ m' = m * 10 ^ k := by
  obtain ⟨k, rfl⟩ := Int.le.dest hle
  exact ⟨k, rfl, scaled_inj.mp (h.symm.trans (scaled_mul_pow m s k).symm)⟩

/-- At a larger scale, the mantissa of the same number is no smaller. -/
theorem natAbs_le_of_scaled_eq {m m' s s' : ℤ} (h : scaled m s = scaled m' s') (hle : s ≤ s') :
    m.natAbs ≤ m'.natAbs := by
  obtain ⟨k, -, rfl⟩ := exists_mul_pow_of_scaled_eq h hle
  rw [Int.natAbs_mul, Int.natAbs_pow]
  exact Nat.le_mul_of_pos_right _ (Nat.pow_pos (by norm_num))

/-! ## Loops -/

/-- What a loop comes to in `n` rounds, while `P` holds of every state in which it asks whether to
go on.  `round` is what one round does, if there is one. -/
inductive Loop {σ ε : Type} (round : σ → Option (Except ε σ)) (P : σ → Prop) :
    (n : ℕ) → σ → Except ε σ → Prop
  | finished {s} : P s → round s = none → Loop round P 0 s (.ok s)
  | broken {s e} : P s → round s = some (.error e) → Loop round P 1 s (.error e)
  | again {n s s' outcome} : P s → round s = some (.ok s') → Loop round P n s' outcome →
      Loop round P (n + 1) s outcome

namespace Decimal

/-- A mantissa in 128 bits and a scale in 64. -/
def InWords (state : ℤ × ℤ) : Prop :=
  fits128 state.1 = true ∧ -2 ^ 63 ≤ state.2 ∧ state.2 < 2 ^ 63

/-- One more factor of ten in the mantissa, while the scale is negative. -/
def raiseRound (state : ℤ × ℤ) : Option (Except RangeFault (ℤ × ℤ)) :=
  if state.2 < 0 then
    some (if fits128 (state.1 * 10) then .ok (state.1 * 10, state.2 + 1)
      else .error (.overflow state.2))
  else none

/-- One zero less at the end of the mantissa, while the scale is too large. -/
def reduceRound (state : ℤ × ℤ) : Option (Except RangeFault (ℤ × ℤ)) :=
  if maxFixedScale < state.2 ∧ state.1 % 10 = 0 then some (.ok (state.1 / 10, state.2 - 1))
  else none

theorem fits128_iff {m : ℤ} : fits128 m = true ↔ -2 ^ 127 ≤ m ∧ m < 2 ^ 127 := by
  simp [fits128]

/-- Mantissas of fixed decimals fit with room to spare. -/
theorem fits128_of_natAbs_lt {m : ℤ} (h : m.natAbs < mantissaBound) : fits128 m = true := by
  unfold mantissaBound at h
  rw [fits128_iff]
  omega

/-- No power of ten in 128 bits has more than 38 zeros. -/
theorem le_of_ten_pow_le {k : ℕ} (h : 10 ^ k ≤ 2 ^ 127) : k ≤ 38 := by
  by_contra hk
  have hlarge : 10 ^ 39 ≤ 10 ^ k := Nat.pow_le_pow_right (by norm_num) (by omega)
  have hsmall : 2 ^ 127 < 10 ^ 39 := by norm_num
  omega

/-- The rounds of raising: each but the last has added a factor of ten. -/
theorem loop_raise (m s : ℤ) (hwords : InWords (m, s)) :
    ∃ n, Loop raiseRound InWords n (m, s) (raise m s) ∧ m.natAbs * 10 ^ (n - 1) ≤ 2 ^ 127 ∧
      (0 ≤ s → n = 0) := by
  have hfits := fits128_iff.mp hwords.1
  fun_induction raise m s with
  | case1 m s hs hnext ih =>
      have hwords' : InWords (m * 10, s + 1) := ⟨hnext, by unfold InWords at hwords; omega⟩
      obtain ⟨n, hloop, hpower, -⟩ := ih hwords' (fits128_iff.mp hnext)
      have hround : raiseRound (m, s) = some (.ok (m * 10, s + 1)) := by
        simp [raiseRound, hs, hnext]
      refine ⟨n + 1, .again hwords hround hloop, ?_, fun hlarge => by omega⟩
      cases n with
      | zero =>
          rw [Nat.zero_add, Nat.sub_self, pow_zero, mul_one]
          omega
      | succ n =>
          rw [Int.natAbs_mul] at hpower
          rw [Nat.add_sub_cancel, pow_succ', ← mul_assoc]
          exact hpower
  | case2 m s hs hover =>
      have hround : raiseRound (m, s) = some (.error (.overflow s)) := by
        simp [raiseRound, hs, hover]
      refine ⟨1, .broken hwords hround, ?_, fun hlarge => by omega⟩
      rw [Nat.sub_self, pow_zero, mul_one]
      omega
  | case3 m s hs =>
      refine ⟨0, .finished hwords (by simp [raiseRound, hs]), ?_, fun _ => rfl⟩
      rw [Nat.zero_sub, pow_zero, mul_one]
      omega

/-- The rounds of reducing: each has taken off one zero. -/
theorem loop_reduce (m s : ℤ) (hwords : InWords (m, s)) :
    ∃ n, Loop reduceRound InWords n (m, s) (.ok (reduce m s)) ∧ (10 ^ n : ℤ) ∣ m ∧
      (s ≤ maxFixedScale → n = 0) := by
  fun_induction reduce m s with
  | case1 m s hmore ih =>
      have hfits := fits128_iff.mp hwords.1
      have hwords' : InWords (m / 10, s - 1) := by
        refine ⟨fits128_iff.mpr ⟨by dsimp only at *; omega, by dsimp only at *; omega⟩, ?_⟩
        have hscale := hmore.1
        unfold InWords at hwords
        unfold maxFixedScale at hscale
        dsimp only at *
        omega
      obtain ⟨n, hloop, hpower, -⟩ := ih hwords'
      have hround : reduceRound (m, s) = some (.ok (m / 10, s - 1)) := by
        simp [reduceRound, hmore]
      refine ⟨n + 1, .again hwords hround hloop, ?_, fun hsmall => by omega⟩
      have hten : m / 10 * 10 = m := Int.ediv_mul_cancel (Int.dvd_of_emod_eq_zero hmore.2)
      rw [pow_succ, ← hten]
      exact Int.mul_dvd_mul_right 10 hpower
  | case2 m s hdone =>
      exact ⟨0, .finished hwords (if_neg hdone), one_dvd m, fun _ => rfl⟩

/-! ## What the loops do -/

/-- Raising keeps the number and ends at scale zero, unless the scale was there or above. -/
theorem raise_spec {m s : ℤ} {raised : ℤ × ℤ} (h : raise m s = .ok raised) :
    scaled raised.1 raised.2 = scaled m s ∧ raised.2 = max s 0 := by
  fun_induction raise m s with
  | case1 m s hs hnext ih =>
      obtain ⟨hvalue, hscale⟩ := ih h
      exact ⟨hvalue.trans (scaled_mul_ten m s), by omega⟩
  | case2 m s hs hover => cases h
  | case3 m s hs =>
      cases h
      exact ⟨rfl, by dsimp only; omega⟩

/-- What raising refuses has a negative scale, and no mantissa of 96 bits at scale zero. -/
theorem raise_refuses {m s : ℤ} {cause : RangeFault} (h : raise m s = .error cause) :
    s < 0 ∧ ∀ m' : ℤ, scaled m' 0 = scaled m s → mantissaBound ≤ m'.natAbs := by
  fun_induction raise m s with
  | case1 m s hs hnext ih =>
      obtain ⟨-, hlarge⟩ := ih h
      exact ⟨hs, fun m' hvalue => hlarge m' (hvalue.trans (scaled_mul_ten m s).symm)⟩
  | case2 m s hs hover =>
      refine ⟨hs, fun m' hvalue => ?_⟩
      by_contra hsmall
      have hnext := (scaled_mul_ten m s).trans hvalue.symm
      have hgrown : (m * 10).natAbs ≤ m'.natAbs := natAbs_le_of_scaled_eq hnext (by omega)
      exact hover (fits128_of_natAbs_lt (by omega))
  | case3 m s hs => cases h

/-- Reducing keeps the number, does not touch scales that are small enough, and above these stops
at a mantissa without a zero at its end. -/
theorem reduce_spec (m s : ℤ) :
    scaled (reduce m s).1 (reduce m s).2 = scaled m s ∧
      (s ≤ maxFixedScale → reduce m s = (m, s)) ∧
      (maxFixedScale < s → maxFixedScale ≤ (reduce m s).2) ∧
      (maxFixedScale < (reduce m s).2 → (reduce m s).1 % 10 ≠ 0) := by
  fun_induction reduce m s with
  | case1 m s hmore ih =>
      obtain ⟨hvalue, hsmall, hlarge, hzero⟩ := ih
      refine ⟨hvalue.trans (scaled_div_ten hmore.2 s), fun h => by omega, fun h => ?_, hzero⟩
      by_cases hlast : s - 1 ≤ maxFixedScale
      · rw [hsmall hlast]
        dsimp only
        omega
      · exact hlarge (by omega)
  | case2 m s hdone =>
      refine ⟨rfl, fun _ => rfl, fun h => ?_, fun h hm => hdone ⟨h, hm⟩⟩
      dsimp only
      omega

/-- Where a mantissa of the largest scale has the same number, reducing finds it. -/
theorem reduce_of_value {m s m' : ℤ} (hs : maxFixedScale < s)
    (hvalue : scaled m' maxFixedScale = scaled m s) : reduce m s = (m', (maxFixedScale : ℤ)) := by
  obtain ⟨hsame, -, hlarge, hzero⟩ := reduce_spec m s
  have hscale : (reduce m s).2 = maxFixedScale := by
    by_contra hne
    have hbelow := hlarge hs
    obtain ⟨k, hk, hpower⟩ := exists_mul_pow_of_scaled_eq (hvalue.trans hsame.symm) hbelow
    cases k with
    | zero => omega
    | succ k =>
        refine hzero (by omega) ?_
        rw [hpower, pow_succ, ← mul_assoc]
        exact Int.mul_emod_left _ 10
  have hmantissa : (reduce m s).1 = m' := by
    rw [hscale] at hsame
    exact scaled_inj.mp (hsame.trans hvalue.symm)
  exact Prod.ext hmantissa hscale

/-- A mantissa of 96 bits at a scale in range is a fixed decimal, and nothing else is. -/
theorem fixedOf_eq_ok_iff {m s : ℤ} (hs : 0 ≤ s) {v : FixedDecimal} :
    fixedOf m s = .ok v ↔ v.mantissa = m ∧ (v.scale : ℤ) = s := by
  constructor
  · intro h
    obtain ⟨hmantissa, hscale⟩ := parts_of_fixedOf h
    exact ⟨hmantissa, by omega⟩
  · rintro ⟨rfl, rfl⟩
    unfold fixedOf
    rw [dif_pos (by rw [Int.toNat_natCast]; exact v.scale_le), dif_pos v.mantissa_lt]
    rfl

/-- What is left by reducing is the fixed decimal of the same number at the nearest scale. -/
theorem fixedOf_reduce_eq_ok_iff {m s : ℤ} (hs : 0 ≤ s) {v : FixedDecimal} :
    fixedOf (reduce m s).1 (reduce m s).2 = .ok v ↔
      (v.scale : ℤ) = min s maxFixedScale ∧ v.value = scaled m s := by
  obtain ⟨hsame, hsmall, hlarge, -⟩ := reduce_spec m s
  by_cases hscale : s ≤ maxFixedScale
  · rw [hsmall hscale, fixedOf_eq_ok_iff hs, min_eq_left hscale]
    constructor
    · rintro ⟨rfl, rfl⟩
      exact ⟨rfl, rfl⟩
    · rintro ⟨rfl, hvalue⟩
      exact ⟨scaled_inj.mp hvalue, rfl⟩
  · have habove : maxFixedScale < s := not_le.mp hscale
    rw [min_eq_right habove.le]
    constructor
    · intro h
      have hbounds := hlarge habove
      obtain ⟨hmantissa, hreduced⟩ := (fixedOf_eq_ok_iff (by omega)).mp h
      have hle := v.scale_le
      refine ⟨by omega, ?_⟩
      unfold FixedDecimal.value
      rw [hmantissa, hreduced, hsame]
    · rintro ⟨hv, hvalue⟩
      unfold FixedDecimal.value at hvalue
      rw [hv] at hvalue
      rw [reduce_of_value habove hvalue]
      exact (fixedOf_eq_ok_iff (Int.natCast_nonneg _)).mpr ⟨rfl, hv⟩

/-! ## What narrowing comes to -/

/-- The scale of fixed decimals that is nearest to the one of a decimal. -/
def nearestScale (d : Decimal) : ℤ := max 0 (min d.scale.toInt maxFixedScale)

/-- How a decimal is narrowed, with `n` rounds of raising and `k` rounds of reducing. -/
inductive Narrows (d : Decimal) : (n k : ℕ) → Except RangeFault FixedDecimal → Prop
  | wide : fits128 d.unscaled = false → Narrows d 0 0 (.error (.wideUnscaled d))
  | overflow {n cause} : Loop raiseRound InWords n (d.unscaled, d.startScale) (.error cause) →
      Narrows d n 0 (.error cause)
  | fixed {n k raised reduced} :
      Loop raiseRound InWords n (d.unscaled, d.startScale) (.ok raised) →
      Loop reduceRound InWords k raised (.ok reduced) →
      Narrows d n k (fixedOf reduced.1 reduced.2)

end Decimal

/-- The state in which a loop is over is one that it has passed through. -/
theorem Loop.final {σ ε : Type} {round : σ → Option (Except ε σ)} {P : σ → Prop} {n : ℕ}
    {s s' : σ} (h : Loop round P n s (.ok s')) : P s' := by
  generalize hend : Except.ok s' = outcome at h
  induction h with
  | finished hs _ =>
      cases hend
      exact hs
  | broken _ _ => cases hend
  | again _ _ _ ih => exact ih hend

namespace Decimal

variable {d : Decimal}

/-- A number other than zero is narrowed from its own scale. -/
theorem startScale_of_ne_zero (h : d.unscaled ≠ 0) : d.startScale = d.scale.toInt := by
  unfold startScale
  rw [if_neg h]

/-- Zero is narrowed from the nearest scale. -/
theorem startScale_of_eq_zero (h : d.unscaled = 0) : d.startScale = d.nearestScale := by
  unfold startScale nearestScale
  rw [if_pos h]

/-- The scale to start from is worth as much as the decimal's own, and as near to the others. -/
theorem startScale_spec (d : Decimal) :
    scaled d.unscaled d.startScale = d.value ∧
      d.nearestScale = max 0 (min d.startScale maxFixedScale) := by
  by_cases h : d.unscaled = 0
  · rw [startScale_of_eq_zero h]
    unfold value nearestScale
    refine ⟨by simp [scaled, h], by omega⟩
  · rw [startScale_of_ne_zero h]
    exact ⟨rfl, rfl⟩

/-- The loops start with words. -/
theorem inWords_start (h : fits128 d.unscaled = true) : InWords (d.unscaled, d.startScale) := by
  have hlow := Int64.le_toInt d.scale
  have hhigh := Int64.toInt_lt d.scale
  refine ⟨h, ?_⟩
  dsimp only
  unfold startScale maxFixedScale
  split <;> omega

/-- The two loops, and what is made of what they leave. -/
theorem toFixed_of_fits (h : fits128 d.unscaled = true) :
    d.toFixed = (raise d.unscaled d.startScale).bind fun raised =>
      fixedOf (reduce raised.1 raised.2).1 (reduce raised.1 raised.2).2 := by
  unfold toFixed
  rw [if_pos h]
  rfl

theorem toFixed_of_wide (h : fits128 d.unscaled = false) :
    d.toFixed = .error (.wideUnscaled d) := by
  unfold toFixed
  rw [h]
  rfl

/-- Raising takes at most 39 rounds: zero is not raised, and other numbers outgrow 128 bits. -/
theorem loop_raise_start (h : fits128 d.unscaled = true) :
    ∃ n ≤ 39, Loop raiseRound InWords n (d.unscaled, d.startScale)
      (raise d.unscaled d.startScale) := by
  obtain ⟨n, hraises, hpower, hnone⟩ := loop_raise _ _ (inWords_start h)
  refine ⟨n, ?_, hraises⟩
  by_cases hzero : d.unscaled = 0
  · have hstart := startScale_of_eq_zero hzero
    unfold nearestScale at hstart
    rw [hnone (by omega)]
    exact Nat.zero_le _
  · have hfew : n - 1 ≤ 38 := le_of_ten_pow_le <|
      Nat.le_trans (Nat.le_mul_of_pos_left _ (Int.natAbs_pos.mpr hzero)) hpower
    omega

/-- Reducing takes at most 38 rounds: zero is not reduced, and no other number of 128 bits has more
zeros at its end. -/
theorem loop_reduce_raised {raised : ℤ × ℤ} (hraise : raise d.unscaled d.startScale = .ok raised)
    (hwords : InWords raised) :
    ∃ k ≤ 38, Loop reduceRound InWords k raised (.ok (reduce raised.1 raised.2)) := by
  obtain ⟨k, hreduces, hdvd, hnone⟩ := loop_reduce _ _ hwords
  obtain ⟨hvalue, hscale⟩ := raise_spec hraise
  refine ⟨k, ?_, hreduces⟩
  by_cases hzero : raised.1 = 0
  · have hunscaled : d.unscaled = 0 := by
      rw [hzero] at hvalue
      exact scaled_eq_zero_iff.mp (hvalue.symm.trans (scaled_eq_zero_iff.mpr rfl))
    have hstart := startScale_of_eq_zero hunscaled
    unfold nearestScale at hstart
    rw [hnone (by omega)]
    exact Nat.zero_le _
  · have hfits := fits128_iff.mp hwords.1
    have hle := Nat.le_of_dvd (Int.natAbs_pos.mpr hzero) (Int.natAbs_dvd_natAbs.mpr hdvd)
    rw [Int.natAbs_pow] at hle
    exact le_of_ten_pow_le (Nat.le_trans hle (by omega))

/-- Narrowing takes at most 39 rounds of either loop, and all of its numbers are words. -/
theorem narrows_toFixed (d : Decimal) : ∃ n k, n ≤ 39 ∧ k ≤ 39 ∧ d.Narrows n k d.toFixed := by
  cases hfits : fits128 d.unscaled with
  | false =>
      rw [toFixed_of_wide hfits]
      exact ⟨0, 0, Nat.zero_le _, Nat.zero_le _, .wide hfits⟩
  | true =>
      rw [toFixed_of_fits hfits]
      obtain ⟨n, hn, hraises⟩ := loop_raise_start hfits
      cases hraise : raise d.unscaled d.startScale with
      | error cause =>
          rw [hraise] at hraises
          exact ⟨n, 0, hn, Nat.zero_le _, .overflow hraises⟩
      | ok raised =>
          rw [hraise] at hraises
          obtain ⟨k, hk, hreduces⟩ := loop_reduce_raised hraise hraises.final
          exact ⟨n, k, hn, Nat.le_succ_of_le hk, .fixed hraises hreduces⟩

/-- **What narrowing yields, and when.**  It yields the fixed decimal of the same number at the
nearest scale, if there is one and the unscaled integer fits in 128 bits. -/
theorem toFixed_eq_ok_iff {v : FixedDecimal} :
    d.toFixed = .ok v ↔
      fits128 d.unscaled = true ∧ (v.scale : ℤ) = d.nearestScale ∧ v.value = d.value := by
  cases hfits : fits128 d.unscaled with
  | false => simp [toFixed_of_wide hfits]
  | true =>
      obtain ⟨hstart, hnearest⟩ := startScale_spec d
      rw [toFixed_of_fits hfits, hnearest, ← hstart]
      cases hraise : raise d.unscaled d.startScale with
      | error cause =>
          obtain ⟨hnegative, hlarge⟩ := raise_refuses hraise
          constructor
          · intro h
            cases h
          · rintro ⟨-, hscale, hvalue⟩
            have hzero : (v.scale : ℤ) = 0 := by omega
            unfold FixedDecimal.value at hvalue
            rw [hzero] at hvalue
            exact absurd v.mantissa_lt (Nat.not_lt.mpr (hlarge _ hvalue))
      | ok raised =>
          obtain ⟨hvalue, hscale⟩ := raise_spec hraise
          have hreduce := fixedOf_reduce_eq_ok_iff (m := raised.1) (s := raised.2) (v := v)
            (by omega)
          have hclamp : min raised.2 maxFixedScale = max 0 (min d.startScale maxFixedScale) := by
            omega
          rw [hvalue, hclamp] at hreduce
          exact hreduce.trans (and_iff_right rfl).symm

/-- **Narrowing never changes the number.**  It takes at most 39 rounds of either loop, with all
numbers in 128 and 64 bits, whatever the decimal.  The fixed decimal that it yields is the same
number at the nearest scale, and any fixed decimal is its own narrowing. -/
theorem toFixed_keeps_value (d : Decimal) :
    (∃ n k, n ≤ 39 ∧ k ≤ 39 ∧ d.Narrows n k d.toFixed) ∧
    (∀ v, d.toFixed = .ok v →
      (v.scale : ℤ) = d.nearestScale ∧ v.mantissa.natAbs < 2 ^ 96 ∧ v.value = d.value) ∧
    ∀ v : FixedDecimal, v.toDecimal.toFixed = .ok v := by
  refine ⟨d.narrows_toFixed, fun v h => ?_, fun v => v.toFixed_toDecimal⟩
  obtain ⟨-, hscale, hvalue⟩ := toFixed_eq_ok_iff.mp h
  exact ⟨hscale, v.mantissa_lt, hvalue⟩

/-- A hundred at scale 30 loses both of its zeros. -/
theorem hundred_toFixed_keeps_value :
    let d : Decimal := ⟨100, 30⟩
    let v : FixedDecimal := ⟨1, 28, by decide, by decide⟩
    d.toFixed = .ok v ∧ (v.scale : ℤ) = d.nearestScale ∧ v.value = d.value := by
  intro d v
  have hvalue : v.value = d.value := by
    change ((1 : ℤ) : ℚ) * 10 ^ (-28 : ℤ) = ((100 : ℤ) : ℚ) * 10 ^ (-30 : ℤ)
    norm_num
  have hnarrow : d.toFixed = .ok v := toFixed_eq_ok_iff.mpr ⟨by decide, by decide, hvalue⟩
  obtain ⟨hscale, -, hkept⟩ := (toFixed_keeps_value d).2.1 v hnarrow
  exact ⟨hnarrow, hscale, hkept⟩

/-! ## What is refused -/

/-- A number with a mantissa of 96 bits at the nearest scale, and with no larger one at its own,
is one that narrowing yields. -/
theorem exists_toFixed_iff :
    (∃ v, d.toFixed = .ok v) ↔ fits128 d.unscaled = true ∧
      ∃ m : ℤ, m.natAbs < 2 ^ 96 ∧ scaled m d.nearestScale = d.value := by
  constructor
  · rintro ⟨v, h⟩
    obtain ⟨hfits, hscale, hvalue⟩ := toFixed_eq_ok_iff.mp h
    exact ⟨hfits, v.mantissa, v.mantissa_lt, by rw [← hscale]; exact hvalue⟩
  · rintro ⟨hfits, m, hm, hvalue⟩
    obtain ⟨s, hs⟩ := Int.eq_ofNat_of_zero_le (show 0 ≤ d.nearestScale from le_max_left _ _)
    have hle : s ≤ maxFixedScale := by
      unfold nearestScale at hs
      omega
    refine ⟨⟨m, s, hm, hle⟩, toFixed_eq_ok_iff.mpr ⟨hfits, hs.symm, ?_⟩⟩
    rw [hs] at hvalue
    exact hvalue

/-- A number that a fixed decimal holds has a mantissa of 96 bits at the nearest scale as well,
unless its own mantissa is larger and stands at a positive scale. -/
theorem exists_scaled_nearestScale {v : FixedDecimal} (hvalue : v.value = d.value)
    (h : d.unscaled.natAbs < 2 ^ 96 ∨ d.scale.toInt ≤ 0) :
    d.unscaled.natAbs < 2 ^ 96 ∧
      ∃ m : ℤ, m.natAbs < 2 ^ 96 ∧ scaled m d.nearestScale = d.value := by
  have hscale := v.scale_le
  have hmantissa : v.mantissa.natAbs < 2 ^ 96 := v.mantissa_lt
  by_cases hnegative : d.scale.toInt ≤ 0
  · have hnearest : d.nearestScale = 0 := by
      unfold nearestScale
      omega
    obtain ⟨k, hk⟩ := Int.le.dest hnegative
    have hmove := scaled_mul_pow d.unscaled d.scale.toInt k
    rw [hk] at hmove
    have hsmall := natAbs_le_of_scaled_eq (hmove.trans hvalue.symm) (Int.natCast_nonneg _)
    have hown := natAbs_le_of_scaled_eq hmove.symm hnegative
    rw [hnearest]
    exact ⟨by omega, _, by omega, hmove⟩
  have hunscaled : d.unscaled.natAbs < 2 ^ 96 := h.resolve_right hnegative
  refine ⟨hunscaled, ?_⟩
  by_cases hinside : d.scale.toInt ≤ maxFixedScale
  · have hnearest : d.nearestScale = d.scale.toInt := by
      unfold nearestScale
      omega
    rw [hnearest]
    exact ⟨d.unscaled, hunscaled, rfl⟩
  · have hnearest : d.nearestScale = maxFixedScale := by
      unfold nearestScale
      omega
    obtain ⟨k, hk⟩ := Int.le.dest (Int.ofNat_le.mpr hscale)
    have hmove := (scaled_mul_pow v.mantissa v.scale k).trans hvalue
    rw [hk] at hmove
    have hsmall := natAbs_le_of_scaled_eq hmove (by omega)
    rw [hnearest]
    exact ⟨_, by omega, hmove⟩

/-- **What narrowing accepts.**  The number must have a mantissa of 96 bits at the nearest scale,
and the unscaled integer must fit in 128 bits.  Where the unscaled integer has 96 bits, or has no
places behind the point, only those numbers are refused that no fixed decimal holds. -/
theorem toFixed_succeeds_iff (d : Decimal) :
    ((∃ v, d.toFixed = .ok v) ↔ fits128 d.unscaled = true ∧
      ∃ m : ℤ, m.natAbs < 2 ^ 96 ∧ scaled m d.nearestScale = d.value) ∧
    (d.unscaled.natAbs < 2 ^ 96 ∨ d.scale.toInt ≤ 0 →
      ((∃ v, d.toFixed = .ok v) ↔ ∃ v : FixedDecimal, v.value = d.value)) := by
  refine ⟨exists_toFixed_iff, fun h => ⟨?_, ?_⟩⟩
  · rintro ⟨v, hv⟩
    exact ⟨v, (toFixed_eq_ok_iff.mp hv).2.2⟩
  · rintro ⟨v, hvalue⟩
    obtain ⟨hunscaled, hmantissa⟩ := exists_scaled_nearestScale hvalue h
    exact exists_toFixed_iff.mpr ⟨fits128_of_natAbs_lt hunscaled, hmantissa⟩

/-- A thousand at scale 31 is accepted because `10 ^ (-28)` is a fixed decimal. -/
theorem thousand_toFixed_succeeds :
    let d : Decimal := ⟨1000, 31⟩
    d.unscaled.natAbs < 2 ^ 96 ∧ ∃ v, d.toFixed = .ok v := by
  intro d
  have hsmall : d.unscaled.natAbs < 2 ^ 96 := by decide
  have hvalue : (⟨1, 28, by decide, by decide⟩ : FixedDecimal).value = d.value := by
    change ((1 : ℤ) : ℚ) * 10 ^ (-28 : ℤ) = ((1000 : ℤ) : ℚ) * 10 ^ (-31 : ℤ)
    norm_num
  exact ⟨hsmall, ((toFixed_succeeds_iff d).2 (.inl hsmall)).mpr ⟨_, hvalue⟩⟩

/-- One, written with forty zeros behind the point, is refused: the zeros are not taken off an
unscaled integer of more than 128 bits. -/
theorem one_with_forty_zeros_refused :
    let d : Decimal := ⟨10 ^ 40, 40⟩
    let v : FixedDecimal := ⟨10 ^ 28, 28, by decide, by decide⟩
    v.value = d.value ∧ d.toFixed = .error (.wideUnscaled d) := by
  intro d v
  have hvalue : v.value = d.value := by
    change ((10 ^ 28 : ℤ) : ℚ) * 10 ^ (-28 : ℤ) = ((10 ^ 40 : ℤ) : ℚ) * 10 ^ (-40 : ℤ)
    norm_num
  exact ⟨hvalue, toFixed_of_wide (by decide)⟩

end Decimal

end TagWire
