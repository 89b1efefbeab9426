import TagWire.Decimal.Fixed
import TagWire.Decimal.Parts
import TagWire.Proofs.Words

/-!
# Decimals and their parts

A decimal on the wire is a scale of 32 bits and the bytes of its unscaled
integer:

* `toParts_eq_ok_iff`, `ofParts_eq_ok_iff` — what splitting and joining mean;
* `toFixed_toDecimal` — a fixed decimal is read back with its own mantissa and
  scale;
* `toDecimal_of_toFixed` — a decimal with a scale that fixed decimals have is
  the one that its narrowing widens to.
-/

namespace TagWire

namespace Decimal

/-- A scale has a place in a 32-bit field exactly when it is in its range. -/
theorem toInt64_toInt32_eq_iff {scale : Int64} :
    scale.toInt32.toInt64 = scale ↔ -2 ^ 31 ≤ scale.toInt ∧ scale.toInt < 2 ^ 31 := by
  rw [← Int64.toInt_inj, Int32.toInt_toInt64, Int64.toInt_toInt32]
  constructor
  · intro h
    have hlow := Int32.le_toInt scale.toInt32
    have hhigh := Int32.toInt_lt scale.toInt32
    rw [Int64.toInt_toInt32, h] at hlow hhigh
    exact ⟨hlow, hhigh⟩
  · intro h
    rcases h with ⟨hlow, hhigh⟩
    exact Int.bmod_eq_of_le (by omega) (by omega)

/-- What splitting a decimal yields, and when. -/
theorem toParts_eq_ok_iff {d : Decimal} {scale : Int32} {bytes : List UInt8} :
    d.toParts = .ok (scale, bytes) ↔
      d.scale = scale.toInt64 ∧ bytes = TwosComplement.encode d.unscaled := by
  unfold toParts
  dsimp only
  split
  next hfits =>
    rw [Except.ok.injEq, Prod.mk.injEq]
    constructor
    · intro h
      rcases h with ⟨rfl, rfl⟩
      exact ⟨hfits.symm, rfl⟩
    · intro h
      rcases h with ⟨hscale, rfl⟩
      exact ⟨by rw [hscale, Int32.toInt32_toInt64], rfl⟩
  next hwide =>
    constructor
    · intro h
      cases h
    · intro h
      rcases h with ⟨hscale, _⟩
      exact absurd (by rw [hscale, Int32.toInt32_toInt64]) hwide

/-- What joining a scale and bytes yields, and when. -/
theorem ofParts_eq_ok_iff {scale : Int32} {bytes : List UInt8} {d : Decimal} :
    ofParts scale bytes = .ok d ↔
      bytes ≠ [] ∧ d.unscaled = TwosComplement.decode bytes ∧ d.scale = scale.toInt64 := by
  unfold ofParts
  cases bytes with
  | nil => simp
  | cons first rest =>
      rw [List.isEmpty_cons, if_neg (by simp), Except.ok.injEq]
      constructor
      · intro h
        subst h
        exact ⟨by simp, rfl, rfl⟩
      · intro h
        rcases h with ⟨-, hunscaled, hscale⟩
        cases d
        simp_all

/-- Within the scales of fixed decimals neither loop is entered. -/
theorem toFixed_of_scale {d : Decimal} (hlow : 0 ≤ d.scale.toInt) (hhigh : d.scale.toInt ≤ 28) :
    d.toFixed =
      if fits128 d.unscaled then fixedOf d.unscaled d.scale.toInt
      else .error (.wideUnscaled d) := by
  have hstart : d.startScale = d.scale.toInt := by
    unfold startScale maxFixedScale
    split <;> omega
  have hraise : raise d.unscaled d.scale.toInt = .ok (d.unscaled, d.scale.toInt) := by
    rw [raise, if_neg (by omega)]
  have hreduce : reduce d.unscaled d.scale.toInt = (d.unscaled, d.scale.toInt) := by
    rw [reduce, if_neg]
    unfold maxFixedScale
    omega
  unfold toFixed
  rw [hstart, hraise]
  simp only [bind, Except.bind, hreduce]
  rfl

/-- The parts of a fixed decimal that is made of a mantissa and a scale. -/
theorem parts_of_fixedOf {m s : Int} {v : FixedDecimal} (h : fixedOf m s = .ok v) :
    v.mantissa = m ∧ v.scale = s.toNat := by
  unfold fixedOf at h
  split at h
  · split at h
    · cases h
      exact ⟨rfl, rfl⟩
    · split at h <;> cases h
  · cases h

end Decimal

namespace FixedDecimal

/-- The scale of a fixed decimal as a wider one. -/
theorem toInt_scale_toDecimal (v : FixedDecimal) : v.toDecimal.scale.toInt = v.scale := by
  have hscale := v.scale_le
  unfold maxFixedScale at hscale
  exact Int64.toInt_ofNat_of_lt (by omega)

/-- A fixed decimal is read back with its own mantissa and scale. -/
theorem toFixed_toDecimal (v : FixedDecimal) : v.toDecimal.toFixed = .ok v := by
  have hscale := v.scale_le
  have hmantissa := v.mantissa_lt
  unfold maxFixedScale at hscale
  unfold mantissaBound at hmantissa
  have hfits : Decimal.fits128 v.mantissa = true := by
    simp only [Decimal.fits128, Bool.and_eq_true, decide_eq_true_eq]
    omega
  rw [Decimal.toFixed_of_scale (by rw [toInt_scale_toDecimal]; omega)
    (by rw [toInt_scale_toDecimal]; omega), toInt_scale_toDecimal]
  unfold toDecimal Decimal.fixedOf
  dsimp only
  rw [if_pos hfits, dif_pos (by rw [Int.toNat_natCast]; exact v.scale_le), dif_pos v.mantissa_lt]
  rfl

/-- A decimal whose scale fixed decimals have is the one that its narrowing widens to. -/
theorem toDecimal_of_toFixed {d : Decimal} {v : FixedDecimal} (h : d.toFixed = .ok v)
    (hlow : 0 ≤ d.scale.toInt) (hhigh : d.scale.toInt ≤ 28) : v.toDecimal = d := by
  rw [Decimal.toFixed_of_scale hlow hhigh] at h
  split at h
  next hfits =>
    obtain ⟨hmantissa, hscale⟩ := Decimal.parts_of_fixedOf h
    have hsame : v.toDecimal.scale = d.scale := by
      rw [← Int64.toInt_inj, toInt_scale_toDecimal, hscale]
      omega
    cases d
    simp only [toDecimal, Decimal.mk.injEq] at hsame ⊢
    exact ⟨hmantissa, hsame⟩
  next hwide => cases h

/-- The unscaled integer of a fixed decimal takes at most thirteen bytes. -/
theorem length_encode_mantissa (v : FixedDecimal) :
    (TwosComplement.encode v.toDecimal.unscaled).length ≤ 13 := by
  have hmantissa := v.mantissa_lt
  unfold mantissaBound at hmantissa
  exact TwosComplement.length_encode_le (k := 12) (by unfold toDecimal; dsimp only; omega)
    (by unfold toDecimal; dsimp only; omega)

end FixedDecimal

end TagWire
