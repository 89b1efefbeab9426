import TagWire.Decimal.Basic

/-!
# Fixed decimals

A fixed decimal has a mantissa of at most 96 bits and a scale from 0 to 28.
`toDecimal` widens one without loss.  `Decimal.toFixed` narrows: a negative
scale is folded into the mantissa, a scale above 28 is reduced as long as the
mantissa ends in zeros, and what a fixed decimal cannot hold exactly is
refused rather than rounded.

The two loops move the scale by one each round, in opposite directions.  The
first ends because the mantissa leaves 128 bits, the second because the
mantissa runs out of zeros; a zero mantissa enters neither.
-/

namespace TagWire

/-- The first magnitude that a fixed mantissa cannot have. -/
def mantissaBound : Nat := 0x1000000000000000000000000

/-- The largest scale of a fixed decimal. -/
def maxFixedScale : Nat := 28

/-- A decimal of limited precision. -/
structure FixedDecimal where
  mantissa : Int
  scale : Nat
  mantissa_lt : mantissa.natAbs < mantissaBound := by decide
  scale_le : scale ≤ maxFixedScale := by decide
  deriving DecidableEq, Repr

namespace FixedDecimal

/-- The same number as a decimal of any size. -/
def toDecimal (d : FixedDecimal) : Decimal := ⟨d.mantissa, Int64.ofNat d.scale⟩

/-- The fixed decimal with these parts, if they are in range. -/
def ofParts? (mantissa : Int) (scale : Nat) : Option FixedDecimal :=
  if hm : mantissa.natAbs < mantissaBound then
    if hs : scale ≤ maxFixedScale then some ⟨mantissa, scale, hm, hs⟩ else none
  else none

end FixedDecimal

namespace Decimal

/-- Whether an integer fits in 128 bits with a sign. -/
def fits128 (m : Int) : Bool :=
  -0x80000000000000000000000000000000 ≤ m && m < 0x80000000000000000000000000000000

/-- Folds a negative scale into the mantissa, one factor of ten a round. -/
def raise (mantissa scale : Int) : Except RangeFault (Int × Int) :=
  if scale < 0 then
    if fits128 (mantissa * 10) then raise (mantissa * 10) (scale + 1)
    else .error (.overflow scale)
  else .ok (mantissa, scale)
termination_by scale.natAbs
decreasing_by omega

/-- Takes trailing zeros off the mantissa while the scale is too large. -/
def reduce (mantissa scale : Int) : Int × Int :=
  if maxFixedScale < scale ∧ mantissa % 10 = 0 then reduce (mantissa / 10) (scale - 1)
  else (mantissa, scale)
termination_by scale.natAbs
decreasing_by
  simp only [maxFixedScale] at *
  omega

/-- The scale the loops start from: zero has every scale, so the nearest allowed
one is chosen for it. -/
def startScale (d : Decimal) : Int :=
  if d.unscaled = 0 then max 0 (min d.scale.toInt maxFixedScale) else d.scale.toInt

/-- The fixed decimal with a mantissa and a scale of any size. -/
def fixedOf (mantissa scale : Int) : Except RangeFault FixedDecimal :=
  if hs : scale.toNat ≤ maxFixedScale then
    if hm : mantissa.natAbs < mantissaBound then .ok ⟨mantissa, scale.toNat, hm, hs⟩
    else if 0 < mantissa then .error .aboveMaximum
    else .error .belowMinimum
  else .error (.largeScale scale)

/-- The fixed decimal of exactly the same value. -/
def toFixed (d : Decimal) : Except RangeFault FixedDecimal := do
  if fits128 d.unscaled then
    let raised ← raise d.unscaled d.startScale
    let reduced := reduce raised.1 raised.2
    fixedOf reduced.1 reduced.2
  else throw (.wideUnscaled d)

end Decimal

end TagWire
