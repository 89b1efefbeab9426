/-!
# Decimals

A decimal is an unscaled integer of any size and a scale: it stands for
`unscaled * 10 ^ (-scale)`.  The pair is kept as it is, so `5000` at scale 0
and `5` at scale -3 are different decimals of one value.  `text` writes a
decimal out in digits, for messages.
-/

namespace TagWire

/-- A number with a decimal point, never normalised. -/
structure Decimal where
  unscaled : Int
  scale : Int64
  deriving DecidableEq, Repr, Inhabited

namespace Decimal

/-- Leading zeros after the point that are still written out in full. -/
def maxLeadingZeros : Int := 5

/-- Trailing zeros that are still written out in full. -/
def maxTrailingZeros : Int := 15

/-- The digits of a number without sign at a scale. -/
def magnitudeText (digits : List Char) (scale : Int) : String :=
  let count : Int := digits.length
  if maxLeadingZeros < scale - count then
    let point := if digits.length = 1 then [] else ['.']
    String.ofList (digits.take 1 ++ point ++ digits.drop 1) ++ "E-" ++ toString (scale - count + 1)
  else if maxTrailingZeros < -scale then
    String.ofList digits ++ "e+" ++ toString (-scale)
  else if scale ≤ 0 then
    String.ofList (digits ++ List.replicate (-scale).toNat '0')
  else
    let places := scale.toNat
    let padded := List.replicate (places + 1 - digits.length) '0' ++ digits
    let whole := padded.length - places
    String.ofList (padded.take whole ++ '.' :: padded.drop whole)

/-- The decimal in digits: in plain notation where few zeros are needed, in
scientific notation far below one, with an exponent far above. -/
def text (d : Decimal) : String :=
  let magnitude := magnitudeText (Nat.toDigits 10 d.unscaled.natAbs) d.scale.toInt
  if d.unscaled < 0 then "-" ++ magnitude else magnitude

/-- Why a decimal cannot be converted. -/
inductive RangeFault where
  /-- The scale has no place in a 32-bit field. -/
  | wideScale (scale : Int64)
  /-- No bytes stand for no integer. -/
  | emptyUnscaled
  /-- The unscaled integer is beyond 128 bits. -/
  | wideUnscaled (value : Decimal)
  /-- Raising the unscaled integer to scale zero leaves 128 bits at this scale. -/
  | overflow (scale : Int)
  /-- A scale that is too large for a fixed decimal, and cannot be reduced. -/
  | largeScale (scale : Int)
  /-- The mantissa is above the greatest of a fixed decimal. -/
  | aboveMaximum
  /-- The mantissa is below the least of a fixed decimal. -/
  | belowMinimum
  deriving DecidableEq, Repr

/-- The cause in words. -/
def RangeFault.message : RangeFault → String
  | wideScale scale => s!"scale {scale} does not fit in 32 bits"
  | emptyUnscaled => "empty unscaled value"
  | wideUnscaled value => "unscaled value of " ++ value.text ++ " exceeds 128 bits"
  | overflow scale => s!"unscaled value overflows at scale {scale}"
  | largeScale scale => s!"scale {scale} exceeds 28"
  | aboveMaximum => "Number exceeds maximum value that can be represented."
  | belowMinimum => "Number less than minimum value that can be represented."

end Decimal

end TagWire
