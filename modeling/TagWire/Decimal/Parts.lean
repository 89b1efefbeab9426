import TagWire.Bytes.TwosComplement
import TagWire.Decimal.Basic

/-!
# Decimals on the wire

On the wire a decimal is a 32-bit scale and the two's-complement bytes of its
unscaled integer.  Writing chooses the shortest bytes; reading accepts any
run of at least one byte and keeps the scale as sent.
-/

namespace TagWire.Decimal

/-- Scale and shortest unscaled bytes.  A negative scale is kept, but the scale
must fit in 32 bits. -/
def toParts (d : Decimal) : Except RangeFault (Int32 × List UInt8) :=
  let scale := d.scale.toInt32
  if scale.toInt64 = d.scale then .ok (scale, TwosComplement.encode d.unscaled)
  else .error (.wideScale d.scale)

/-- The decimal with this scale and these unscaled bytes. -/
def ofParts (scale : Int32) (unscaled : List UInt8) : Except RangeFault Decimal :=
  if unscaled.isEmpty then .error .emptyUnscaled
  else .ok ⟨TwosComplement.decode unscaled, scale.toInt64⟩

end TagWire.Decimal
