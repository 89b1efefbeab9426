/-!
# Digits of numbers

Messages show numbers without sign in a base with a least number of digits,
zeros in front: the two digits of a month, the eight lower-case hexadecimal
digits of a 32-bit word.
-/

namespace TagWire.Digits

/-- The digits of `n`, with zeros in front up to `width` of them. -/
def padded (base width n : Nat) : String :=
  let digits := Nat.toDigits base n
  String.ofList (List.replicate (width - digits.length) '0' ++ digits)

/-- A 32-bit word in hexadecimal, such as `0x0000002a`. -/
def hexWord (n : UInt32) : String := "0x" ++ padded 16 8 n.toNat

end TagWire.Digits
