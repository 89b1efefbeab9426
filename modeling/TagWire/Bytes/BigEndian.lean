/-!
# Big-endian words

Every word of more than one byte is written with its most significant byte
first.  `encode` writes the low `8 * width` bits of a number as `width`
bytes, and `decode` reads a run of bytes as one number.
-/

namespace TagWire.BigEndian

/-- The low `8 * width` bits of `n` as `width` bytes. -/
def encode : (width : Nat) → (n : Nat) → List UInt8
  | 0, _ => []
  | width + 1, n => encode width (n / 256) ++ [UInt8.ofNat n]

/-- The number a run of bytes denotes. -/
def decode (bytes : List UInt8) : Nat :=
  bytes.foldl (fun n byte => 256 * n + byte.toNat) 0

end TagWire.BigEndian
