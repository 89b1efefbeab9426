/-!
# Two's complement of any length

An integer of any size is written in as few bytes as hold it: seven value
bits and a sign in the first byte, eight bits in each later one.  `encode`
always yields at least one byte, and no shorter run of bytes denotes the same
integer; `decode` also reads runs with redundant sign bytes in front.
-/

namespace TagWire.TwosComplement

/-- The shortest bytes that denote `u`, most significant first. -/
def encode (u : Int) : List UInt8 :=
  if -128 ≤ u ∧ u < 128 then [UInt8.ofNat (u % 256).toNat]
  else encode (u / 256) ++ [UInt8.ofNat (u % 256).toNat]
termination_by u.natAbs
decreasing_by omega

/-- The value of a first byte, whose top bit is the sign. -/
def leading (byte : UInt8) : Int :=
  if byte < 0x80 then byte.toNat else (byte.toNat : Int) - 256

/-- The integer that a run of bytes denotes; no bytes denote zero. -/
def decode : List UInt8 → Int
  | [] => 0
  | first :: rest => rest.foldl (fun u byte => 256 * u + byte.toNat) (leading first)

/-- An integer takes at least one byte. -/
theorem encode_ne_nil (u : Int) : encode u ≠ [] := by
  rw [encode]
  split <;> simp

end TagWire.TwosComplement
