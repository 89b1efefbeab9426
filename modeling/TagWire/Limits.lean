/-!
# Limits

A session refuses lengths, counts and nestings beyond its limits, before it
makes room for what they announce.
-/

namespace TagWire

/-- What a session accepts at most. -/
structure Limits where
  /-- Longest text or run of bytes, and most items of a collection. -/
  maxLength : Nat := 64 * 1024 * 1024
  /-- Most nested and dynamic values open at once while reading. -/
  maxDepth : Nat := 64
  deriving DecidableEq, Repr, Inhabited

/-- The greatest length that a 32-bit prefix can announce. -/
def Limits.greatestPrefix : Nat := 0x7FFFFFFF

/-- The longest part that may be written: what the limits allow and the length
field can hold. -/
def Limits.writable (limits : Limits) : Nat := min limits.maxLength greatestPrefix

end TagWire
