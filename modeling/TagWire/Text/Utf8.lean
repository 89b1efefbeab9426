/-!
# UTF-8

Text travels as UTF-8.  `encode` writes the bytes of a string.  `decode`
reads bytes with a machine that stands either between two characters or
inside one, where it owes a number of continuation bytes and knows the range
that the next one must be in.  The ranges rule out overlong forms, surrogates
and code points above `10FFFF`, so the machine stops at the first byte that
no well-formed text can have there, and a `Defect` says where that was.
-/

namespace TagWire.Utf8

/-- Where and how bytes stop being UTF-8. -/
structure Defect where
  /-- Length of the longest well-formed beginning. -/
  validUpTo : Nat
  /-- Length of the sequence that is cut short by a byte that cannot follow, or
  nothing when the bytes end inside a sequence that is well formed so far. -/
  malformed? : Option Nat
  deriving DecidableEq, Repr

/-- What is wrong, in words. -/
def Defect.message (defect : Defect) : String :=
  let index := defect.validUpTo
  match defect.malformed? with
  | some length => s!"invalid utf-8 sequence of {length} bytes from index {index}"
  | none => s!"incomplete utf-8 byte sequence from index {index}"

/-- The bytes of a text. -/
def encode (text : String) : List UInt8 := text.toList.flatMap String.utf8EncodeChar

/-- A character that has begun: `owed` continuation bytes are still to come, the
next of them between `low` and `high`; `seen` bytes and their bits are read. -/
structure Pending where
  owed : Nat
  low : Nat
  high : Nat
  seen : Nat
  code : Nat
  deriving DecidableEq, Repr

/-- The character of several bytes that a byte opens, if it can open one. -/
def opening? (byte : UInt8) : Option Pending :=
  let n := byte.toNat
  if n < 0xC2 then none
  else if n < 0xE0 then some ⟨1, 0x80, 0xBF, 1, n - 0xC0⟩
  else if n = 0xE0 then some ⟨2, 0xA0, 0xBF, 1, n - 0xE0⟩
  else if n = 0xED then some ⟨2, 0x80, 0x9F, 1, n - 0xE0⟩
  else if n < 0xF0 then some ⟨2, 0x80, 0xBF, 1, n - 0xE0⟩
  else if n = 0xF0 then some ⟨3, 0x90, 0xBF, 1, n - 0xF0⟩
  else if n < 0xF4 then some ⟨3, 0x80, 0xBF, 1, n - 0xF0⟩
  else if n = 0xF4 then some ⟨3, 0x80, 0x8F, 1, n - 0xF0⟩
  else none

/-- The character after one more continuation byte. -/
def Pending.extend (pending : Pending) (byte : UInt8) : Pending :=
  ⟨pending.owed - 1, 0x80, 0xBF, pending.seen + 1, 64 * pending.code + byte.toNat % 64⟩

/-- Runs the machine from the character that starts at index `start`.  The
characters read before it are in `done`, the last one first. -/
def scan (done : List Char) (start : Nat) : Option Pending → List UInt8 → Except Defect (List Char)
  | none, [] => .ok done.reverse
  | some _, [] => .error ⟨start, none⟩
  | none, byte :: rest =>
      if byte < 0x80 then scan (Char.ofNat byte.toNat :: done) (start + 1) none rest
      else match opening? byte with
        | none => .error ⟨start, some 1⟩
        | some pending => scan done start (some pending) rest
  | some pending, byte :: rest =>
      if pending.low ≤ byte.toNat ∧ byte.toNat ≤ pending.high then
        let next := pending.extend byte
        if next.owed = 0 then scan (Char.ofNat next.code :: done) (start + next.seen) none rest
        else scan done start (some next) rest
      else .error ⟨start, some pending.seen⟩

/-- The text that the bytes spell. -/
def decode (bytes : List UInt8) : Except Defect String :=
  (scan [] 0 none bytes).map String.ofList

end TagWire.Utf8
