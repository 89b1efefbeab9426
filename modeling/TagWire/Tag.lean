import TagWire.Text.Digits
import TagWire.Text.Utf8

/-!
# Type tags

A type is known on the wire by a 32-bit tag.  Unless a type pins its own, the
tag is a hash of its fully qualified name: the polynomial
`s 0 * 31 ^ (n - 1) + … + s (n - 1)` over the UTF-16 code units of the name,
in wrapping arithmetic.  Distinct names may share a tag.

The hash reads the name's UTF-8 bytes.  A name is well formed, so the first
byte of a character alone tells how many bytes follow it, and `codePoints?`
finds its characters without checking anything but that the bytes are there.
-/

namespace TagWire

/-- Stable 32-bit identifier of a type. -/
structure TypeTag where
  value : Int32
  deriving DecidableEq, Hashable, Repr, Inhabited

namespace Utf16

/-- The code units of a code point: itself, or its surrogate pair. -/
def units (codePoint : Nat) : List Nat :=
  if codePoint < 0x10000 then [codePoint]
  else
    let offset := codePoint - 0x10000
    [0xD800 + offset / 0x400, 0xDC00 + offset % 0x400]

end Utf16

namespace TypeTag

/-- How many bytes follow the first byte of a character, and the bits it
contributes itself. -/
def opening (byte : UInt8) : Nat × Nat :=
  let n := byte.toNat
  if n < 0x80 then (0, n)
  else if n < 0xE0 then (1, n % 0x20)
  else if n < 0xF0 then (2, n % 0x10)
  else (3, n % 0x08)

/-- The code points of well-formed UTF-8, or nothing when the bytes end inside
a character.  `code` holds the bits of a character that still owes `owed`
bytes. -/
def codePoints? (owed code : Nat) : List UInt8 → Option (List Nat)
  | [] => if owed = 0 then some [] else none
  | byte :: rest =>
      let (owed, code) :=
        match owed with
        | 0 => opening byte
        | owed + 1 => (owed, 64 * code + byte.toNat % 64)
      if owed = 0 then (codePoints? 0 0 rest).map (code :: ·) else codePoints? owed code rest

/-- One step of the polynomial. -/
def mix (hash : Int32) (unit : Nat) : Int32 := hash * 31 + Int32.ofNat unit

/-- The tag of a name given by its UTF-8 bytes. -/
def ofUtf8? (bytes : List UInt8) : Option TypeTag :=
  (codePoints? 0 0 bytes).map fun points => ⟨(points.flatMap Utf16.units).foldl mix 0⟩

/-- The tag of a name, whose bytes never end inside a character. -/
def ofName (name : String) : TypeTag := (ofUtf8? (Utf8.encode name)).getD ⟨0⟩

/-- The tag as it is shown, such as `0x0000002a`. -/
def display (tag : TypeTag) : String := Digits.hexWord tag.value.toUInt32

end TypeTag

end TagWire
