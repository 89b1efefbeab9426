import TagWire.Bytes.BigEndian
import TagWire.Calendar.Parts
import TagWire.Decimal.Fixed
import TagWire.Decimal.Parts
import TagWire.Enumeration
import TagWire.Limits
import TagWire.Session.Source
import TagWire.Session.Writer

/-!
# Read sessions

A reader has one call for each call of a writer and consumes exactly the
bytes which that call produced.  Whatever is wrong with the bytes poisons the
session: it may stand in the middle of a value, so no later call reads on.

Nested and dynamic values count as open while their fields are read, and no
more of them may be open at once than the limits allow.  The count is the
same after a call as before it, whether the call succeeds or fails.

`ι` are the types that dynamic values may have; the resolver finds the type
of a tag.
-/

namespace TagWire

/-- The state of a read session. -/
structure Reader (ι : Type) where
  source : Source
  limits : Limits := {}
  /-- Finds the types of dynamic values. -/
  resolver? : Option (TypeTag → Except Fault ι) := none
  /-- How many nested and dynamic values are open. -/
  depth : Nat := 0
  /-- Whether the session has raised a fault. -/
  poisoned : Bool := false

/-- Programs of calls on a read session. -/
abbrev Read (ι α : Type) := EStateM Failure (Reader ι) α

namespace Read

variable {ι α β : Type}

/-- Raises a fault of the session and poisons it. -/
def fail (fault : Fault) : Read ι α := fun r =>
  .error (.session fault) { r with poisoned := true }

/-- Raises a fault of the caller's own, which leaves the session as it is. -/
def refuse (fault : Fault) : Read ι α := fun r => .error (.caller fault) r

/-- The result of a conversion, whose fault becomes one of the session. -/
def converted : Except Fault α → Read ι α
  | .ok a => pure a
  | .error fault => fail fault

/-- Takes the `n` bytes of a part. -/
def take (part : Part) (n : Nat) : Read ι (List UInt8) := fun r =>
  if r.poisoned then .error (.session .poisoned) r
  else match r.source.demand n with
    | (.ok bytes, source) => .ok bytes { r with source }
    | (.error shortfall, source) =>
        .error (.session (shortfall.fault part)) { r with source, poisoned := true }

/-- A big-endian word of `width` bytes. -/
def word (part : Part) (width : Nat) : Read ι Nat := do
  return BigEndian.decode (← take part width)

/-! ## Words of fixed width -/

/-- An integer of 32 bits. -/
def i32 : Read ι Int32 := do return (UInt32.ofNat (← word .i32 4)).toInt32

/-- An integer of 64 bits. -/
def i64 : Read ι Int64 := do return (UInt64.ofNat (← word .i64 8)).toInt64

/-- The bits of a float of 32 bits. -/
def f32 : Read ι UInt32 := do return UInt32.ofNat (← word .f32 4)

/-- The bits of a float of 64 bits. -/
def f64 : Read ι UInt64 := do return UInt64.ofNat (← word .f64 8)

/-- Any byte but zero is true. -/
def bool : Read ι Bool := do return (← word .bool 1) ≠ 0

/-- An integer of 8 bits. -/
def i8 : Read ι Int8 := do return (UInt8.ofNat (← word .i8 1)).toInt8

/-- An integer of 16 bits. -/
def i16 : Read ι Int16 := do return (UInt16.ofNat (← word .i16 2)).toInt16

/-- A UTF-16 code unit, paired or not. -/
def codeUnit : Read ι UInt16 := do return UInt16.ofNat (← word .codeUnit 2)

/-- The tag behind the magic number. -/
def envelope : Read ι TypeTag := do
  let found := UInt32.ofNat (← word .magicNumber 4)
  if found = magicNumber then return ⟨← i32⟩ else fail (.badMagic found)

/-- An envelope that must carry this tag. -/
def expectEnvelope (expected : TypeTag) : Read ι Unit := do
  let found ← envelope
  if found = expected then return () else fail (.typeMismatch expected found)

/-- A length or a count that the limits allow, or nothing for the mark of absence. -/
def length? (kind : Sized) : Read ι (Option Nat) := do
  let n ← i32
  let limit := (← get).limits.maxLength
  if n = absentMark then return none
  else if n < 0 then fail (.invalidLength kind n.toInt)
  else if limit < n.toInt.toNat then fail (.lengthLimitExceeded kind n.toInt.toNat limit)
  else return some n.toInt.toNat

/-- A length behind a byte that says what follows is present. -/
def length (kind : Sized) : Read ι Nat := do
  match ← length? kind with
  | some n => return n
  | none => fail (.invalidLength kind absentMark.toInt)

/-- What follows the byte that says whether it is present. -/
def whenPresent (rest : Read ι α) : Read ι (Option α) := do
  if ← bool then return some (← rest) else return none

/-! ## Kinds that may be absent -/

/-- Text of exactly the announced number of bytes. -/
def text : Read ι (Option String) := do
  match ← length? .text with
  | none => return none
  | some n =>
      let spelled ← take .text n
      return some (← converted ((Utf8.decode spelled).mapError .invalidUtf8))

/-- Text that must be present. -/
def string : Read ι String := do
  match ← text with
  | some v => return v
  | none => fail (.missingValue "text")

/-- A decimal with any unscaled bytes, not only the shortest. -/
def decimal : Read ι (Option Decimal) := whenPresent do
  let scale ← i32
  let n ← length .decimalMagnitude
  let unscaled ← take .decimalMagnitude n
  converted ((Decimal.ofParts scale unscaled).mapError .decimalOutOfRange)

/-- A decimal that a fixed decimal must hold exactly. -/
def fixed : Read ι (Option FixedDecimal) := do
  match ← decimal with
  | none => return none
  | some v => return some (← converted (v.toFixed.mapError .decimalOutOfRange))

/-- A date in the supported range. -/
def date : Read ι (Option Date) := whenPresent do
  converted (Date.ofDay (← i64))

/-- A timestamp in the supported range, possibly in a leap second. -/
def timestamp : Read ι (Option DateTime) := whenPresent do
  let seconds ← i64
  let nanos ← i32
  converted (DateTime.ofTimestamp seconds nanos)

/-- A date-time in the supported range. -/
def dateTime : Read ι (Option DateTime) := whenPresent do
  let day ← i64
  let nano ← i64
  converted (DateTime.ofDayAndNano day nano)

/-- Exactly the announced number of bytes. -/
def bytes : Read ι (Option (List UInt8)) := whenPresent do
  let n ← length .bytes
  take .bytes n

/-- Reads fields with one more value open, unless too many are open already. -/
def within (fields : Read ι α) : Read ι α := fun r =>
  if r.limits.maxDepth ≤ r.depth then fail (.depthExceeded r.limits.maxDepth) r
  else match fields { r with depth := r.depth + 1 } with
    | .ok a r => .ok a { r with depth := r.depth - 1 }
    | .error failure r => .error failure { r with depth := r.depth - 1 }

/-- A value of a known type, given by the program that reads its fields. -/
def nested (fields : Read ι α) : Read ι (Option α) := whenPresent (within fields)

/-- A value whose type the resolver finds by its tag. -/
def dynamic (fields : ι → Read ι α) : Read ι (Option α) := whenPresent do
  let tag : TypeTag := ⟨← i32⟩
  match (← get).resolver? with
  | none => fail (.noResolver tag)
  | some resolve =>
      let type ← converted (resolve tag)
      within (fields type)

/-- A value of an enumeration by its name. -/
def enumName {V : Type} (e : Enumeration V) : Read ι (Option V) := do
  match ← text with
  | none => return none
  | some name =>
      match e.ofName? name with
      | some v => return some v
      | none => fail (.unknownVariant e.label name)

/-- A value of an enumeration by its ordinal. -/
def enumOrdinal {V : Type} (e : Enumeration V) : Read ι (Option V) := do
  let ordinal ← i32
  if ordinal = absentMark then return none
  else match e.ofOrdinal? ordinal with
    | some v => return some v
    | none => fail (.unknownVariant e.label (toString ordinal))

/-- A number of items, one after the other. -/
def times (item : Read ι α) : Nat → Read ι (List α)
  | 0 => return []
  | n + 1 => do
      let first ← item
      return first :: (← times item n)

/-- A sequence of items. -/
def seq (item : Read ι α) : Read ι (Option (List α)) := do
  match ← length? .sequence with
  | none => return none
  | some n => return some (← times item n)

/-- A mapping as the list of its pairs in the order of the wire. -/
def map (key : Read ι α) (value : Read ι β) : Read ι (Option (List (α × β))) := do
  match ← length? .mapping with
  | none => return none
  | some n =>
      return some (← times (do
        let k ← key
        return (k, ← value)) n)

end Read

end TagWire
