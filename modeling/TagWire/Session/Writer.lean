import TagWire.Bytes.BigEndian
import TagWire.Calendar.Parts
import TagWire.Decimal.Fixed
import TagWire.Decimal.Parts
import TagWire.Enumeration
import TagWire.Limits
import TagWire.Session.Sink

/-!
# Write sessions

A writer is bound to one sink for its whole life.  There is one call for each
kind of value on the wire, and a program in `Write` is a sequence of calls:
what a record writes, it writes by calling the session for one field after
the other.  Calls that hold other values take the programs that write them.

All words are big-endian.  What may be absent starts with a byte that says
whether it is present, or with a length or a count of which -1 means absence:

    Envelope      MAGIC(u32) TAG(i32) fields
    Text          LENGTH(i32 or -1) bytes
    Decimal       PRESENT [SCALE(i32) LENGTH(i32) bytes]
    Date          PRESENT [DAY(i64)]
    Timestamp     PRESENT [SECOND(i64) NANO(i32)]
    Date-time     PRESENT [DAY(i64) NANO_OF_DAY(i64)]
    Bytes         PRESENT [LENGTH(i32) bytes]
    Nested        PRESENT [fields]
    Dynamic       PRESENT [TAG(i32) fields]
    Enumeration   text of the name, or ORDINAL(i32 or -1)
    Sequence      COUNT(i32 or -1) items
    Mapping       COUNT(i32 or -1) pairs of key and value

The first fault that the session raises poisons it, and from then on no call
touches the sink.  A failure of the caller's own code is only passed on.
-/

namespace TagWire

/-- The first four bytes of every envelope. -/
def magicNumber : UInt32 := 0xD0BACAFE

/-- The length, count or ordinal of what is absent. -/
def absentMark : Int32 := -1

/-- The state of a write session. -/
structure Writer where
  sink : Sink
  limits : Limits := {}
  /-- Whether the session has raised a fault. -/
  poisoned : Bool := false
  deriving DecidableEq, Repr

/-- Programs of calls on a write session. -/
abbrev Write (α : Type) := EStateM Failure Writer α

namespace Write

/-- Raises a fault of the session and poisons it. -/
def fail {α : Type} (fault : Fault) : Write α := fun w =>
  .error (.session fault) { w with poisoned := true }

/-- Raises a fault of the caller's own, which leaves the session as it is. -/
def refuse {α : Type} (fault : Fault) : Write α := fun w => .error (.caller fault) w

/-- The result of a conversion, whose fault becomes one of the session. -/
def converted {α : Type} : Except Fault α → Write α
  | .ok a => pure a
  | .error fault => fail fault

/-- Hands bytes to the sink. -/
def emit (bytes : List UInt8) : Write Unit := fun w =>
  if w.poisoned then .error (.session .poisoned) w
  else match w.sink.write bytes with
    | (.ok (), sink) => .ok () { w with sink }
    | (.error cause, sink) =>
        .error (.session (.transfer cause)) { w with sink, poisoned := true }

/-! ## Words of fixed width -/

/-- An integer of 32 bits. -/
def i32 (v : Int32) : Write Unit := emit (BigEndian.encode 4 v.toUInt32.toNat)

/-- An integer of 64 bits. -/
def i64 (v : Int64) : Write Unit := emit (BigEndian.encode 8 v.toUInt64.toNat)

/-- A float of 32 bits, by its bits. -/
def f32 (v : UInt32) : Write Unit := emit (BigEndian.encode 4 v.toNat)

/-- A float of 64 bits, by its bits. -/
def f64 (v : UInt64) : Write Unit := emit (BigEndian.encode 8 v.toNat)

/-- A truth value in a byte of its own. -/
def bool (v : Bool) : Write Unit := emit [if v then 1 else 0]

/-- An integer of 8 bits. -/
def i8 (v : Int8) : Write Unit := emit [v.toUInt8]

/-- An integer of 16 bits. -/
def i16 (v : Int16) : Write Unit := emit (BigEndian.encode 2 v.toUInt16.toNat)

/-- A UTF-16 code unit, paired or not. -/
def codeUnit (v : UInt16) : Write Unit := emit (BigEndian.encode 2 v.toNat)

/-- The magic number and the tag of what follows. -/
def envelope (tag : TypeTag) : Write Unit := do
  emit (BigEndian.encode 4 magicNumber.toNat)
  i32 tag.value

/-- A length or a count that the limits allow.  The limit is looked at before the
state of the session. -/
def length (kind : Sized) (n : Nat) : Write Unit := do
  let limit := (← get).limits.writable
  if limit < n then fail (.lengthLimitExceeded kind n limit) else i32 (Int32.ofNat n)

/-! ## Kinds that may be absent -/

/-- Text behind the number of its bytes, so empty text is not absent text. -/
def text : Option String → Write Unit
  | none => i32 absentMark
  | some v => do
      let bytes := Utf8.encode v
      length .text bytes.length
      emit bytes

/-- Text that is always present. -/
def string (v : String) : Write Unit := text (some v)

/-- A decimal, converted before its first byte is written. -/
def decimal : Option Decimal → Write Unit
  | none => bool false
  | some v => do
      let (scale, unscaled) ← converted (v.toParts.mapError .decimalOutOfRange)
      bool true
      i32 scale
      length .decimalMagnitude unscaled.length
      emit unscaled

/-- A fixed decimal, laid out as any decimal is. -/
def fixed (v : Option FixedDecimal) : Write Unit := decimal (v.map FixedDecimal.toDecimal)

/-- A date by its epoch day. -/
def date : Option Date → Write Unit
  | none => bool false
  | some v => do
      bool true
      i64 v.day64

/-- A timestamp by its seconds and nanoseconds; leap seconds have a place. -/
def timestamp : Option DateTime → Write Unit
  | none => bool false
  | some v => do
      bool true
      i64 v.toTimestamp.1
      i32 v.toTimestamp.2

/-- A date-time, converted before its first byte is written. -/
def dateTime : Option DateTime → Write Unit
  | none => bool false
  | some v => do
      let (day, nano) ← converted v.toDayAndNano
      bool true
      i64 day
      i64 nano

/-- Bytes behind their number. -/
def bytes : Option (List UInt8) → Write Unit
  | none => bool false
  | some v => do
      bool true
      length .bytes v.length
      emit v

/-- A value of a type that the reader knows, given by the program that writes its
fields. -/
def nested : Option (Write Unit) → Write Unit
  | none => bool false
  | some fields => do
      bool true
      fields

/-- A value that carries the tag of its type. -/
def dynamic : Option (TypeTag × Write Unit) → Write Unit
  | none => bool false
  | some (tag, fields) => do
      bool true
      i32 tag.value
      fields

/-- A value of an enumeration by its name. -/
def enumName {V : Type} (e : Enumeration V) (v : Option V) : Write Unit := text (v.map e.name)

/-- A value of an enumeration by its ordinal. -/
def enumOrdinal {V : Type} [BEq V] (e : Enumeration V) (v : Option V) : Write Unit :=
  i32 ((v.map e.ordinal).getD absentMark)

/-- A sequence, given by the programs that write its items. -/
def seq : Option (List (Write Unit)) → Write Unit
  | none => i32 absentMark
  | some items => do
      length .sequence items.length
      items.forM id

/-- A mapping, given by the programs that write its keys and values, in the order
in which they are to stand. -/
def map : Option (List (Write Unit × Write Unit)) → Write Unit
  | none => i32 absentMark
  | some entries => do
      length .mapping entries.length
      entries.forM fun entry => do
        entry.1
        entry.2

end Write

end TagWire
