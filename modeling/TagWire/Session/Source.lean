import TagWire.Fault

/-!
# Sources

A source delivers bytes in portions of any length and may interrupt a read
call or fail.  It is described by what its read calls will meet: a portion of
at least one byte, of which a call takes no more than it asks for, an
interruption, after which a reader asks again, or a failure, which stays.
Where nothing is left, the data is at its end.

`demand` asks until it has exactly the bytes it wants.  It never touches the
source once it has them, so asking for no bytes does not touch it at all.
-/

namespace TagWire

/-- How a source breaks. -/
inductive Breakage where
  /-- It reports that its data ended where there should be more. -/
  | endOfFile
  /-- It reports anything else. -/
  | brokenPipe
  deriving DecidableEq, Repr

namespace Source

/-- What the read calls on a source meet. -/
inductive Event where
  /-- Bytes to deliver, at least one. -/
  | portion (first : UInt8) (more : List UInt8)
  | interruption
  | failure (breakage : Breakage)
  deriving DecidableEq, Repr

end Source

/-- Where bytes are read from: the events to come. -/
abbrev Source := List Source.Event

namespace Source

/-- The portion of some bytes, if there are any. -/
def portion? : List UInt8 → Option Event
  | [] => none
  | first :: more => some (.portion first more)

/-- Puts bytes in front of a source. -/
def push (bytes : List UInt8) (source : Source) : Source := (portion? bytes).toList ++ source

/-- The source that delivers these bytes without any trouble. -/
def ofBytes (bytes : List UInt8) : Source := push bytes []

/-- The bytes that one event delivers. -/
def Event.bytes : Event → List UInt8
  | portion first more => first :: more
  | interruption => []
  | failure _ => []

/-- All bytes that a source still holds, those behind a failure included. -/
def bytes (source : Source) : List UInt8 := source.flatMap Event.bytes

/-- Why fewer bytes came than were asked for. -/
inductive Shortfall where
  /-- The data ended after this many of them. -/
  | ended (got : Nat)
  /-- The source broke. -/
  | broke (breakage : Breakage)
  deriving DecidableEq, Repr

/-- A shortfall behind bytes that had come before it. -/
def Shortfall.after (count : Nat) : Shortfall → Shortfall
  | ended got => ended (count + got)
  | broke breakage => broke breakage

/-- A shortfall as a reader of `part` reports it: the end of the data in whatever
form is a truncation. -/
def Shortfall.fault (part : Part) : Shortfall → Fault
  | ended _ => .truncated part
  | broke .endOfFile => .truncated part
  | broke .brokenPipe => .transfer .sourceFailed

/-- Exactly `n` bytes, asking again after interruptions and short portions. -/
def demand (n : Nat) (source : Source) : Except Shortfall (List UInt8) × Source :=
  if n = 0 then (.ok [], source)
  else match source with
    | [] => (.error (.ended 0), [])
    | .interruption :: later => demand n later
    | .failure breakage :: later => (.error (.broke breakage), .failure breakage :: later)
    | .portion first more :: later =>
        let delivered := first :: more
        match delivered.drop n with
        | next :: rest => (.ok (delivered.take n), .portion next rest :: later)
        | [] =>
          match demand (n - delivered.length) later with
          | (.ok bytes, left) => (.ok (delivered ++ bytes), left)
          | (.error shortfall, left) => (.error (shortfall.after delivered.length), left)

end Source

end TagWire
