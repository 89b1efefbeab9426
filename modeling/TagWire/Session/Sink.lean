import TagWire.Fault

/-!
# Sinks

A sink takes bytes, at most as many as its capacity.  A part of a write may
fit while the rest does not: the sink then holds as much as fits, so it
always holds a beginning of what was written to it.  Writing no bytes
succeeds even when the sink is full.
-/

namespace TagWire

/-- Where bytes are written to. -/
structure Sink where
  /-- The number of bytes it takes in all, if there is a bound. -/
  capacity? : Option Nat := none
  /-- How a full sink answers a write. -/
  whenFull : TransferFault := .closed
  /-- Whether flushing it fails. -/
  flushFails : Bool := false
  /-- What it has taken so far. -/
  held : List UInt8 := []
  deriving DecidableEq, Repr, Inhabited

namespace Sink

/-- The bytes of a run that still fit. -/
def fitting (sink : Sink) (bytes : List UInt8) : List UInt8 :=
  match sink.capacity? with
  | none => bytes
  | some capacity => bytes.take (capacity - sink.held.length)

/-- Writes as much as fits, and fails if that is not all. -/
def write (sink : Sink) (bytes : List UInt8) : Except TransferFault Unit × Sink :=
  let taken := sink.fitting bytes
  let after := { sink with held := sink.held ++ taken }
  if taken.length = bytes.length then (.ok (), after) else (.error sink.whenFull, after)

/-- Asks the sink to pass on what it holds. -/
def flush (sink : Sink) : Except TransferFault Unit :=
  if sink.flushFails then .error .flushFailed else .ok ()

end Sink

end TagWire
