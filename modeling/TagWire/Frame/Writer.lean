import TagWire.Envelope

/-!
# Writing frames

A frame is the length of an envelope with its fields, as a 32-bit word, and
then these bytes.  A record is encoded whole before the first byte of its
frame is written, so what cannot be encoded leaves no trace.
-/

namespace TagWire

/-- A sink for frames. -/
structure FrameWriter where
  sink : Sink
  limits : Limits := {}
  /-- How many frames were written whole. -/
  frames : Nat := 0
  deriving DecidableEq, Repr

namespace FrameWriter

variable {ι : Type} {S : Schema ι}

/-- The length and the body of a record's frame. -/
def frame (limits : Limits) (x : Instance S) : Except Fault (List UInt8 × List UInt8) := do
  let body ← x.encodeWith limits
  if limits.writable < body.length then
    throw (.lengthLimitExceeded .frame body.length limits.writable)
  else return (BigEndian.encode 4 body.length, body)

/-- Writes a record as one frame. -/
def write (writer : FrameWriter) (x : Instance S) : Except Fault Unit × FrameWriter :=
  match frame writer.limits x with
  | .error fault => (.error fault, writer)
  | .ok (header, body) =>
      match writer.sink.write header with
      | (.error cause, sink) => (.error (.transfer cause), { writer with sink })
      | (.ok _, sink) =>
          match sink.write body with
          | (.error cause, sink) => (.error (.transfer cause), { writer with sink })
          | (.ok _, sink) => (.ok (), { writer with sink, frames := writer.frames + 1 })

/-- Flushes the sink. -/
def flush (writer : FrameWriter) : Except Fault Unit := writer.sink.flush.mapError .transfer

end FrameWriter

end TagWire
