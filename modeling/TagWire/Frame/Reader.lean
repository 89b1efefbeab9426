import TagWire.Registry.Decoding

/-!
# Reading frames

A frame is taken from the source whole before it is decoded, so a payload that
does not decode, or that leaves bytes of its frame, cannot reach into the next
one.  The stream ends where the data ends between two frames.  After that,
and after any fault, nothing more is read.
-/

namespace TagWire

/-- A source of frames. -/
structure FrameReader where
  source : Source
  /-- Whether the stream has ended or failed. -/
  finished : Bool := false

namespace FrameReader

variable {ι : Type} {S : Schema ι}

/-- The length in front of a frame, or nothing if the data ends before it.  A source
that breaks inside is reported as such, however it breaks. -/
def header? (source : Source) : Except Fault (Option Int32) × Source :=
  match source.demand 4 with
  | (.ok bytes, source) => (.ok (some (UInt32.ofNat (BigEndian.decode bytes)).toInt32), source)
  | (.error (.ended 0), source) => (.ok none, source)
  | (.error (.ended _), source) => (.error (.truncated .frameHeader), source)
  | (.error (.broke _), source) => (.error (.transfer .sourceFailed), source)

/-- The bytes of a frame of an announced length. -/
def body (limit : Nat) (length : Int32) (source : Source) : Except Fault (List UInt8) × Source :=
  let n := length.toInt.toNat
  if length < 0 then (.error (.invalidLength .frame length.toInt), source)
  else if limit < n then (.error (.lengthLimitExceeded .frame n limit), source)
  else
    match source.demand n with
    | (.ok bytes, source) => (.ok bytes, source)
    | (.error shortfall, source) => (.error (shortfall.fault .frame), source)

/-- The record in the next frame, or nothing at the end of the data. -/
def next? (registry : Registry S) (source : Source) :
    Except Fault (Option (Instance S)) × Source :=
  match header? source with
  | (.error fault, source) => (.error fault, source)
  | (.ok none, source) => (.ok none, source)
  | (.ok (some length), source) =>
      match body registry.config.codec.maxLength length source with
      | (.error fault, source) => (.error fault, source)
      | (.ok bytes, source) => ((registry.decode bytes).map some, source)

/-- Reads the next frame, unless the stream has ended or failed. -/
def readFrame (registry : Registry S) (reader : FrameReader) :
    Except Fault (Option (Instance S)) × FrameReader :=
  if reader.finished then (.ok none, reader)
  else
    match next? registry reader.source with
    | (.ok (some x), source) => (.ok (some x), { reader with source })
    | (outcome, source) => (outcome, { source, finished := true })

/-- What the frames hold, to the end of the stream or its first fault.  No more than
`limit` frames are read. -/
def readUpTo (registry : Registry S) :
    (limit : Nat) → FrameReader → List (Except Fault (Instance S)) × FrameReader
  | 0, reader => ([], reader)
  | limit + 1, reader =>
      match reader.readFrame registry with
      | (.ok none, reader) => ([], reader)
      | (.error fault, reader) => ([.error fault], reader)
      | (.ok (some x), reader) =>
          let (later, reader) := readUpTo registry limit reader
          (.ok x :: later, reader)

/-- What all frames of a stream hold.  As a frame takes at least the four bytes of
its length, a source has fewer frames than bytes. -/
def readAll (registry : Registry S) (reader : FrameReader) :
    List (Except Fault (Instance S)) × FrameReader :=
  reader.readUpTo registry (reader.source.bytes.length + 1)

end FrameReader

end TagWire
