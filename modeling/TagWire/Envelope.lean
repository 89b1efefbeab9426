import TagWire.Schema.Merging
import TagWire.Schema.Writing

/-!
# Envelopes

An envelope is the magic number and the tag of a record's type, and its
fields follow.  Encoding writes it, decoding checks it against the type that
is expected, and peeking reads no further than the tag.  Bytes behind the
fields are not looked at.

`decodeInto` and `mergeFrom` both replace a record by a decoded one.  They
differ in what a failure leaves: the first keeps the record whole, the second
keeps the fields that were read before.
-/

namespace TagWire

variable {ι : Type} {S : Schema ι}

/-- Writes a record with its envelope to a sink. -/
def Instance.encodeTo (sink : Sink) (limits : Limits) (x : Instance S) :
    Except Fault Unit × Sink :=
  match x.write { sink, limits } with
  | .ok _ w => (.ok (), w.sink)
  | .error failure w => (.error failure.fault, w.sink)

/-- The bytes of a record with its envelope. -/
def Instance.encodeWith (limits : Limits) (x : Instance S) : Except Fault (List UInt8) :=
  match x.encodeTo {} limits with
  | (.ok _, sink) => .ok sink.held
  | (.error fault, _) => .error fault

/-- The bytes of a record under the default limits. -/
def Instance.encode (x : Instance S) : Except Fault (List UInt8) := x.encodeWith {}

namespace Envelope

/-- Runs a program on a new session without a resolver. -/
def run {α : Type} (program : Read ι α) (source : Source) (limits : Limits) :
    Except Fault α × Source :=
  match program { source, limits } with
  | .ok a r => (.ok a, r.source)
  | .error failure r => (.error failure.fault, r.source)

/-- Reads a record of type `t` with its envelope. -/
def readFrom (S : Schema ι) (t : ι) (source : Source) (limits : Limits) :
    Except Fault (Record S (S t).fields) × Source :=
  run (do Read.expectEnvelope (S t).tag; S.read t) source limits

/-- The record of type `t` that the bytes begin with. -/
def decode (S : Schema ι) (t : ι) (bytes : List UInt8) : Except Fault (Record S (S t).fields) :=
  (readFrom S t (Source.ofBytes bytes) {}).1

/-- The tag that the bytes announce. -/
def peek (bytes : List UInt8) : Except Fault TypeTag :=
  (run (ι := Empty) Read.envelope (Source.ofBytes bytes) {}).1

/-- Replaces a record by the decoded one, if all of it decodes. -/
def decodeInto {t : ι} (bytes : List UInt8) (target : Record S (S t).fields) :
    Record S (S t).fields × Except Fault Unit :=
  match decode S t bytes with
  | .ok decoded => (decoded, .ok ())
  | .error fault => (target, .error fault)

/-- Reads a record field by field over another one. -/
def mergeFrom {t : ι} (bytes : List UInt8) (target : Record S (S t).fields) :
    Record S (S t).fields × Except Fault Unit :=
  let limits : Limits := {}
  match Read.expectEnvelope (S t).tag { source := Source.ofBytes bytes, limits } with
  | .error failure _ => (target, .error failure.fault)
  | .ok _ r =>
      match (target.merge (readRecord limits.maxDepth) r).1 with
      | (merged, none) => (merged, .ok ())
      | (merged, some failure) => (merged, .error failure.fault)

end Envelope

end TagWire
