import TagWire.Envelope
import TagWire.Registry.Basic

/-!
# Decoding through a registry

A registry decodes envelopes of any registered type, and the dynamic values
in them resolve through the registry as well.
-/

namespace TagWire.Registry

variable {ι : Type} {S : Schema ι}

/-- A read session with the limits of the registry, which resolves dynamic values. -/
def session (registry : Registry S) (source : Source) : Reader ι :=
  { source, limits := registry.config.codec, resolver? := some registry.resolve }

/-- Reads an envelope and then the fields of the type with its tag. -/
def readInstance (registry : Registry S) : Read ι (Instance S) := do
  match registry.resolve (← Read.envelope) with
  | .error fault => Read.refuse fault
  | .ok t => return ⟨t, ← S.read t⟩

/-- Reads one record of any registered type. -/
def readFrom (registry : Registry S) (source : Source) :
    Except Fault (Instance S) × Source :=
  match registry.readInstance (registry.session source) with
  | .ok found r => (.ok found, r.source)
  | .error failure r => (.error failure.fault, r.source)

/-- The record of any registered type that the bytes begin with. -/
def decode (registry : Registry S) (bytes : List UInt8) : Except Fault (Instance S) :=
  (registry.readFrom (Source.ofBytes bytes)).1

/-- The record that the bytes begin with, if it is of type `t`.  The fault for a record of
another type names both types as on the wire.  A program would name the type that it asked for
by the path of its declaration; this path is not modelled. -/
def decodeAs [DecidableEq ι] (registry : Registry S) (t : ι) (bytes : List UInt8) :
    Except Fault (Record S (S t).fields) := do
  let found ← registry.decode bytes
  match found.as? t with
  | some record => return record
  | none => throw (.wrongType (S t).name found.typeName)

end TagWire.Registry
