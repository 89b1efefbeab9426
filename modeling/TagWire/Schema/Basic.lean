import TagWire.Calendar.DateTime
import TagWire.Decimal.Fixed
import TagWire.Enumeration
import TagWire.Tag

/-!
# Schemas

A record type has a name, a tag and a list of fields.  A field is one call on
a session: a scalar, text that is always present, or a kind of value that may
be absent.  Kinds hold other values: records of a named type, records of any
type, sequences and mappings of a field.

Record types refer to each other through the names `ι`, so a schema, which
gives the type of each name, may be recursive.
-/

namespace TagWire

/-- Words of fixed width, always present. -/
inductive Scalar where
  | i32 | i64 | f32 | f64 | bool | i8 | i16 | codeUnit
  deriving DecidableEq, Repr

/-- The values of a scalar; floats by their bits. -/
abbrev Scalar.Carrier : Scalar → Type
  | i32 => Int32
  | i64 => Int64
  | f32 => UInt32
  | f64 => UInt64
  | bool => Bool
  | i8 => Int8
  | i16 => Int16
  | codeUnit => UInt16

/-- The scalar of a fresh record. -/
def Scalar.blank : (s : Scalar) → s.Carrier
  | i32 => 0
  | i64 => 0
  | f32 => 0
  | f64 => 0
  | bool => false
  | i8 => 0
  | i16 => 0
  | codeUnit => 0

/-- Kinds of values that hold no other values.  The variants of an enumeration are
known by identifiers, which need not be their names on the wire. -/
inductive Leaf where
  | text | decimal | fixed | date | timestamp | dateTime | bytes
  | enumName (e : Enumeration String)
  | enumOrdinal (e : Enumeration String)

/-- The values of a leaf. -/
abbrev Leaf.Carrier : Leaf → Type
  | text => String
  | decimal => Decimal
  | fixed => FixedDecimal
  | date => Date
  | timestamp => DateTime
  | dateTime => DateTime
  | bytes => List UInt8
  | enumName _ => String
  | enumOrdinal _ => String

mutual

/-- What one field of a record, or one item of a collection, may be. -/
inductive Field (ι : Type) where
  | scalar (s : Scalar)
  /-- Text that the session itself requires. -/
  | string
  /-- A value that may be absent. -/
  | optional (k : Kind ι)
  /-- A value that is always written.  Where it is absent on the wire, the code that
  reads the field refuses it as missing `what`. -/
  | required (what : String) (k : Kind ι)
  /-- A switch that is not on the wire.  While it is set, the code that writes the
  record refuses to do so for want of `what`. -/
  | guard (what : String)

/-- A kind of value for which the wire has a form of absence. -/
inductive Kind (ι : Type) where
  | leaf (l : Leaf)
  /-- A record of this type. -/
  | nested (type : ι)
  /-- A record of any type, which carries its tag. -/
  | dynamic
  /-- A sequence of items. -/
  | seq (item : Field ι)
  /-- A mapping from text. -/
  | map (value : Field ι)

end

/-- Whether a fresh record has a value for the field. -/
def Field.hasBlank {ι : Type} : Field ι → Bool
  | .required _ _ => false
  | _ => true

/-- A named list of fields. -/
structure RecordType (ι : Type) where
  name : String
  /-- The hash of the name unless it is pinned. -/
  tag : TypeTag := TypeTag.ofName name
  fields : List (Field ι)
  /-- A record starts out with a value for each field. -/
  blank_fields : fields.all Field.hasBlank = true := by rfl

/-- The record types of the names `ι`. -/
abbrev Schema (ι : Type) := ι → RecordType ι

end TagWire
