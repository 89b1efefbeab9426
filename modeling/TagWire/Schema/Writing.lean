import TagWire.Schema.Value
import TagWire.Session.Writer

/-!
# Writing values of a schema

Each value is a program of calls on a write session, one call for each field
in their order.
-/

namespace TagWire

variable {ι : Type} {S : Schema ι}

/-- The call that writes a scalar. -/
def Scalar.write : (s : Scalar) → s.Carrier → Write Unit
  | i32 => Write.i32
  | i64 => Write.i64
  | f32 => Write.f32
  | f64 => Write.f64
  | bool => Write.bool
  | i8 => Write.i8
  | i16 => Write.i16
  | codeUnit => Write.codeUnit

/-- The call that writes a leaf or its absence. -/
def Leaf.write : (l : Leaf) → Option l.Carrier → Write Unit
  | text => Write.text
  | decimal => Write.decimal
  | fixed => Write.fixed
  | date => Write.date
  | timestamp => Write.timestamp
  | dateTime => Write.dateTime
  | bytes => Write.bytes
  | enumName e => Write.enumName e
  | enumOrdinal e => Write.enumOrdinal e

/-- The call that writes the absence of a value. -/
def Kind.writeAbsent : Kind ι → Write Unit
  | .leaf l => l.write none
  | .nested _ => Write.nested none
  | .dynamic => Write.dynamic none
  | .seq _ => Write.seq none
  | .map _ => Write.map none

mutual

/-- Writes the value of a field. -/
def Value.write {f : Field ι} : Value S f → Write Unit
  | .scalar s v => s.write v
  | .string v => Write.string v
  | .absent k => k.writeAbsent
  | .present _ item => item.write
  | .required _ _ item => item.write
  | .guard what refuses => if refuses then Write.refuse (.missingValue what) else pure ()

/-- Writes a value that is present. -/
def Item.write {k : Kind ι} : Item S k → Write Unit
  | .leaf l v => l.write (some v)
  | .nested _ fields => Write.nested (some (fields.programs.forM id))
  | .dynamic t fields => Write.dynamic (some ((S t).tag, fields.programs.forM id))
  | .seq _ _ items => Write.seq (some items.programs)
  | .map _ keys _ values => Write.map (some ((keys.map Write.string).zip values.programs))

/-- The programs that write the fields of a record. -/
def Record.programs {fs : List (Field ι)} : Record S fs → List (Write Unit)
  | .nil => []
  | .cons v rest => v.write :: rest.programs

end

/-- Writes the fields of a record in their order. -/
def Record.write {fs : List (Field ι)} (record : Record S fs) : Write Unit :=
  record.programs.forM id

/-- Writes an envelope and the fields of a record. -/
def Instance.write (x : Instance S) : Write Unit := do
  Write.envelope x.tag
  x.fields.write

end TagWire
