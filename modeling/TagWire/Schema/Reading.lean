import TagWire.Schema.Value
import TagWire.Session.Reader

/-!
# Reading values of a schema

Fields are read in their order by the calls that match the ones which wrote
them.  What is recursive in a schema is passed along as `inner`, the program
that reads a record of each type.  `readRecord` ties the knot for a number of
levels: as a session allows only so many open values, one level more than
that is never entered.
-/

namespace TagWire

variable {ι : Type} {S : Schema ι}

/-- The call that reads a scalar. -/
def Scalar.read : (s : Scalar) → Read ι s.Carrier
  | i32 => Read.i32
  | i64 => Read.i64
  | f32 => Read.f32
  | f64 => Read.f64
  | bool => Read.bool
  | i8 => Read.i8
  | i16 => Read.i16
  | codeUnit => Read.codeUnit

/-- The call that reads a leaf or its absence. -/
def Leaf.read : (l : Leaf) → Read ι (Option l.Carrier)
  | text => Read.text
  | decimal => Read.decimal
  | fixed => Read.fixed
  | date => Read.date
  | timestamp => Read.timestamp
  | dateTime => Read.dateTime
  | bytes => Read.bytes
  | enumName e => Read.enumName e
  | enumOrdinal e => Read.enumOrdinal e

mutual

/-- Reads the value of a field. -/
def Field.read (inner : (t : ι) → Read ι (Record S (S t).fields)) :
    (f : Field ι) → Read ι (Value S f)
  | .scalar s => return .scalar s (← s.read)
  | .string => return .string (← Read.string)
  | .optional k => do
      match ← k.read inner with
      | none => return .absent k
      | some item => return .present k item
  | .required what k => do
      match ← k.read inner with
      | none => Read.refuse (.missingValue what)
      | some item => return .required what k item
  | .guard what => return .guard what false

/-- Reads a value that may be absent. -/
def Kind.read (inner : (t : ι) → Read ι (Record S (S t).fields)) :
    (k : Kind ι) → Read ι (Option (Item S k))
  | .leaf l => return (← l.read).map (.leaf l)
  | .nested t => return (← Read.nested (inner t)).map (.nested t)
  | .dynamic => Read.dynamic fun t => return .dynamic t (← inner t)
  | .seq f => return (← Read.seq (f.read inner)).map Item.ofList
  | .map f => return (← Read.map Read.string (f.read inner)).map Item.ofPairs

end

/-- Reads the fields of a record in their order. -/
def readFields (inner : (t : ι) → Read ι (Record S (S t).fields)) :
    (fs : List (Field ι)) → Read ι (Record S fs)
  | [] => return .nil
  | f :: fs => do
      let v ← f.read inner
      return .cons v (← readFields inner fs)

/-- Reads a record whose values are nested in fewer than `levels` levels. -/
def readRecord : (levels : Nat) → (t : ι) → Read ι (Record S (S t).fields)
  | 0, _ => do Read.fail (.depthExceeded (← get).limits.maxDepth)
  | levels + 1, t => readFields (readRecord levels) (S t).fields

/-- Reads a record of a type, to any depth that the limits allow. -/
def Schema.read (S : Schema ι) (t : ι) : Read ι (Record S (S t).fields) := do
  readRecord ((← get).limits.maxDepth + 1) t

end TagWire
