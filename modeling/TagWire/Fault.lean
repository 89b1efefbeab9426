import TagWire.Calendar.DateTime
import TagWire.Decimal.Basic
import TagWire.Tag

/-!
# Faults

Everything that can go wrong between a value and its bytes, as causes.
`Fault.message` is the wording of a cause.  A `Failure` also says who raised
it: the session itself, or the caller's own code that runs inside a session.
-/

namespace TagWire

/-- What was being read when the input ended. -/
inductive Part where
  | magicNumber | i32 | i64 | f32 | f64 | bool | i8 | i16 | codeUnit
  | text | decimalMagnitude | bytes | frame | frameHeader
  deriving DecidableEq, Repr

/-- The part in words. -/
def Part.label : Part → String
  | magicNumber => "magic number"
  | i32 => "i32"
  | i64 => "i64"
  | f32 => "f32"
  | f64 => "f64"
  | bool => "bool"
  | i8 => "i8"
  | i16 => "i16"
  | codeUnit => "code unit"
  | text => "text"
  | decimalMagnitude => "decimal magnitude"
  | bytes => "bytes"
  | frame => "frame"
  | frameHeader => "frame header"

/-- What a length or a count in front of it is the size of. -/
inductive Sized where
  | text | bytes | decimalMagnitude | sequence | mapping | frame
  deriving DecidableEq, Repr

/-- The sized thing in words. -/
def Sized.label : Sized → String
  | text => "text"
  | bytes => "bytes"
  | decimalMagnitude => "decimal magnitude"
  | sequence => "sequence"
  | mapping => "mapping"
  | frame => "frame"

/-- Failures of a sink or a source. -/
inductive TransferFault where
  /-- The sink takes nothing more. -/
  | closed
  /-- The sink takes no byte and reports no failure. -/
  | wroteNothing
  /-- The sink could not be flushed. -/
  | flushFailed
  /-- The source broke. -/
  | sourceFailed
  deriving DecidableEq, Repr

/-- The failure in words. -/
def TransferFault.message : TransferFault → String
  | closed => "closed"
  | wroteNothing => "failed to write whole buffer"
  | flushFailed => "flush failed"
  | sourceFailed => "source failed"

/-- Why a value cannot be written or bytes cannot be read. -/
inductive Fault where
  | badMagic (found : UInt32)
  | typeMismatch (expected found : TypeTag)
  | unknownType (tag : TypeTag)
  | truncated (part : Part)
  | transfer (cause : TransferFault)
  | invalidLength (kind : Sized) (length : Int)
  | lengthLimitExceeded (kind : Sized) (length limit : Nat)
  | invalidUtf8 (defect : Utf8.Defect)
  | missingValue (what : String)
  | decimalOutOfRange (cause : Decimal.RangeFault)
  | dateOutOfRange (day : Int64)
  | timestampOutOfRange (cause : Calendar.TimeFault)
  | unknownVariant (enumeration value : String)
  | depthExceeded (limit : Nat)
  | noResolver (tag : TypeTag)
  | poisoned
  /-- A value is not of the type that was asked for.  Both types go by their wire names, not by
  the paths of their declarations in a program. -/
  | wrongType (expected found : String)
  deriving DecidableEq, Repr

/-- The fault in words. -/
def Fault.message : Fault → String
  | badMagic found => "Invalid magic number: " ++ Digits.hexWord found
  | typeMismatch expected found =>
      "Type tag mismatch: expected " ++ expected.display ++ " but got " ++ found.display
  | unknownType tag => "No type registered for tag " ++ tag.display
  | truncated part => "Input ended while reading " ++ part.label
  | transfer cause => "IO error: " ++ cause.message
  | invalidLength kind length => "Invalid " ++ kind.label ++ s!" length: {length}"
  | lengthLimitExceeded kind length limit =>
      kind.label ++ s!" length {length} exceeds limit {limit}"
  | invalidUtf8 defect => "Text is not valid UTF-8: " ++ defect.message
  | missingValue what => "Missing required " ++ what
  | decimalOutOfRange cause => "Decimal out of range: " ++ cause.message
  | dateOutOfRange day => s!"Epoch day {day} is outside the supported date range"
  | timestampOutOfRange cause => "Timestamp out of range: " ++ cause.message
  | unknownVariant enumeration value => "Unknown " ++ enumeration ++ " variant: " ++ value
  | depthExceeded limit => s!"Nesting depth exceeded limit of {limit}"
  | noResolver tag =>
      "Dynamic value with tag " ++ tag.display ++ " needs a resolver on the session"
  | poisoned => "Session cannot be used after an earlier fault"
  | wrongType expected found => "Expected " ++ expected ++ " but value is " ++ found

/-- A fault and who raised it. -/
inductive Failure where
  /-- Raised by a session, which is poisoned from then on. -/
  | session (fault : Fault)
  /-- Raised by the caller's code for a value's fields, which the session only
  passes on. -/
  | caller (fault : Fault)
  deriving DecidableEq, Repr

/-- The fault alone. -/
def Failure.fault : Failure → Fault
  | session fault => fault
  | caller fault => fault

end TagWire
