import TagWire.Schema.Reading

/-!
# Reading over a record

Merging reads a record's fields over the ones it has.  Each field is replaced
as soon as it is read whole, so after a failure the fields before it are new
and the field itself and all behind it are as they were.
-/

namespace TagWire

variable {ι : Type} {S : Schema ι}

/-- The value of a field after a new one was read.  A field that is not on the wire
keeps its value. -/
def Value.replacedBy {f : Field ι} : Value S f → Value S f → Value S f
  | .guard what refuses, _ => .guard what refuses
  | _, new => new

/-- Reads the fields of a record over it.  The result is the record after that, and
the failure if there was one. -/
def Record.merge (inner : (t : ι) → Read ι (Record S (S t).fields)) :
    {fs : List (Field ι)} → Record S fs → StateM (Reader ι) (Record S fs × Option Failure)
  | _, .nil => return (.nil, none)
  | f :: _, .cons v rest => fun r =>
      match f.read inner r with
      | .error failure r => ((.cons v rest, some failure), r)
      | .ok new r =>
          let ((merged, failure?), r) := rest.merge inner r
          ((.cons (v.replacedBy new) merged, failure?), r)

end TagWire
