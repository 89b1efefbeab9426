import Std.Data.HashSet
import TagWire.Envelope

/-!
# Records compared by their encoding

Two records of a type are the same when they have the same bytes.  Records
that cannot be encoded are all the same, and different from those that can.
-/

namespace TagWire

variable {ι : Type} {S : Schema ι} {t : ι}

/-- A record that equals whatever encodes to the same bytes. -/
structure ByEncoding (S : Schema ι) (t : ι) where
  record : Record S (S t).fields

namespace ByEncoding

/-- The bytes of the record, unless it cannot be encoded. -/
def encoded (x : ByEncoding S t) : Option (List UInt8) :=
  (Instance.encode ⟨t, x.record⟩).toOption

instance : BEq (ByEncoding S t) where
  beq a b := a.encoded == b.encoded

instance : Hashable (ByEncoding S t) where
  hash x := hash x.encoded

/-- How many different records there are among some. -/
def distinct (xs : List (ByEncoding S t)) : Nat := (Std.HashSet.ofList xs).size

end ByEncoding

end TagWire
