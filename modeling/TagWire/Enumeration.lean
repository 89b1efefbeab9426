/-!
# Enumerations

A value of an enumeration travels by name or by ordinal.  Both come from the
list of its variants: the ordinal is the first position in the list, and a
name or an ordinal is looked up in it.  A value that is not listed has
ordinal -1 and is never found.
-/

namespace TagWire

/-- The variants of an enumeration in the order of their ordinals. -/
structure Enumeration (V : Type) where
  /-- Name of the enumeration in messages. -/
  label : String
  variants : List V
  name : V → String

namespace Enumeration

variable {V : Type} (e : Enumeration V)

/-- The first position of a variant, -1 for one that is not listed.  Which values are the
same is up to their type. -/
def ordinal [BEq V] (v : V) : Int32 :=
  match e.variants.findIdx? (· == v) with
  | some i => Int32.ofNat i
  | none => -1

/-- The first listed variant of a name. -/
def ofName? (name : String) : Option V := e.variants.find? fun v => e.name v = name

/-- The variant at a position. -/
def ofOrdinal? (ordinal : Int32) : Option V :=
  if ordinal < 0 then none else e.variants[ordinal.toInt.toNat]?

end Enumeration

end TagWire
