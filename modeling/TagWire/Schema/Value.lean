import TagWire.Schema.Basic
import TagWire.Text.SortedMap

/-!
# Values of a schema

For each field of a schema there is the type of its values, and for each list
of fields the type of the records with those fields.  A sequence of `n` items
is a record of `n` equal fields, and a mapping has a record of its values
beside the ascending list of its keys.
-/

namespace TagWire

variable {ι : Type}

mutual

/-- The values of a field. -/
inductive Value (S : Schema ι) : Field ι → Type where
  | scalar (s : Scalar) (v : s.Carrier) : Value S (.scalar s)
  | string (v : String) : Value S .string
  | absent (k : Kind ι) : Value S (.optional k)
  | present (k : Kind ι) (item : Item S k) : Value S (.optional k)
  | required (what : String) (k : Kind ι) (item : Item S k) : Value S (.required what k)
  | guard (what : String) (refuses : Bool) : Value S (.guard what)

/-- The values of a kind that are present. -/
inductive Item (S : Schema ι) : Kind ι → Type where
  | leaf (l : Leaf) (v : l.Carrier) : Item S (.leaf l)
  | nested (t : ι) (fields : Record S (S t).fields) : Item S (.nested t)
  | dynamic (t : ι) (fields : Record S (S t).fields) : Item S .dynamic
  | seq (f : Field ι) (n : Nat) (items : Record S (List.replicate n f)) : Item S (.seq f)
  | map (f : Field ι) (keys : List String) (ascending : keys.Pairwise Utf8.Before)
      (values : Record S (List.replicate keys.length f)) : Item S (.map f)

/-- A value for each field of a list. -/
inductive Record (S : Schema ι) : List (Field ι) → Type where
  | nil : Record S []
  | cons {f : Field ι} {fs : List (Field ι)} (v : Value S f) (rest : Record S fs) :
      Record S (f :: fs)

end

variable {S : Schema ι}

namespace Record

/-- The record of equal fields with these values. -/
def ofList {f : Field ι} : (values : List (Value S f)) → Record S (List.replicate values.length f)
  | [] => .nil
  | v :: rest => .cons v (ofList rest)

/-- The values of a record of equal fields. -/
def toList {f : Field ι} : {n : Nat} → Record S (List.replicate n f) → List (Value S f)
  | 0, _ => []
  | _ + 1, .cons v rest => v :: toList rest

/-- The record of the values of some entries. -/
def ofEntries {f : Field ι} : (entries : List (String × Value S f)) →
    Record S (List.replicate (entries.map Prod.fst).length f)
  | [] => .nil
  | entry :: rest => .cons entry.2 (ofEntries rest)

end Record

namespace Item

/-- The sequence of these items. -/
def ofList {f : Field ι} (values : List (Value S f)) : Item S (.seq f) :=
  .seq f values.length (Record.ofList values)

/-- The mapping of these pairs: sorted, and of several pairs with one key the last. -/
def ofPairs {f : Field ι} (pairs : List (String × Value S f)) : Item S (.map f) :=
  let m := SortedMap.ofPairs pairs
  .map f (m.entries.map Prod.fst) m.ascending (Record.ofEntries m.entries)

end Item

/-- The value of a field in a fresh record. -/
def Value.blank : (f : Field ι) → f.hasBlank = true → Value S f
  | .scalar s, _ => .scalar s s.blank
  | .string, _ => .string ""
  | .optional k, _ => .absent k
  | .guard what, _ => .guard what false

/-- A record whose fields all have their first values. -/
def Record.blank : (fs : List (Field ι)) → fs.all Field.hasBlank = true → Record S fs
  | [], _ => .nil
  | f :: fs, h =>
      have hboth := Bool.and_eq_true_iff.mp (List.all_cons.symm.trans h)
      .cons (Value.blank f hboth.1) (Record.blank fs hboth.2)

/-- A record together with its type. -/
structure Instance (S : Schema ι) where
  type : ι
  fields : Record S (S type).fields

namespace Instance

/-- The name of the record's type. -/
def typeName (x : Instance S) : String := (S x.type).name

/-- The tag of the record's type. -/
def tag (x : Instance S) : TypeTag := (S x.type).tag

/-- A fresh record of a type. -/
def blank (t : ι) : Instance S := ⟨t, Record.blank (S t).fields (S t).blank_fields⟩

/-- The fields of the record, if it is of this type. -/
def as? [DecidableEq ι] (t : ι) (x : Instance S) : Option (Record S (S t).fields) :=
  if h : x.type = t then some (h ▸ x.fields) else none

end Instance

end TagWire
