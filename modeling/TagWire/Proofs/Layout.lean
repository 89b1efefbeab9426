import TagWire.Proofs.SortedMap
import TagWire.Proofs.Words
import TagWire.Schema.Value
import TagWire.Session.Writer

/-!
# The layout of a value

What a value looks like on the wire, whether it can be written at all, and how
deep its nested and dynamic values lie, each read off the value alone:

* `Value.layout` — the bytes of a value, whatever the limits;
* `Value.writable` — whether every part fits its length field and the limits,
  every decimal its scale, and nothing refuses;
* `Value.nesting` — the nested and dynamic values on its deepest path;
* `Value.Forall` — what holds of all its leaves and of the types of all its
  dynamic values.

A sequence and a mapping are held as records of equal fields.  `Value.induction`
looks at them as the list and as the map which they were made of, so later
proofs meet neither records of equal fields nor lists of keys beside them.
-/

namespace TagWire

variable {ι : Type} {S : Schema ι}

/-! ## Bytes of the parts -/

/-- An integer of 32 bits on the wire. -/
def word32 (v : Int32) : List UInt8 := BigEndian.encode 4 v.toUInt32.toNat

/-- An integer of 64 bits on the wire. -/
def word64 (v : Int64) : List UInt8 := BigEndian.encode 8 v.toUInt64.toNat

/-- A length or a count on the wire. -/
def prefixBytes (n : Nat) : List UInt8 := word32 (Int32.ofNat n)

/-- Text on the wire, behind the number of its bytes. -/
def textLayout (v : String) : List UInt8 :=
  prefixBytes (Utf8.encode v).length ++ Utf8.encode v

/-- The nanosecond of the day at a time that is in no leap second. -/
def TimeOfDay.nanoOfDay (time : TimeOfDay) : Int64 :=
  Int64.ofNat (time.second * Calendar.nanosPerSecond + time.nano)

/-- A decimal on the wire, with the shortest bytes of its unscaled integer. -/
def Decimal.layout (d : Decimal) : List UInt8 :=
  let unscaled := TwosComplement.encode d.unscaled
  1 :: word32 d.scale.toInt32 ++ prefixBytes unscaled.length ++ unscaled

/-- A scalar on the wire. -/
def Scalar.layout : (s : Scalar) → s.Carrier → List UInt8
  | i32, v => word32 v
  | i64, v => word64 v
  | f32, v => BigEndian.encode 4 v.toNat
  | f64, v => BigEndian.encode 8 v.toNat
  | bool, v => [if v then 1 else 0]
  | i8, v => [v.toUInt8]
  | i16, v => BigEndian.encode 2 v.toUInt16.toNat
  | codeUnit, v => BigEndian.encode 2 v.toNat

/-- A leaf on the wire. -/
def Leaf.layout : (l : Leaf) → l.Carrier → List UInt8
  | text, v => textLayout v
  | decimal, v => v.layout
  | fixed, v => v.toDecimal.layout
  | date, v => 1 :: word64 v.day64
  | timestamp, v => 1 :: word64 v.toTimestamp.1 ++ word32 v.toTimestamp.2
  | dateTime, v => 1 :: word64 v.date.day64 ++ word64 v.time.nanoOfDay
  | bytes, v => 1 :: prefixBytes v.length ++ v
  | enumName e, v => textLayout (e.name v)
  | enumOrdinal e, v => word32 (e.ordinal v)

/-- The absence of a leaf on the wire. -/
def Leaf.absence : Leaf → List UInt8
  | text | enumName _ | enumOrdinal _ => word32 absentMark
  | _ => [0]

/-- The absence of a value on the wire. -/
def Kind.absence : Kind ι → List UInt8
  | .leaf l => l.absence
  | .nested _ | .dynamic => [0]
  | .seq _ | .map _ => word32 absentMark

/-- Whether a leaf can be written when no part may be longer than `limit`. -/
def Leaf.writable (limit : Nat) : (l : Leaf) → l.Carrier → Bool
  | text, v => (Utf8.encode v).length ≤ limit
  | decimal, v => (-2 ^ 31 ≤ v.scale.toInt && v.scale.toInt < 2 ^ 31)
      && (TwosComplement.encode v.unscaled).length ≤ limit
  | fixed, v => (TwosComplement.encode v.mantissa).length ≤ limit
  | dateTime, v => !v.time.isLeapSecond
  | bytes, v => v.length ≤ limit
  | enumName e, v => (Utf8.encode (e.name v)).length ≤ limit
  | _, _ => true

/-! ## Folds over values -/

mutual

/-- The bytes of a field's value. -/
def Value.layout {f : Field ι} : Value S f → List UInt8
  | .scalar s v => s.layout v
  | .string v => textLayout v
  | .absent k => k.absence
  | .present _ item => item.layout
  | .required _ _ item => item.layout
  | .guard _ _ => []

/-- The bytes of a value that is present. -/
def Item.layout {k : Kind ι} : Item S k → List UInt8
  | .leaf l v => l.layout v
  | .nested _ fields => 1 :: fields.layouts.flatten
  | .dynamic t fields => 1 :: word32 (S t).tag.value ++ fields.layouts.flatten
  | .seq _ n items => prefixBytes n ++ items.layouts.flatten
  | .map _ keys _ values =>
      prefixBytes keys.length
        ++ ((keys.map textLayout).zip values.layouts).flatMap fun entry => entry.1 ++ entry.2

/-- The bytes of each field of a record. -/
def Record.layouts {fs : List (Field ι)} : Record S fs → List (List UInt8)
  | .nil => []
  | .cons v rest => v.layout :: rest.layouts

end

/-- The bytes of a record's fields. -/
def Record.layout {fs : List (Field ι)} (record : Record S fs) : List UInt8 :=
  record.layouts.flatten

mutual

/-- Whether a field's value can be written when no part may be longer than `limit`. -/
def Value.writable (limit : Nat) {f : Field ι} : Value S f → Bool
  | .scalar _ _ => true
  | .string v => (Utf8.encode v).length ≤ limit
  | .absent _ => true
  | .present _ item => item.writable limit
  | .required _ _ item => item.writable limit
  | .guard _ refuses => !refuses

/-- Whether a value that is present can be written. -/
def Item.writable (limit : Nat) {k : Kind ι} : Item S k → Bool
  | .leaf l v => l.writable limit v
  | .nested _ fields => fields.writable limit
  | .dynamic _ fields => fields.writable limit
  | .seq _ n items => n ≤ limit && items.writable limit
  | .map _ keys _ values =>
      keys.length ≤ limit && keys.all (fun key => (Utf8.encode key).length ≤ limit)
        && values.writable limit

/-- Whether each field of a record can be written. -/
def Record.writable (limit : Nat) {fs : List (Field ι)} : Record S fs → Bool
  | .nil => true
  | .cons v rest => v.writable limit && rest.writable limit

end

mutual

/-- The nested and dynamic values on the deepest path of a field's value. -/
def Value.nesting {f : Field ι} : Value S f → Nat
  | .present _ item => item.nesting
  | .required _ _ item => item.nesting
  | _ => 0

/-- The nested and dynamic values on the deepest path of a value that is present. -/
def Item.nesting {k : Kind ι} : Item S k → Nat
  | .leaf _ _ => 0
  | .nested _ fields => fields.nesting + 1
  | .dynamic _ fields => fields.nesting + 1
  | .seq _ _ items => items.nesting
  | .map _ _ _ values => values.nesting

/-- The nested and dynamic values on the deepest path of a record. -/
def Record.nesting {fs : List (Field ι)} : Record S fs → Nat
  | .nil => 0
  | .cons v rest => max v.nesting rest.nesting

end

mutual

/-- Every leaf of a field's value has one property, and the type of every dynamic value
in it another. -/
def Value.Forall (P : (l : Leaf) → l.Carrier → Prop) (Q : ι → Prop) {f : Field ι} :
    Value S f → Prop
  | .present _ item => item.Forall P Q
  | .required _ _ item => item.Forall P Q
  | _ => True

/-- The same for a value that is present. -/
def Item.Forall (P : (l : Leaf) → l.Carrier → Prop) (Q : ι → Prop) {k : Kind ι} :
    Item S k → Prop
  | .leaf l v => P l v
  | .nested _ fields => fields.Forall P Q
  | .dynamic t fields => Q t ∧ fields.Forall P Q
  | .seq _ _ items => items.Forall P Q
  | .map _ _ _ values => values.Forall P Q

/-- The same for each field of a record. -/
def Record.Forall (P : (l : Leaf) → l.Carrier → Prop) (Q : ι → Prop) {fs : List (Field ι)} :
    Record S fs → Prop
  | .nil => True
  | .cons v rest => v.Forall P Q ∧ rest.Forall P Q

end

/-! ## Records of equal fields -/

/-- Every field of a record has a value of some kind. -/
def Record.All (P : ∀ {f : Field ι}, Value S f → Prop) : {fs : List (Field ι)} → Record S fs → Prop
  | _, .nil => True
  | _, .cons v rest => P v ∧ rest.All P

namespace Record

variable {P Q : ∀ {f : Field ι}, Value S f → Prop} {fs : List (Field ι)}

/-- What follows for each field follows for the record. -/
theorem All.imp {record : Record S fs} (h : record.All P)
    (himp : ∀ {f : Field ι} (v : Value S f), P v → Q v) : record.All Q := by
  induction fs with
  | nil =>
      cases record
      trivial
  | cons f fs ih =>
      cases record with
      | cons v rest => exact ⟨himp v h.1, ih h.2⟩

/-- Two properties of each field are one. -/
theorem All.and {record : Record S fs} (hp : record.All P) (hq : record.All Q) :
    record.All fun v => P v ∧ Q v := by
  induction fs with
  | nil =>
      cases record
      trivial
  | cons f fs ih =>
      cases record with
      | cons v rest => exact ⟨⟨hp.1, hq.1⟩, ih hp.2 hq.2⟩

/-- All fields of a list of values. -/
theorem all_ofList {f : Field ι} {values : List (Value S f)} :
    (ofList values).All P ↔ ∀ v ∈ values, P v := by
  induction values with
  | nil => simp [ofList, All]
  | cons v rest ih => simp [ofList, All, ih]

/-- All fields of the values of some entries. -/
theorem all_ofEntries {f : Field ι} {entries : List (String × Value S f)} :
    (ofEntries entries).All P ↔ ∀ entry ∈ entries, P entry.2 := by
  induction entries with
  | nil => simp [ofEntries, All]
  | cons entry rest ih => simp [ofEntries, All, ih]

/-- The bytes of a list of values. -/
theorem layouts_ofList {f : Field ι} (values : List (Value S f)) :
    (ofList values).layouts = values.map Value.layout := by
  induction values with
  | nil => rfl
  | cons v rest ih => rw [ofList, layouts, ih, List.map_cons]

/-- The bytes of the values of some entries. -/
theorem layouts_ofEntries {f : Field ι} (entries : List (String × Value S f)) :
    (ofEntries entries).layouts = entries.map fun entry => entry.2.layout := by
  induction entries with
  | nil => rfl
  | cons entry rest ih => rw [ofEntries, layouts, ih, List.map_cons]

/-- A record can be written when each of its fields can. -/
theorem writable_iff {limit : Nat} {record : Record S fs} :
    record.writable limit = true ↔ record.All fun v => v.writable limit = true := by
  induction fs with
  | nil =>
      cases record
      simp [writable, All]
  | cons f fs ih =>
      cases record with
      | cons v rest => rw [writable, Bool.and_eq_true, ih, All]

/-- A record is as deep as its deepest field. -/
theorem nesting_le_iff {d : Nat} {record : Record S fs} :
    record.nesting ≤ d ↔ record.All fun v => v.nesting ≤ d := by
  induction fs with
  | nil =>
      cases record
      simp [nesting, All]
  | cons f fs ih =>
      cases record with
      | cons v rest => rw [nesting, Nat.max_le, ih, All]

/-- What holds of all parts of a record holds of all parts of each field. -/
theorem forall_iff {L : (l : Leaf) → l.Carrier → Prop} {D : ι → Prop} {record : Record S fs} :
    record.Forall L D ↔ record.All fun v => v.Forall L D := by
  induction fs with
  | nil =>
      cases record
      simp [Record.Forall, All]
  | cons f fs ih =>
      cases record with
      | cons v rest => rw [Record.Forall, ih, All]

/-- A record of equal fields is one of a list of values. -/
theorem exists_ofList {f : Field ι} : ∀ (n : Nat) (record : Record S (List.replicate n f)),
    ∃ values : List (Value S f), values.length = n ∧ HEq record (ofList values)
  | 0, .nil => ⟨[], rfl, HEq.rfl⟩
  | n + 1, .cons v rest => by
      obtain ⟨values, rfl, hrest⟩ := exists_ofList n rest
      cases hrest
      exact ⟨v :: values, rfl, HEq.rfl⟩

/-- A record of as many equal fields as there are keys is one of entries with these keys. -/
theorem exists_ofEntries {f : Field ι} :
    ∀ (keys : List String) (record : Record S (List.replicate keys.length f)),
      ∃ entries : List (String × Value S f),
        entries.map Prod.fst = keys ∧ HEq record (ofEntries entries)
  | [], .nil => ⟨[], rfl, HEq.rfl⟩
  | key :: keys, .cons v rest => by
      obtain ⟨entries, rfl, hrest⟩ := exists_ofEntries keys rest
      cases hrest
      exact ⟨(key, v) :: entries, rfl, HEq.rfl⟩

end Record

/-! ## Sequences and mappings as what they were made of -/

namespace Item

variable {f : Field ι}

/-- The mapping with the entries of a sorted map. -/
def ofMap (m : SortedMap (Value S f)) : Item S (.map f) :=
  .map f (m.entries.map Prod.fst) m.ascending (Record.ofEntries m.entries)

/-- The mapping of some pairs has the entries of their sorted map. -/
theorem ofPairs_eq (pairs : List (String × Value S f)) :
    ofPairs pairs = ofMap (SortedMap.ofPairs pairs) := rfl

theorem layout_ofList (values : List (Value S f)) :
    (ofList values).layout = prefixBytes values.length ++ values.flatMap Value.layout := by
  rw [ofList, layout, Record.layouts_ofList, List.flatMap_def]

theorem layout_ofMap (m : SortedMap (Value S f)) :
    (ofMap m).layout = prefixBytes m.entries.length ++
      m.entries.flatMap fun entry => textLayout entry.1 ++ entry.2.layout := by
  rw [ofMap, layout, Record.layouts_ofEntries, List.length_map, List.map_map, List.zip_map',
    List.flatMap_map]
  rfl

theorem writable_ofList {limit : Nat} {values : List (Value S f)} :
    (ofList values).writable limit = true ↔
      values.length ≤ limit ∧ ∀ v ∈ values, v.writable limit = true := by
  rw [ofList, writable, Bool.and_eq_true, decide_eq_true_eq, Record.writable_iff,
    Record.all_ofList]

theorem writable_ofMap {limit : Nat} {m : SortedMap (Value S f)} :
    (ofMap m).writable limit = true ↔
      m.entries.length ≤ limit ∧
        ∀ entry ∈ m.entries,
          (Utf8.encode entry.1).length ≤ limit ∧ entry.2.writable limit = true := by
  rw [ofMap, writable, Bool.and_eq_true, Bool.and_eq_true, decide_eq_true_eq,
    Record.writable_iff, Record.all_ofEntries, List.length_map, List.all_eq_true, and_assoc]
  simp only [List.mem_map, forall_exists_index, and_imp, forall_apply_eq_imp_iff₂,
    decide_eq_true_eq, forall_and]

theorem nesting_ofList_le {d : Nat} {values : List (Value S f)} :
    (ofList values).nesting ≤ d ↔ ∀ v ∈ values, v.nesting ≤ d := by
  rw [ofList, nesting, Record.nesting_le_iff, Record.all_ofList]

theorem nesting_ofMap_le {d : Nat} {m : SortedMap (Value S f)} :
    (ofMap m).nesting ≤ d ↔ ∀ entry ∈ m.entries, entry.2.nesting ≤ d := by
  rw [ofMap, nesting, Record.nesting_le_iff, Record.all_ofEntries]

theorem forall_ofList {L : (l : Leaf) → l.Carrier → Prop} {D : ι → Prop}
    {values : List (Value S f)} :
    (ofList values).Forall L D ↔ ∀ v ∈ values, v.Forall L D := by
  rw [ofList, Item.Forall, Record.forall_iff, Record.all_ofList]

theorem forall_ofMap {L : (l : Leaf) → l.Carrier → Prop} {D : ι → Prop}
    {m : SortedMap (Value S f)} :
    (ofMap m).Forall L D ↔ ∀ entry ∈ m.entries, entry.2.Forall L D := by
  rw [ofMap, Item.Forall, Record.forall_iff, Record.all_ofEntries]

end Item

/-- **Induction over values.**  What passes from the fields of a record to a value that
holds it, and from the items of a collection to the collection, holds of every value. -/
theorem Value.induction {P : ∀ {f : Field ι}, Value S f → Prop}
    {Q : ∀ {k : Kind ι}, Item S k → Prop}
    (scalar : ∀ s v, P (.scalar s v)) (string : ∀ v, P (.string v)) (absent : ∀ k, P (.absent k))
    (present : ∀ k item, Q item → P (.present k item))
    (required : ∀ what k item, Q item → P (.required what k item))
    (guard : ∀ what refuses, P (.guard what refuses))
    (leaf : ∀ l v, Q (.leaf l v))
    (nested : ∀ t (fields : Record S (S t).fields), fields.All P → Q (.nested t fields))
    (dynamic : ∀ t (fields : Record S (S t).fields), fields.All P → Q (.dynamic t fields))
    (seq : ∀ (f : Field ι) (values : List (Value S f)), (∀ v ∈ values, P v) →
      Q (Item.ofList values))
    (map : ∀ (f : Field ι) (m : SortedMap (Value S f)), (∀ entry ∈ m.entries, P entry.2) →
      Q (Item.ofMap m)) {f : Field ι} (v : Value S f) : P v := by
  refine @Value.rec ι S (fun _ v => P v) (fun _ item => Q item) (fun _ record => record.All P)
    scalar string absent present required guard leaf nested dynamic ?_ ?_ trivial
    (fun v rest hv hrest => ⟨hv, hrest⟩) f v
  · intro f n items hitems
    obtain ⟨values, rfl, hvalues⟩ := Record.exists_ofList n items
    cases hvalues
    exact seq f values (Record.all_ofList.mp hitems)
  · intro f keys ascending values hvalues
    obtain ⟨entries, rfl, hentries⟩ := Record.exists_ofEntries keys values
    cases hentries
    exact map f ⟨entries, ascending⟩ (Record.all_ofEntries.mp hvalues)

/-- What follows for every leaf and every dynamic type follows for a value. -/
theorem Value.Forall.imp {L L' : (l : Leaf) → l.Carrier → Prop} {D D' : ι → Prop}
    (hleaf : ∀ l v, L l v → L' l v) (htype : ∀ t, D t → D' t) {f : Field ι} {v : Value S f} :
    v.Forall L D → v.Forall L' D' := by
  induction v using Value.induction (Q := fun item => item.Forall L D → item.Forall L' D') with
  | scalar s v => exact id
  | string v => exact id
  | absent k => exact id
  | present k item ih => exact ih
  | required what k item ih => exact ih
  | guard what refuses => exact id
  | leaf l v h => exact hleaf l v h
  | nested t fields ih h =>
      exact Record.forall_iff.mpr ((ih.and (Record.forall_iff.mp h)).imp fun v hv => hv.1 hv.2)
  | dynamic t fields ih h =>
      exact ⟨htype t h.1,
        Record.forall_iff.mpr ((ih.and (Record.forall_iff.mp h.2)).imp fun v hv => hv.1 hv.2)⟩
  | seq f values ih h =>
      exact Item.forall_ofList.mpr fun v hv => ih v hv (Item.forall_ofList.mp h v hv)
  | map f m ih h =>
      exact Item.forall_ofMap.mpr fun e he => ih e he (Item.forall_ofMap.mp h e he)

/-- What follows for every leaf and every dynamic type follows for a record. -/
theorem Record.Forall.imp {L L' : (l : Leaf) → l.Carrier → Prop} {D D' : ι → Prop}
    (hleaf : ∀ l v, L l v → L' l v) (htype : ∀ t, D t → D' t) {fs : List (Field ι)}
    {record : Record S fs} (h : record.Forall L D) : record.Forall L' D' :=
  forall_iff.mpr ((forall_iff.mp h).imp fun _ hv => hv.imp hleaf htype)

end TagWire
