import TagWire.Proofs.Layout
import TagWire.Proofs.Words

/-!
# The grammar of the wire

Which bytes spell which value, as a relation between the two.  It is given by
productions, one for each form that a value may take on the wire, and mentions
neither the calls of a session nor their order:

* `Scalar.Spelled`, `Leaf.Spelled` — words, text, decimals, times and
  enumerations;
* `Value.Spelled`, `Item.Spelled`, `Record.Spelled` — derivations for what
  holds other values, inductively.

More than one run of bytes may spell a value.  The grammar is lenient where a
reader is: any byte but zero marks presence, a magnitude may have redundant
sign bytes, a fixed decimal any scale it can be brought from, and a mapping its
pairs in any order and several of one key.  Under `Rules.canonical` only one
of these spellings is left.

A derivation is given a number of levels, which each nested or dynamic value
uses one of.
-/

namespace TagWire

/-- What a spelling depends on besides the value. -/
structure Rules (ι : Type) where
  /-- Longest text or run of bytes, and most items of a collection. -/
  maxLength : Nat
  /-- Which types a dynamic value with a tag may have. -/
  knows : TypeTag → ι → Prop
  /-- Whether values must have their canonical spelling. -/
  canonical : Bool := false

variable {ι : Type} {S : Schema ι}

namespace Rules

/-- The rules of a session with these limits, which may have a resolver. -/
def of (limits : Limits) (resolver? : Option (TypeTag → Except Fault ι)) : Rules ι where
  maxLength := limits.maxLength
  knows tag t := ∃ resolve, resolver? = some resolve ∧ resolve tag = .ok t

/-- A byte that says that something is present. -/
def Marks (g : Rules ι) (flag : UInt8) : Prop := flag ≠ 0 ∧ (g.canonical = true → flag = 1)

/-- A length or a count which the rules allow and its field can hold. -/
def Fits (g : Rules ι) (n : Nat) : Prop := n ≤ g.maxLength ∧ n < 2 ^ 31

/-- What follows a byte that says it is present. -/
def Present (g : Rules ι) (rest : List UInt8 → Prop) (w : List UInt8) : Prop :=
  ∃ flag u, w = flag :: u ∧ g.Marks flag ∧ rest u

/-- Well-formed text of exactly the announced number of bytes. -/
def Text (g : Rules ι) (v : String) (w : List UInt8) : Prop :=
  g.Fits (Utf8.encode v).length ∧ w = textLayout v

end Rules

/-! ## Words and leaves -/

/-- The spellings of a scalar.  A truth value is false exactly when its byte is zero. -/
def Scalar.Spelled (g : Rules ι) : (s : Scalar) → s.Carrier → List UInt8 → Prop
  | bool, v, w => ∃ byte : UInt8, w = [byte] ∧ (v = false ↔ byte = 0) ∧
      (g.canonical = true → byte ≤ 1)
  | i32, v, w => w = word32 v
  | i64, v, w => w = word64 v
  | f32, v, w => w = BigEndian.encode 4 v.toNat
  | f64, v, w => w = BigEndian.encode 8 v.toNat
  | i8, v, w => w = [v.toUInt8]
  | i16, v, w => w = BigEndian.encode 2 v.toUInt16.toNat
  | codeUnit, v, w => w = BigEndian.encode 2 v.toNat

/-- The spellings of a decimal behind its presence: a scale and a magnitude of at least
one byte. -/
def Decimal.Spelled (g : Rules ι) (d : Decimal) (w : List UInt8) : Prop :=
  ∃ (scale : Int32) (magnitude : List UInt8),
    w = word32 scale ++ prefixBytes magnitude.length ++ magnitude ∧
    d = ⟨TwosComplement.decode magnitude, scale.toInt64⟩ ∧
    magnitude ≠ [] ∧ g.Fits magnitude.length ∧
    (g.canonical = true → TwosComplement.Shortest magnitude)

/-- The spellings of a fixed decimal behind its presence: those of the decimals that it
can be made from. -/
def FixedDecimal.Spelled (g : Rules ι) (v : FixedDecimal) (w : List UInt8) : Prop :=
  ∃ d : Decimal, d.Spelled g w ∧ d.toFixed = .ok v ∧
    (g.canonical = true → 0 ≤ d.scale.toInt ∧ d.scale.toInt ≤ maxFixedScale)

/-- The spellings of a date behind its presence. -/
def Date.Spelled (v : Date) (w : List UInt8) : Prop :=
  ∃ day : Int64, w = word64 day ∧ day.toInt = v.epochDay

/-- The spellings of a timestamp behind its presence. -/
def DateTime.SpelledTimestamp (v : DateTime) (w : List UInt8) : Prop :=
  ∃ (seconds : Int64) (nanos : Int32), w = word64 seconds ++ word32 nanos ∧
    seconds.toInt = v.date.epochDay * Calendar.secondsPerDay + v.time.second ∧
    nanos.toInt = v.time.nano

/-- The spellings of a date-time behind its presence.  A leap second has none. -/
def DateTime.Spelled (v : DateTime) (w : List UInt8) : Prop :=
  ∃ day nano : Int64, w = word64 day ++ word64 nano ∧
    day.toInt = v.date.epochDay ∧
    nano.toInt = v.time.second * Calendar.nanosPerSecond + v.time.nano ∧
    v.time.isLeapSecond = false

/-- The spellings of a leaf that is present. -/
def Leaf.Spelled (g : Rules ι) : (l : Leaf) → l.Carrier → List UInt8 → Prop
  | text, v, w => g.Text v w
  | decimal, v, w => g.Present (v.Spelled g) w
  | fixed, v, w => g.Present (v.Spelled g) w
  | date, v, w => g.Present v.Spelled w
  | timestamp, v, w => g.Present v.SpelledTimestamp w
  | dateTime, v, w => g.Present v.Spelled w
  | bytes, v, w => g.Present (fun u => g.Fits v.length ∧ u = prefixBytes v.length ++ v) w
  -- The name stands for the first variant that has it.
  | enumName e, v, w => ∃ before after, e.variants = before ++ v :: after ∧
      (∀ u ∈ before, e.name u ≠ e.name v) ∧ g.Text (e.name v) w
  | enumOrdinal e, v, w => ∃ i < 2 ^ 31, e.variants[i]? = some v ∧ w = word32 (Int32.ofNat i)

/-! ## Derivations -/

mutual

/-- The spellings of a field's value. -/
inductive Value.Spelled (g : Rules ι) :
    (levels : Nat) → {f : Field ι} → Value S f → List UInt8 → Prop
  | scalar {levels s v w} : s.Spelled g v w → Value.Spelled g levels (.scalar s v) w
  | string {levels v w} : g.Text v w → Value.Spelled g levels (.string v) w
  | absent {levels} (k : Kind ι) : Value.Spelled g levels (.absent k) k.absence
  | present {levels k item w} :
      Item.Spelled g levels item w → Value.Spelled g levels (.present k item) w
  | required {levels what k item w} :
      Item.Spelled g levels item w → Value.Spelled g levels (.required what k item) w
  | guard {levels} (what : String) : Value.Spelled g levels (.guard what false) []

/-- The spellings of a value that is present. -/
inductive Item.Spelled (g : Rules ι) :
    (levels : Nat) → {k : Kind ι} → Item S k → List UInt8 → Prop
  | leaf {levels l v w} : l.Spelled g v w → Item.Spelled g levels (.leaf l v) w
  | nested {levels t flag w} {fields : Record S (S t).fields} :
      g.Marks flag → Record.Spelled g levels fields w →
      Item.Spelled g (levels + 1) (.nested t fields) (flag :: w)
  | dynamic {levels t flag w} {tag : TypeTag} {fields : Record S (S t).fields} :
      g.Marks flag → g.knows tag t → Record.Spelled g levels fields w →
      Item.Spelled g (levels + 1) (.dynamic t fields) (flag :: word32 tag.value ++ w)
  | seq {levels w} {f : Field ι} {item : Item S (.seq f)} (values : List (Value S f)) :
      item = Item.ofList values → g.Fits values.length → SpelledList g levels values w →
      Item.Spelled g levels item (prefixBytes values.length ++ w)
  /-- The pairs of a mapping are folded in their order, so of several with one key the
  last stays. -/
  | map {levels w} {f : Field ι} {item : Item S (.map f)} (pairs : List (String × Value S f)) :
      item = Item.ofPairs pairs → g.Fits pairs.length → SpelledPairs g levels pairs w →
      (g.canonical = true → (pairs.map Prod.fst).Pairwise Utf8.Before) →
      Item.Spelled g levels item (prefixBytes pairs.length ++ w)

/-- The spellings of a record, field by field. -/
inductive Record.Spelled (g : Rules ι) :
    (levels : Nat) → {fs : List (Field ι)} → Record S fs → List UInt8 → Prop
  | nil {levels} : Record.Spelled g levels .nil []
  | cons {levels f fs u w} {v : Value S f} {rest : Record S fs} :
      Value.Spelled g levels v u → Record.Spelled g levels rest w →
      Record.Spelled g levels (.cons v rest) (u ++ w)

/-- The spellings of the items of a sequence. -/
inductive SpelledList (g : Rules ι) :
    (levels : Nat) → {f : Field ι} → List (Value S f) → List UInt8 → Prop
  | nil {levels f} : SpelledList g levels (f := f) [] []
  | cons {levels f u w} {v : Value S f} {rest : List (Value S f)} :
      Value.Spelled g levels v u → SpelledList g levels rest w →
      SpelledList g levels (v :: rest) (u ++ w)

/-- The spellings of the pairs of a mapping. -/
inductive SpelledPairs (g : Rules ι) :
    (levels : Nat) → {f : Field ι} → List (String × Value S f) → List UInt8 → Prop
  | nil {levels f} : SpelledPairs g levels (f := f) [] []
  | cons {levels f t u w} {key : String} {v : Value S f} {rest : List (String × Value S f)} :
      g.Text key t → Value.Spelled g levels v u → SpelledPairs g levels rest w →
      SpelledPairs g levels ((key, v) :: rest) (t ++ u ++ w)

end

end TagWire
