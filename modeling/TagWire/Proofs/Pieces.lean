import TagWire.Proofs.Decimal
import TagWire.Proofs.Layout
import TagWire.Proofs.Programs
import TagWire.Schema.Writing

/-!
# The pieces of a value

A value is written piece by piece.  A piece is what one call for a value without parts
hands over, or what a call for a value with parts hands over in front of them.  Each piece
has its bytes, and may have a flaw that keeps it from being written:

* `Piece.layout`, `Piece.flaw?`, `Piece.write` — the bytes of a piece, what is wrong with
  it, and the call that writes it;
* `Piece.firstFlaw?` — what is wrong with some pieces, one after the other;
* `Value.pieces` — the pieces of a value in the order in which they are written;
* `Piece.Compose` — that a program is the calls of some pieces, and that their bytes and
  their flaws are those of a whole; it is kept by putting programs one after the other;
* `Value.composed`, `Record.composed` — this holds of every value, by induction.
-/

namespace TagWire

/-- What is handed over at once. -/
inductive Piece where
  /-- Bytes that every session can write. -/
  | plain (run : List UInt8)
  /-- The count in front of a sequence or a mapping. -/
  | count (kind : Sized) (n : Nat)
  | text (v : String)
  | bytes (v : List UInt8)
  | decimal (v : Decimal)
  | dateTime (v : DateTime)
  /-- No bytes, but a refusal for want of `what`. -/
  | refusal (what : String)

/-- What keeps a piece from being written. -/
structure Flaw where
  /-- The bytes of the piece that are handed over before the flaw shows. -/
  written : List UInt8 := []
  failure : Failure
  deriving DecidableEq, Repr

/-- What is too long for a limit is written up to its length. -/
def Flaw.overlong? (limit : Nat) (written : List UInt8) (kind : Sized) (n : Nat) : Option Flaw :=
  if limit < n then some { written, failure := .session (.lengthLimitExceeded kind n limit) }
  else none

/-- A flaw behind some bytes, which are handed over as well before it shows. -/
def Flaw.behind (bytes : List UInt8) (flaw : Flaw) : Flaw :=
  { flaw with written := bytes ++ flaw.written }

namespace Piece

/-- The bytes of a piece. -/
def layout : Piece → List UInt8
  | plain run => run
  | count _ n => prefixBytes n
  | text v => textLayout v
  | bytes v => Leaf.bytes.layout v
  | decimal v => v.layout
  | dateTime v => Leaf.dateTime.layout v
  | refusal _ => []

/-- What is wrong with a piece when no part may be longer than `limit`.  What has to be
converted is converted before its first byte is handed over. -/
def flaw? (limit : Nat) : Piece → Option Flaw
  | plain _ => none
  | count kind n => Flaw.overlong? limit [] kind n
  | text v => Flaw.overlong? limit [] .text (Utf8.encode v).length
  | bytes v => Flaw.overlong? limit [1] .bytes v.length
  | decimal v =>
      if -2 ^ 31 ≤ v.scale.toInt ∧ v.scale.toInt < 2 ^ 31 then
        Flaw.overlong? limit (1 :: word32 v.scale.toInt32) .decimalMagnitude
          (TwosComplement.encode v.unscaled).length
      else some { failure := .session (.decimalOutOfRange (.wideScale v.scale)) }
  | dateTime v =>
      if v.time.isLeapSecond then
        some { failure := .session (.timestampOutOfRange (.leapSecond v)) }
      else none
  | refusal what => some { failure := .caller (.missingValue what) }

/-- The first flaw of some pieces that are written one after the other. -/
def firstFlaw? (limit : Nat) : List Piece → Option Flaw
  | [] => none
  | piece :: rest => (piece.flaw? limit).or ((firstFlaw? limit rest).map (.behind piece.layout))

/-- The call that writes a piece. -/
def write : Piece → Write Unit
  | plain run => Write.emit run
  | count kind n => Write.length kind n
  | text v => Write.string v
  | bytes v => Write.bytes (some v)
  | decimal v => Write.decimal (some v)
  | dateTime v => Write.dateTime (some v)
  | refusal what => Write.refuse (.missingValue what)

end Piece

/-- The pieces of a leaf. -/
def Leaf.pieces : (l : Leaf) → l.Carrier → List Piece
  | text, v => [.text v]
  | decimal, v => [.decimal v]
  | fixed, v => [.decimal v.toDecimal]
  | date, v => [.plain [1], .plain (word64 v.day64)]
  | timestamp, v => [.plain [1], .plain (word64 v.toTimestamp.1), .plain (word32 v.toTimestamp.2)]
  | dateTime, v => [.dateTime v]
  | bytes, v => [.bytes v]
  | enumName e, v => [.text (e.name v)]
  | enumOrdinal e, v => [.plain (word32 (e.ordinal v))]

variable {ι : Type} {S : Schema ι}

mutual

/-- The pieces of a field's value. -/
def Value.pieces {f : Field ι} : Value S f → List Piece
  | .scalar s v => [.plain (s.layout v)]
  | .string v => [.text v]
  | .absent k => [.plain k.absence]
  | .present _ item => item.pieces
  | .required _ _ item => item.pieces
  | .guard what refuses => if refuses then [.refusal what] else []

/-- The pieces of a value that is present. -/
def Item.pieces {k : Kind ι} : Item S k → List Piece
  | .leaf l v => l.pieces v
  | .nested _ fields => .plain [1] :: fields.piecewise.flatten
  | .dynamic t fields =>
      .plain [1] :: .plain (word32 (S t).tag.value) :: fields.piecewise.flatten
  | .seq _ n items => .count .sequence n :: items.piecewise.flatten
  | .map _ keys _ values =>
      .count .mapping keys.length
        :: ((keys.map Piece.text).zip values.piecewise).flatMap fun entry => entry.1 :: entry.2

/-- The pieces of each field of a record. -/
def Record.piecewise {fs : List (Field ι)} : Record S fs → List (List Piece)
  | .nil => []
  | .cons v rest => v.pieces :: rest.piecewise

end

/-- The pieces of a record's fields. -/
def Record.pieces {fs : List (Field ι)} (record : Record S fs) : List Piece :=
  record.piecewise.flatten

/-! ## Programs that are made of pieces -/

namespace Piece

/-- There is no first flaw where there is none at all. -/
theorem firstFlaw?_eq_none_iff {limit : Nat} {pieces : List Piece} :
    firstFlaw? limit pieces = none ↔ ∀ piece ∈ pieces, piece.flaw? limit = none := by
  induction pieces with
  | nil => simp [firstFlaw?]
  | cons piece rest ih =>
      rw [firstFlaw?, Option.or_eq_none_iff, Option.map_eq_none_iff, ih, List.forall_mem_cons]

/-- Some pieces are written by a program, have the bytes of a layout, and are all without a
flaw on a condition on the limit. -/
structure Compose (pieces : List Piece) (program : Write Unit) (layout : List UInt8)
    (writable : Nat → Prop) : Prop where
  write_eq : pieces.forM write = program
  layout_eq : pieces.flatMap Piece.layout = layout
  flawless_iff : ∀ limit, (∀ piece ∈ pieces, piece.flaw? limit = none) ↔ writable limit

namespace Compose

variable {a b : List Piece} {p q : Write Unit} {l m : List UInt8} {c d : Nat → Prop}

/-- What the pieces are compared with may be put differently. -/
theorem congr (h : Compose a p l c) (hpq : p = q) (hlm : l = m) (hcd : ∀ limit, c limit ↔ d limit) :
    Compose a q m d := by
  subst hpq hlm
  exact ⟨h.write_eq, h.layout_eq, fun limit => (h.flawless_iff limit).trans (hcd limit)⟩

/-- No pieces at all. -/
theorem nil : Compose [] (pure ()) [] fun _ => True := ⟨rfl, rfl, by simp⟩

/-- A piece alone. -/
theorem single (piece : Piece) :
    Compose [piece] piece.write piece.layout fun limit => piece.flaw? limit = none :=
  ⟨by simp, by simp, by simp⟩

/-- Pieces behind other ones. -/
theorem append (ha : Compose a p l c) (hb : Compose b q m d) :
    Compose (a ++ b) (do p; q) (l ++ m) fun limit => c limit ∧ d limit := by
  refine ⟨?_, ?_, fun limit => ?_⟩
  · rw [← ha.write_eq, ← hb.write_eq]
    simp
  · rw [List.flatMap_append, ha.layout_eq, hb.layout_eq]
  · rw [← ha.flawless_iff, ← hb.flawless_iff]
    simp only [List.mem_append, or_imp, forall_and]

/-- Bytes that every session can write, in front of other pieces. -/
theorem plain_cons (run : List UInt8) (h : Compose a p l c) :
    Compose (.plain run :: a) (do Write.emit run; p) (run ++ l) c :=
  ((single (.plain run)).append h).congr rfl rfl fun limit => by simp [flaw?]

/-- The pieces of some items, one after the other. -/
theorem flatMap {β : Type} {items : List β} {pieces : β → List Piece} {program : β → Write Unit}
    {layout : β → List UInt8} {writable : β → Nat → Prop}
    (h : ∀ x ∈ items, Compose (pieces x) (program x) (layout x) (writable x)) :
    Compose (items.flatMap pieces) (items.forM program) (items.flatMap layout)
      fun limit => ∀ x ∈ items, writable x limit := by
  induction items with
  | nil => exact nil.congr rfl rfl fun limit => by simp
  | cons x rest ih =>
      have hrest := ih fun y hy => h y (List.mem_cons_of_mem x hy)
      exact ((h x List.mem_cons_self).append hrest).congr (by simp) rfl fun limit => by simp

end Compose

end Piece

/-! ## Leaves -/

theorem Flaw.overlong?_eq_none_iff {limit n : Nat} {written : List UInt8} {kind : Sized} :
    overlong? limit written kind n = none ↔ n ≤ limit := by
  unfold overlong?
  split <;> simp <;> omega

/-- A flaw of a decimal is in its scale or in its length. -/
theorem Decimal.flaw?_eq_none_iff {limit : Nat} {v : Decimal} :
    (Piece.decimal v).flaw? limit = none ↔ Leaf.decimal.writable limit v = true := by
  rw [Piece.flaw?, Leaf.writable, Bool.and_eq_true, Bool.and_eq_true, decide_eq_true_eq,
    decide_eq_true_eq, decide_eq_true_eq]
  split
  · next hscale =>
      rw [Flaw.overlong?_eq_none_iff]
      exact ⟨fun h => ⟨hscale, h⟩, And.right⟩
  · next hscale => exact ⟨nofun, fun h => absurd h.1 hscale⟩

/-- A decimal is writable when its scale has a place in 32 bits and its bytes are not too
many. -/
theorem Decimal.writable_iff {limit : Nat} {d : Decimal} :
    Leaf.decimal.writable limit d = true ↔
      d.scale.toInt32.toInt64 = d.scale ∧ (TwosComplement.encode d.unscaled).length ≤ limit := by
  rw [toInt64_toInt32_eq_iff]
  simp only [Leaf.writable, Bool.and_eq_true, decide_eq_true_eq]

/-- A fixed decimal is writable when its bytes are not too many. -/
theorem FixedDecimal.writable_iff {limit : Nat} {v : FixedDecimal} :
    Leaf.fixed.writable limit v = true ↔ Leaf.decimal.writable limit v.toDecimal = true := by
  have hscale := v.toInt_scale_toDecimal
  have hsmall := v.scale_le
  unfold maxFixedScale at hsmall
  rw [Decimal.writable_iff, Decimal.toInt64_toInt32_eq_iff, hscale]
  simp only [Leaf.writable, decide_eq_true_eq]
  exact ⟨fun h => ⟨⟨by omega, by omega⟩, h⟩, And.right⟩

open Piece

/-- The pieces of a leaf. -/
theorem Leaf.composed (l : Leaf) (v : l.Carrier) :
    Compose (l.pieces v) (l.write (some v)) (l.layout v) fun limit => l.writable limit v = true := by
  cases l with
  | text =>
      exact (Compose.single (.text v)).congr rfl rfl fun limit => by
        simp [Leaf.writable, flaw?, Flaw.overlong?_eq_none_iff]
  | decimal => exact (Compose.single (.decimal v)).congr rfl rfl fun limit =>
      Decimal.flaw?_eq_none_iff
  | fixed => exact (Compose.single (.decimal v.toDecimal)).congr rfl rfl fun limit =>
      Decimal.flaw?_eq_none_iff.trans FixedDecimal.writable_iff.symm
  | date =>
      exact ((Compose.single (.plain (word64 v.day64))).plain_cons [1]).congr rfl rfl
        fun limit => by simp [Leaf.writable, flaw?]
  | timestamp =>
      exact (((Compose.single (.plain (word32 v.toTimestamp.2))).plain_cons
        (word64 v.toTimestamp.1)).plain_cons [1]).congr rfl (by simp [Leaf.layout, Piece.layout])
        fun limit => by simp [Leaf.writable, flaw?]
  | dateTime =>
      exact (Compose.single (.dateTime v)).congr rfl rfl fun limit => by
        simp [Leaf.writable, flaw?]
  | bytes =>
      exact (Compose.single (.bytes v)).congr rfl rfl fun limit => by
        simp [Leaf.writable, flaw?, Flaw.overlong?_eq_none_iff]
  | enumName e =>
      exact (Compose.single (.text (e.name v))).congr rfl rfl fun limit => by
        simp [Leaf.writable, flaw?, Flaw.overlong?_eq_none_iff]
  | enumOrdinal e =>
      exact (Compose.single (.plain (word32 (e.ordinal v)))).congr rfl rfl fun limit => by
        simp [Leaf.writable, flaw?]

/-- The absence of a value is one piece. -/
theorem Kind.composed_absence (k : Kind ι) :
    Compose [.plain k.absence] k.writeAbsent k.absence fun _ => True := by
  refine (Compose.single (.plain k.absence)).congr ?_ rfl fun limit => by simp [flaw?]
  cases k with
  | leaf l => cases l <;> rfl
  | nested t => rfl
  | dynamic => rfl
  | seq f => rfl
  | map f => rfl

/-! ## Values and records -/

section OfList

variable {f : Field ι}

/-- The programs of a list of values. -/
theorem Record.programs_ofList (values : List (Value S f)) :
    (ofList values).programs = values.map Value.write := by
  induction values with
  | nil => rfl
  | cons v rest ih => rw [ofList, programs, ih, List.map_cons]

/-- The programs of the values of some entries. -/
theorem Record.programs_ofEntries (entries : List (String × Value S f)) :
    (ofEntries entries).programs = entries.map fun entry => entry.2.write := by
  induction entries with
  | nil => rfl
  | cons entry rest ih => rw [ofEntries, programs, ih, List.map_cons]

/-- The pieces of a list of values. -/
theorem Record.piecewise_ofList (values : List (Value S f)) :
    (ofList values).piecewise = values.map Value.pieces := by
  induction values with
  | nil => rfl
  | cons v rest ih => rw [ofList, piecewise, ih, List.map_cons]

/-- The pieces of the values of some entries. -/
theorem Record.piecewise_ofEntries (entries : List (String × Value S f)) :
    (ofEntries entries).piecewise = entries.map fun entry => entry.2.pieces := by
  induction entries with
  | nil => rfl
  | cons entry rest ih => rw [ofEntries, piecewise, ih, List.map_cons]

/-- A sequence writes its count and its items. -/
theorem Item.write_ofList (values : List (Value S f)) :
    (ofList values).write = (do
      Write.length .sequence values.length
      values.forM Value.write) := by
  simp only [ofList, Item.write, Record.programs_ofList, Write.seq, List.length_map,
    List.forM_eq_forM, List.forM_map, id_eq]

/-- A mapping writes its count and its entries in their order. -/
theorem Item.write_ofMap (m : SortedMap (Value S f)) :
    (ofMap m).write = (do
      Write.length .mapping m.entries.length
      m.entries.forM fun entry => do
        Write.string entry.1
        entry.2.write) := by
  simp only [ofMap, Item.write, Record.programs_ofEntries, Write.map, List.map_map,
    List.zip_map', List.length_map, List.forM_eq_forM, List.forM_map, Function.comp]

/-- The pieces of a sequence are its count and those of its items. -/
theorem Item.pieces_ofList (values : List (Value S f)) :
    (ofList values).pieces = .count .sequence values.length :: values.flatMap Value.pieces := by
  rw [ofList, pieces, Record.piecewise_ofList, List.flatMap_def]

/-- The pieces of a mapping are its count and those of its entries. -/
theorem Item.pieces_ofMap (m : SortedMap (Value S f)) :
    (ofMap m).pieces = .count .mapping m.entries.length ::
      m.entries.flatMap fun entry => .text entry.1 :: entry.2.pieces := by
  rw [ofMap, pieces, Record.piecewise_ofEntries, List.length_map, List.map_map, List.zip_map',
    List.flatMap_map]
  rfl

end OfList

/-- A record is made of the pieces of its fields. -/
theorem Record.composed_of_all {fs : List (Field ι)} {record : Record S fs}
    (h : record.All fun v =>
      Compose v.pieces v.write v.layout fun limit => v.writable limit = true) :
    Compose record.pieces record.write record.layout
      fun limit => record.writable limit = true := by
  induction fs with
  | nil =>
      cases record
      exact Compose.nil.congr rfl rfl fun limit => by simp [writable]
  | cons f fs ih =>
      cases record with
      | cons v rest =>
          exact (h.1.append (ih h.2)).congr rfl rfl fun limit => by
            rw [writable, Bool.and_eq_true]

/-- **A value is made of its pieces.**  They are written by its program, have the bytes of its
layout, and are without a flaw exactly if it can be written. -/
theorem Value.composed {f : Field ι} (v : Value S f) :
    Compose v.pieces v.write v.layout fun limit => v.writable limit = true := by
  induction v using Value.induction
    (Q := fun item =>
      Compose item.pieces item.write item.layout fun limit => item.writable limit = true) with
  | scalar s v =>
      refine (Compose.single (.plain (s.layout v))).congr ?_ rfl fun limit => by
        simp [writable, flaw?]
      cases s <;> rfl
  | string v =>
      exact (Compose.single (.text v)).congr rfl rfl fun limit => by
        simp [writable, flaw?, Flaw.overlong?_eq_none_iff]
  | absent k => exact k.composed_absence.congr rfl rfl fun limit => by simp [writable]
  | present k item ih => exact ih
  | required what k item ih => exact ih
  | guard what refuses =>
      cases refuses with
      | false => exact Compose.nil.congr rfl rfl fun limit => by simp [writable]
      | true =>
          exact (Compose.single (.refusal what)).congr rfl rfl fun limit => by
            simp [writable, flaw?]
  | leaf l v => exact l.composed v
  | nested t fields ih => exact (Record.composed_of_all ih).plain_cons [1]
  | dynamic t fields ih =>
      exact ((Record.composed_of_all ih).plain_cons (word32 (S t).tag.value)).plain_cons [1]
  | seq f values ih =>
      rw [Item.write_ofList, Item.layout_ofList, Item.pieces_ofList]
      refine ((Compose.single (.count .sequence values.length)).append (.flatMap ih)).congr rfl rfl
        fun limit => ?_
      rw [Item.writable_ofList, flaw?, Flaw.overlong?_eq_none_iff]
  | map f m ih =>
      rw [Item.write_ofMap, Item.layout_ofMap, Item.pieces_ofMap]
      have hentries := Compose.flatMap fun entry hentry =>
        (Compose.single (.text entry.1)).append (ih entry hentry)
      refine ((Compose.single (.count .mapping m.entries.length)).append hentries).congr rfl rfl
        fun limit => ?_
      rw [Item.writable_ofMap, flaw?, Flaw.overlong?_eq_none_iff]
      simp only [flaw?, Flaw.overlong?_eq_none_iff]

/-- **A record is made of its pieces.** -/
theorem Record.composed {fs : List (Field ι)} (record : Record S fs) :
    Compose record.pieces record.write record.layout
      fun limit => record.writable limit = true := by
  refine Record.composed_of_all ?_
  induction fs with
  | nil =>
      cases record
      trivial
  | cons f fs ih =>
      cases record with
      | cons v rest => exact ⟨v.composed, ih rest⟩

end TagWire
