import TagWire.Proofs.Calendar
import TagWire.Proofs.Grammar
import TagWire.Proofs.Writing

/-!
# Canonical spellings

A value that can be written has exactly one canonical spelling, which is its
layout, and any spelling of a value shows that it can be written:

* `Value.spelled_layout`, `Record.spelled_layout` — a layout is a spelling, the
  canonical one among others;
* `Value.Spelled.laidOut`, `Record.Spelled.laidOut` — a value with a spelling can
  be written, lies no deeper than its levels, and has its layout as its only
  canonical spelling.
-/

namespace TagWire

variable {ι : Type} {S : Schema ι} {g : Rules ι} {limits : Limits}

/-- A length which the rules of reading and its field allow can be written. -/
theorem Rules.fits_iff (hg : g.maxLength = limits.maxLength) {n : Nat} :
    g.Fits n ↔ n ≤ limits.writable := by
  unfold Fits Limits.writable Limits.greatestPrefix
  omega

/-- One marks presence in every spelling. -/
theorem Rules.marks_one (g : Rules ι) : g.Marks 1 := ⟨by decide, fun _ => rfl⟩

/-- A variant of an enumeration that is found again by what is written for it. -/
def Leaf.Found : (l : Leaf) → l.Carrier → Prop
  | enumName e, v => ∃ before after, e.variants = before ++ v :: after ∧
      ∀ u ∈ before, e.name u ≠ e.name v
  | enumOrdinal e, v => ∃ i < 2 ^ 31, e.variants[i]? = some v ∧ e.ordinal v = Int32.ofNat i
  | _, _ => True

/-! ## Layouts are spellings -/

/-- The layout of a scalar spells it. -/
theorem Scalar.spelled_layout (g : Rules ι) (s : Scalar) (v : s.Carrier) :
    s.Spelled g v (s.layout v) := by
  cases s with
  | bool =>
      cases v with
      | false => exact ⟨0, rfl, by decide, fun _ => by decide⟩
      | true => exact ⟨1, rfl, by decide, fun _ => by decide⟩
  | i32 => rfl
  | i64 => rfl
  | f32 => rfl
  | f64 => rfl
  | i8 => rfl
  | i16 => rfl
  | codeUnit => rfl

/-- The layout of a decimal spells it when the decimal can be written. -/
theorem Decimal.spelled_layout (hg : g.maxLength = limits.maxLength) {d : Decimal}
    (hwritable : Leaf.decimal.writable limits.writable d = true) :
    ∃ w, d.layout = 1 :: w ∧ d.Spelled g w := by
  obtain ⟨hscale, hlength⟩ := writable_iff.mp hwritable
  refine ⟨_, rfl, d.scale.toInt32, TwosComplement.encode d.unscaled, rfl, ?_,
    TwosComplement.encode_ne_nil _, (Rules.fits_iff hg).mpr hlength,
    fun _ => TwosComplement.shortest_encode _⟩
  rw [TwosComplement.decode_encode, hscale]

/-- The layout of a leaf spells it when the leaf can be written and found again. -/
theorem Leaf.spelled_layout (hg : g.maxLength = limits.maxLength) {l : Leaf} {v : l.Carrier}
    (hwritable : l.writable limits.writable v = true) (hfound : l.Found v) :
    l.Spelled g v (l.layout v) := by
  cases l with
  | text => exact ⟨(Rules.fits_iff hg).mpr (of_decide_eq_true hwritable), rfl⟩
  | decimal =>
      obtain ⟨w, hlayout, hspelled⟩ := Decimal.spelled_layout hg hwritable
      exact ⟨1, w, hlayout, g.marks_one, hspelled⟩
  | fixed =>
      have hscale := v.toInt_scale_toDecimal
      have hsmall := v.scale_le
      obtain ⟨w, hlayout, hspelled⟩ :=
        Decimal.spelled_layout hg (FixedDecimal.writable_iff.mp hwritable)
      refine ⟨1, w, hlayout, g.marks_one, v.toDecimal, hspelled, v.toFixed_toDecimal, fun _ => ?_⟩
      omega
  | date => exact ⟨1, _, rfl, g.marks_one, v.day64, rfl, v.toInt_day64⟩
  | timestamp =>
      exact ⟨1, _, rfl, g.marks_one, _, _, rfl, v.toInt_toTimestamp_fst, v.toInt_toTimestamp_snd⟩
  | dateTime =>
      have hleap : v.time.isLeapSecond = false := by simpa [writable] using hwritable
      exact ⟨1, _, rfl, g.marks_one, _, _, rfl, v.date.toInt_day64, DateTime.toInt_nanoOfDay v.time,
        hleap⟩
  | bytes =>
      exact ⟨1, _, rfl, g.marks_one, (Rules.fits_iff hg).mpr (of_decide_eq_true hwritable), rfl⟩
  | enumName e =>
      obtain ⟨before, after, hvariants, hfirst⟩ := hfound
      exact ⟨before, after, hvariants, hfirst,
        (Rules.fits_iff hg).mpr (of_decide_eq_true hwritable), rfl⟩
  | enumOrdinal e =>
      obtain ⟨i, hi, hv, hordinal⟩ := hfound
      exact ⟨i, hi, hv, congrArg word32 hordinal⟩

/-- What is asked of a value so that its layout spells it at a number of levels. -/
def Value.Spellable (g : Rules ι) (limits : Limits) (levels : Nat) {f : Field ι}
    (v : Value S f) : Prop :=
  v.writable limits.writable = true ∧ v.nesting ≤ levels ∧
    v.Forall Leaf.Found fun t => g.knows (S t).tag t

/-- The same for a value that is present. -/
def Item.Spellable (g : Rules ι) (limits : Limits) (levels : Nat) {k : Kind ι}
    (item : Item S k) : Prop :=
  item.writable limits.writable = true ∧ item.nesting ≤ levels ∧
    item.Forall Leaf.Found fun t => g.knows (S t).tag t

/-- The same for a record. -/
def Record.Spellable (g : Rules ι) (limits : Limits) (levels : Nat) {fs : List (Field ι)}
    (record : Record S fs) : Prop :=
  record.writable limits.writable = true ∧ record.nesting ≤ levels ∧
    record.Forall Leaf.Found fun t => g.knows (S t).tag t

/-- A record is spellable when each of its fields is. -/
theorem Record.spellable_iff {levels : Nat} {fs : List (Field ι)} {record : Record S fs} :
    record.Spellable g limits levels ↔ record.All fun v => v.Spellable g limits levels := by
  unfold Spellable
  rw [writable_iff, nesting_le_iff, forall_iff]
  exact ⟨fun h => h.1.and (h.2.1.and h.2.2), fun h =>
    ⟨h.imp fun _ hv => hv.1, h.imp fun _ hv => hv.2.1, h.imp fun _ hv => hv.2.2⟩⟩

/-- A sequence is spellable when it is not too long and each of its items is spellable. -/
theorem Item.spellable_ofList {levels : Nat} {f : Field ι} {values : List (Value S f)} :
    (ofList values).Spellable g limits levels ↔
      values.length ≤ limits.writable ∧ ∀ v ∈ values, v.Spellable g limits levels := by
  unfold Spellable Value.Spellable
  rw [writable_ofList, nesting_ofList_le, forall_ofList]
  grind

/-- A mapping is spellable when it and its keys are not too long and each of its values is
spellable. -/
theorem Item.spellable_ofMap {levels : Nat} {f : Field ι} {m : SortedMap (Value S f)} :
    (ofMap m).Spellable g limits levels ↔
      m.entries.length ≤ limits.writable ∧ ∀ entry ∈ m.entries,
        (Utf8.encode entry.1).length ≤ limits.writable ∧ entry.2.Spellable g limits levels := by
  unfold Spellable Value.Spellable
  rw [writable_ofMap, nesting_ofMap_le, forall_ofMap]
  grind

/-- The layouts of a record's fields spell the record when they spell the fields. -/
theorem Record.spelled_of_all {levels : Nat} {fs : List (Field ι)} {record : Record S fs}
    (h : record.All fun v => Value.Spelled g levels v v.layout) :
    Record.Spelled g levels record record.layout := by
  induction fs with
  | nil =>
      cases record
      exact .nil
  | cons f fs ih =>
      cases record with
      | cons v rest => exact .cons h.1 (ih h.2)

/-- The same for the items of a sequence. -/
theorem spelledList_of_forall {levels : Nat} {f : Field ι} {values : List (Value S f)}
    (h : ∀ v ∈ values, Value.Spelled g levels v v.layout) :
    SpelledList g levels values (values.flatMap Value.layout) := by
  induction values with
  | nil => exact .nil
  | cons v rest ih =>
      exact .cons (h v List.mem_cons_self) (ih fun u hu => h u (List.mem_cons_of_mem v hu))

/-- The same for the pairs of a mapping. -/
theorem spelledPairs_of_forall {levels : Nat} {f : Field ι} {pairs : List (String × Value S f)}
    (h : ∀ pair ∈ pairs, g.Fits (Utf8.encode pair.1).length ∧
      Value.Spelled g levels pair.2 pair.2.layout) :
    SpelledPairs g levels pairs
      (pairs.flatMap fun pair => textLayout pair.1 ++ pair.2.layout) := by
  induction pairs with
  | nil => exact .nil
  | cons pair rest ih =>
      obtain ⟨hkey, hv⟩ := h pair List.mem_cons_self
      exact .cons ⟨hkey, rfl⟩ hv (ih fun p hp => h p (List.mem_cons_of_mem pair hp))

/-- One level down, the layouts of a record's fields spell it. -/
theorem Record.spelled_below {levels : Nat} {fs : List (Field ι)} {record : Record S fs}
    (h : record.All fun v => ∀ levels, v.Spellable g limits levels →
      Value.Spelled g levels v v.layout)
    (hwritable : record.writable limits.writable = true) (hnesting : record.nesting + 1 ≤ levels)
    (hfound : record.Forall Leaf.Found fun t => g.knows (S t).tag t) :
    ∃ below, levels = below + 1 ∧ Record.Spelled g below record record.layout := by
  have hbelow : record.Spellable g limits (levels - 1) := ⟨hwritable, by omega, hfound⟩
  refine ⟨levels - 1, by omega, spelled_of_all ?_⟩
  exact (h.and (spellable_iff.mp hbelow)).imp fun v hv => hv.1 _ hv.2

/-- **A layout is a spelling**, whether or not canonical ones are asked for. -/
theorem Value.spelled_layout (hg : g.maxLength = limits.maxLength) {f : Field ι} (v : Value S f) :
    ∀ levels, v.Spellable g limits levels → Value.Spelled g levels v v.layout := by
  induction v using Value.induction
    (Q := fun item => ∀ levels, item.Spellable g limits levels →
      Item.Spelled g levels item item.layout) with
  | scalar s v => exact fun _ _ => .scalar (s.spelled_layout g v)
  | string v =>
      intro levels h
      rcases h with ⟨hwritable, -, -⟩
      exact .string ⟨(Rules.fits_iff hg).mpr (of_decide_eq_true hwritable), rfl⟩
  | absent k => exact fun _ _ => .absent k
  | present k item ih => exact fun levels h => .present (ih levels h)
  | required what k item ih => exact fun levels h => .required (ih levels h)
  | guard what refuses =>
      intro levels h
      rcases h with ⟨hwritable, -, -⟩
      cases refuses with
      | false => exact .guard what
      | true => cases hwritable
  | leaf l v levels h =>
      obtain ⟨hwritable, -, hfound⟩ := h
      exact .leaf (Leaf.spelled_layout hg hwritable hfound)
  | nested t fields ih levels h =>
      obtain ⟨hwritable, hnesting, hfound⟩ := h
      obtain ⟨below, rfl, hfields⟩ := Record.spelled_below ih hwritable hnesting hfound
      exact .nested g.marks_one hfields
  | dynamic t fields ih levels h =>
      obtain ⟨hwritable, hnesting, hknows, hfound⟩ := h
      obtain ⟨below, rfl, hfields⟩ := Record.spelled_below ih hwritable hnesting hfound
      exact .dynamic g.marks_one hknows hfields
  | seq f values ih levels h =>
      obtain ⟨hlength, hvalues⟩ := Item.spellable_ofList.mp h
      rw [Item.layout_ofList]
      exact .seq values rfl ((Rules.fits_iff hg).mpr hlength)
        (spelledList_of_forall fun v hv => ih v hv levels (hvalues v hv))
  | map f m ih levels h =>
      obtain ⟨hlength, hentries⟩ := Item.spellable_ofMap.mp h
      rw [Item.layout_ofMap]
      refine .map m.entries ?_ ((Rules.fits_iff hg).mpr hlength) ?_ fun _ => m.ascending
      · rw [Item.ofPairs_eq, SortedMap.ofPairs_entries]
      · exact spelledPairs_of_forall fun entry hentry =>
          ⟨(Rules.fits_iff hg).mpr (hentries entry hentry).1,
            ih entry hentry levels (hentries entry hentry).2⟩

/-- The layout of a record spells it. -/
theorem Record.spelled_layout (hg : g.maxLength = limits.maxLength) {levels : Nat}
    {fs : List (Field ι)} {record : Record S fs} (h : record.Spellable g limits levels) :
    Record.Spelled g levels record record.layout :=
  spelled_of_all ((spellable_iff.mp h).imp fun v hv => v.spelled_layout hg levels hv)

/-! ## Spellings show what a value is like -/

/-- In its only canonical spelling, presence is marked by one. -/
theorem Rules.Present.eq_of_canonical {rest : List UInt8 → Prop} {u w : List UInt8}
    (h : g.Present rest w) (hcanonical : g.canonical = true) (hrest : ∀ v, rest v → v = u) :
    w = 1 :: u := by
  obtain ⟨flag, v, rfl, hmarks, hv⟩ := h
  rw [hmarks.2 hcanonical, hrest v hv]

/-- The canonical spelling of a scalar is its layout. -/
theorem Scalar.eq_layout_of_canonical {s : Scalar} {v : s.Carrier} {w : List UInt8}
    (h : s.Spelled g v w) (hcanonical : g.canonical = true) : w = s.layout v := by
  cases s with
  | bool =>
      obtain ⟨byte, rfl, hzero, hone⟩ := h
      have hle : byte.toNat ≤ 1 := hone hcanonical
      rw [← UInt8.toNat_inj] at hzero
      refine congrArg (fun byte => [byte]) (UInt8.toNat_inj.mp ?_)
      cases v with
      | false => exact hzero.mp rfl
      | true =>
          have hne : byte.toNat ≠ 0 := fun heq => Bool.noConfusion (hzero.mpr heq)
          exact Nat.le_antisymm hle (Nat.pos_of_ne_zero hne)
  | i32 => exact h
  | i64 => exact h
  | f32 => exact h
  | f64 => exact h
  | i8 => exact h
  | i16 => exact h
  | codeUnit => exact h

/-- A decimal with a spelling can be written, and its shortest magnitude is the canonical
one. -/
theorem Decimal.Spelled.laidOut (hg : g.maxLength = limits.maxLength) {d : Decimal}
    {w : List UInt8} (h : d.Spelled g w) :
    Leaf.decimal.writable limits.writable d = true ∧
      (g.canonical = true → d.layout = 1 :: w) := by
  obtain ⟨scale, magnitude, rfl, rfl, hne, hfits, hshortest⟩ := h
  have hlength := TwosComplement.length_encode_decode_le hne
  have hlimit := (Rules.fits_iff hg).mp hfits
  refine ⟨writable_iff.mpr ⟨by simp, by dsimp only; omega⟩, fun hcanonical => ?_⟩
  unfold layout
  dsimp only
  rw [TwosComplement.encode_decode_of_shortest (hshortest hcanonical)]
  simp

/-- The same for a fixed decimal, whose magnitude takes at most 13 bytes. -/
theorem FixedDecimal.Spelled.laidOut (hg : g.maxLength = limits.maxLength)
    (hlimit : 13 ≤ limits.maxLength) {v : FixedDecimal} {w : List UInt8} (h : v.Spelled g w) :
    Leaf.fixed.writable limits.writable v = true ∧
      (g.canonical = true → v.toDecimal.layout = 1 :: w) := by
  obtain ⟨d, hd, hv, hscale⟩ := h
  constructor
  · have hlength : (TwosComplement.encode v.mantissa).length ≤ 13 := v.length_encode_mantissa
    refine decide_eq_true ?_
    unfold Limits.writable Limits.greatestPrefix
    omega
  · intro hcanonical
    obtain ⟨hlow, hhigh⟩ := hscale hcanonical
    rw [toDecimal_of_toFixed hv hlow hhigh]
    exact (hd.laidOut hg).2 hcanonical

/-- The enumeration whose variants a leaf has. -/
def Leaf.enumeration? : Leaf → Option (Enumeration String)
  | enumName e => some e
  | enumOrdinal e => some e
  | _ => none

/-- The position of a variant in a list without duplicates is its ordinal. -/
theorem Enumeration.ordinal_of_nodup {e : Enumeration String} {i : Nat} {v : String}
    (hdistinct : e.variants.Nodup) (hv : e.variants[i]? = some v) :
    e.ordinal v = Int32.ofNat i := by
  obtain ⟨hi, hget⟩ := List.getElem?_eq_some_iff.mp hv
  have hfirst : e.variants.findIdx? (· == v) = some i := by
    refine List.findIdx?_eq_some_iff_getElem.mpr ⟨hi, by simp [hget], fun j hj => ?_⟩
    have hne : e.variants[j] ≠ e.variants[i] :=
      List.pairwise_iff_getElem.mp hdistinct j i (Nat.lt_trans hj hi) hi hj
    simpa [hget] using hne
  unfold ordinal
  rw [hfirst]

/-- A leaf with a spelling can be written and is found again, and its layout is the
canonical spelling. -/
theorem Leaf.laidOut_of_spelled (hg : g.maxLength = limits.maxLength)
    (hlimit : 13 ≤ limits.maxLength) {l : Leaf} {v : l.Carrier} {w : List UInt8}
    (hdistinct : ∀ e ∈ l.enumeration?, e.variants.Nodup) (h : l.Spelled g v w) :
    l.writable limits.writable v = true ∧ l.Found v ∧
      (g.canonical = true → w = l.layout v) := by
  have hfits : ∀ {n : Nat}, g.Fits n → n ≤ limits.writable := (Rules.fits_iff hg).mp
  cases l with
  | text => exact ⟨decide_eq_true (hfits h.1), trivial, fun _ => h.2⟩
  | decimal =>
      obtain ⟨flag, u, rfl, hmarks, hd⟩ := h
      obtain ⟨hwritable, hlayout⟩ := hd.laidOut hg
      refine ⟨hwritable, trivial, fun hcanonical => ?_⟩
      rw [hmarks.2 hcanonical]
      exact (hlayout hcanonical).symm
  | fixed =>
      obtain ⟨flag, u, rfl, hmarks, hd⟩ := h
      obtain ⟨hwritable, hlayout⟩ := hd.laidOut hg hlimit
      refine ⟨hwritable, trivial, fun hcanonical => ?_⟩
      rw [hmarks.2 hcanonical]
      exact (hlayout hcanonical).symm
  | date =>
      refine ⟨rfl, trivial, fun hcanonical => h.eq_of_canonical hcanonical ?_⟩
      intro u h
      rcases h with ⟨day, rfl, hday⟩
      rw [← v.toInt_day64, Int64.toInt_inj] at hday
      rw [hday]
  | timestamp =>
      refine ⟨rfl, trivial, fun hcanonical => h.eq_of_canonical hcanonical ?_⟩
      intro u h
      rcases h with ⟨seconds, nanos, rfl, hseconds, hnanos⟩
      rw [← v.toInt_toTimestamp_fst, Int64.toInt_inj] at hseconds
      rw [← v.toInt_toTimestamp_snd, Int32.toInt_inj] at hnanos
      rw [hseconds, hnanos]
      rfl
  | dateTime =>
      refine ⟨?_, trivial, fun hcanonical => h.eq_of_canonical hcanonical ?_⟩
      · obtain ⟨flag, u, rfl, hmarks, day, nano, rfl, hday, hnano, hleap⟩ := h
        simpa [writable] using hleap
      · intro u h
        rcases h with ⟨day, nano, rfl, hday, hnano, hleap⟩
        rw [← v.date.toInt_day64, Int64.toInt_inj] at hday
        rw [← DateTime.toInt_nanoOfDay, Int64.toInt_inj] at hnano
        rw [hday, hnano]
        rfl
  | bytes =>
      obtain ⟨flag, u, rfl, hmarks, hlength, rfl⟩ := h
      refine ⟨decide_eq_true (hfits hlength), trivial, fun hcanonical => ?_⟩
      rw [hmarks.2 hcanonical]
      rfl
  | enumName e =>
      obtain ⟨before, after, hvariants, hfirst, htext⟩ := h
      exact ⟨decide_eq_true (hfits htext.1), ⟨before, after, hvariants, hfirst⟩, fun _ => htext.2⟩
  | enumOrdinal e =>
      obtain ⟨i, hi, hv, rfl⟩ := h
      have hordinal := Enumeration.ordinal_of_nodup (hdistinct e rfl) hv
      exact ⟨rfl, ⟨i, hi, hv, hordinal⟩, fun _ => (congrArg word32 hordinal).symm⟩

mutual

/-- The enumerations whose variants stand in a field, those of nested records apart. -/
def Field.enumerations : Field ι → List (Enumeration String)
  | .optional k => k.enumerations
  | .required _ k => k.enumerations
  | _ => []

/-- The same for a kind of value. -/
def Kind.enumerations : Kind ι → List (Enumeration String)
  | .leaf l => l.enumeration?.toList
  | .seq f => f.enumerations
  | .map f => f.enumerations
  | _ => []

end

/-- No enumeration of these fields lists a variant twice. -/
def DistinctVariants (fs : List (Field ι)) : Prop :=
  ∀ f ∈ fs, ∀ e ∈ f.enumerations, e.variants.Nodup

/-- What a spelling shows of a field's value. -/
def Value.LaidOut (g : Rules ι) (limits : Limits) (levels : Nat) {f : Field ι} (v : Value S f)
    (w : List UInt8) : Prop :=
  (∀ e ∈ f.enumerations, e.variants.Nodup) →
    v.Spellable g limits levels ∧ (g.canonical = true → w = v.layout)

/-- The same for a value that is present. -/
def Item.LaidOut (g : Rules ι) (limits : Limits) (levels : Nat) {k : Kind ι} (item : Item S k)
    (w : List UInt8) : Prop :=
  (∀ e ∈ k.enumerations, e.variants.Nodup) →
    item.Spellable g limits levels ∧ (g.canonical = true → w = item.layout)

/-- The same for a record. -/
def Record.LaidOut (g : Rules ι) (limits : Limits) (levels : Nat) {fs : List (Field ι)}
    (record : Record S fs) (w : List UInt8) : Prop :=
  DistinctVariants fs →
    record.Spellable g limits levels ∧ (g.canonical = true → w = record.layout)

/-- The same for the items of a sequence. -/
def LaidOutList (g : Rules ι) (limits : Limits) (levels : Nat) {f : Field ι}
    (values : List (Value S f)) (w : List UInt8) : Prop :=
  (∀ e ∈ f.enumerations, e.variants.Nodup) →
    (∀ v ∈ values, v.Spellable g limits levels) ∧
      (g.canonical = true → w = values.flatMap Value.layout)

/-- The same for the pairs of a mapping. -/
def LaidOutPairs (g : Rules ι) (limits : Limits) (levels : Nat) {f : Field ι}
    (pairs : List (String × Value S f)) (w : List UInt8) : Prop :=
  (∀ e ∈ f.enumerations, e.variants.Nodup) →
    (∀ pair ∈ pairs, (Utf8.encode pair.1).length ≤ limits.writable ∧
      pair.2.Spellable g limits levels) ∧
      (g.canonical = true → w = pairs.flatMap fun pair => textLayout pair.1 ++ pair.2.layout)

/-- What makes everything that is spelled by these rules writable under these limits. -/
structure Rules.Agrees (g : Rules ι) (limits : Limits) (S : Schema ι) : Prop where
  maxLength_eq : g.maxLength = limits.maxLength
  /-- The magnitude of a fixed decimal is written in up to 13 bytes, in however few it
  was read. -/
  fixed_fits : 13 ≤ limits.maxLength
  tag_of_knows : ∀ tag t, g.knows tag t → tag = (S t).tag
  distinct : ∀ t, DistinctVariants (S t).fields

mutual

/-- A value with a spelling can be written, and its layout is the canonical spelling. -/
theorem Value.Spelled.laidOut (ha : g.Agrees limits S) {levels : Nat} {f : Field ι}
    {v : Value S f} {w : List UInt8} :
    Value.Spelled g levels v w → v.LaidOut g limits levels w
  | .scalar h, _ => ⟨⟨rfl, Nat.zero_le _, trivial⟩, Scalar.eq_layout_of_canonical h⟩
  | .string h, _ =>
      ⟨⟨decide_eq_true ((Rules.fits_iff ha.maxLength_eq).mp h.1), Nat.zero_le _, trivial⟩,
        fun _ => h.2⟩
  | .absent k, _ => ⟨⟨rfl, Nat.zero_le _, trivial⟩, fun _ => rfl⟩
  | .present h, hf => h.laidOut ha hf
  | .required h, hf => h.laidOut ha hf
  | .guard what, _ => ⟨⟨rfl, Nat.zero_le _, trivial⟩, fun _ => rfl⟩

/-- The same for a value that is present. -/
theorem Item.Spelled.laidOut (ha : g.Agrees limits S) {levels : Nat} {k : Kind ι}
    {item : Item S k} {w : List UInt8} :
    Item.Spelled g levels item w → item.LaidOut g limits levels w
  | .leaf h, hk => by
      obtain ⟨hwritable, hfound, hlayout⟩ :=
        Leaf.laidOut_of_spelled ha.maxLength_eq ha.fixed_fits
          (fun e he => hk e (by simpa [Kind.enumerations] using he)) h
      exact ⟨⟨hwritable, Nat.zero_le _, hfound⟩, hlayout⟩
  | .nested (t := t) hmarks h, _ => by
      obtain ⟨⟨hwritable, hnesting, hfound⟩, hlayout⟩ := h.laidOut ha (ha.distinct t)
      refine ⟨⟨hwritable, Nat.succ_le_succ hnesting, hfound⟩, fun hcanonical => ?_⟩
      rw [hmarks.2 hcanonical, hlayout hcanonical]
      rfl
  | .dynamic (t := t) hmarks htag h, _ => by
      obtain ⟨⟨hwritable, hnesting, hfound⟩, hlayout⟩ := h.laidOut ha (ha.distinct t)
      obtain rfl := ha.tag_of_knows _ _ htag
      refine ⟨⟨hwritable, Nat.succ_le_succ hnesting, htag, hfound⟩, fun hcanonical => ?_⟩
      rw [hmarks.2 hcanonical, hlayout hcanonical]
      rfl
  | .seq values rfl hfits h, hk => by
      obtain ⟨hvalues, hlayout⟩ := h.laidOut ha hk
      refine ⟨Item.spellable_ofList.mpr ⟨(Rules.fits_iff ha.maxLength_eq).mp hfits, hvalues⟩,
        fun hcanonical => ?_⟩
      rw [Item.layout_ofList, hlayout hcanonical]
  | .map pairs rfl hfits h hascending, hk => by
      obtain ⟨hpairs, hlayout⟩ := h.laidOut ha hk
      have hlength := SortedMap.length_entries_ofPairs_le pairs
      have hmax := (Rules.fits_iff ha.maxLength_eq).mp hfits
      refine ⟨Item.spellable_ofMap.mpr ⟨Nat.le_trans hlength hmax, fun entry hentry =>
        hpairs entry (SortedMap.mem_of_mem_entries_ofPairs hentry)⟩, fun hcanonical => ?_⟩
      rw [Item.ofPairs_eq, Item.layout_ofMap, SortedMap.entries_ofPairs (hascending hcanonical),
        hlayout hcanonical]

/-- The same for a record. -/
theorem Record.Spelled.laidOut (ha : g.Agrees limits S) {levels : Nat} {fs : List (Field ι)}
    {record : Record S fs} {w : List UInt8} :
    Record.Spelled g levels record w → record.LaidOut g limits levels w
  | .nil, _ => ⟨⟨rfl, Nat.zero_le _, trivial⟩, fun _ => rfl⟩
  | .cons hv hrest, hfs => by
      obtain ⟨hspellable, hlayout⟩ := hv.laidOut ha (hfs _ List.mem_cons_self)
      obtain ⟨hrestSpellable, hrestLayout⟩ :=
        hrest.laidOut ha fun f hf => hfs f (List.mem_cons_of_mem _ hf)
      refine ⟨Record.spellable_iff.mpr ⟨hspellable, Record.spellable_iff.mp hrestSpellable⟩,
        fun hcanonical => ?_⟩
      rw [hlayout hcanonical, hrestLayout hcanonical]
      rfl

/-- The same for the items of a sequence. -/
theorem SpelledList.laidOut (ha : g.Agrees limits S) {levels : Nat} {f : Field ι}
    {values : List (Value S f)} {w : List UInt8} :
    SpelledList g levels values w → LaidOutList g limits levels values w
  | .nil, _ => ⟨by simp, fun _ => rfl⟩
  | .cons hv hrest, hf => by
      obtain ⟨hspellable, hlayout⟩ := hv.laidOut ha hf
      obtain ⟨hrestSpellable, hrestLayout⟩ := hrest.laidOut ha hf
      refine ⟨List.forall_mem_cons.mpr ⟨hspellable, hrestSpellable⟩, fun hcanonical => ?_⟩
      rw [hlayout hcanonical, hrestLayout hcanonical]
      rfl

/-- The same for the pairs of a mapping. -/
theorem SpelledPairs.laidOut (ha : g.Agrees limits S) {levels : Nat} {f : Field ι}
    {pairs : List (String × Value S f)} {w : List UInt8} :
    SpelledPairs g levels pairs w → LaidOutPairs g limits levels pairs w
  | .nil, _ => ⟨by simp, fun _ => rfl⟩
  | .cons hkey hv hrest, hf => by
      obtain ⟨hspellable, hlayout⟩ := hv.laidOut ha hf
      obtain ⟨hrestSpellable, hrestLayout⟩ := hrest.laidOut ha hf
      refine ⟨List.forall_mem_cons.mpr
        ⟨⟨(Rules.fits_iff ha.maxLength_eq).mp hkey.1, hspellable⟩, hrestSpellable⟩,
        fun hcanonical => ?_⟩
      rw [hkey.2, hlayout hcanonical, hrestLayout hcanonical]
      rfl

end

end TagWire
