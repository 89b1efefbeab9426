import TagWire.Proofs.RoundTrip

/-!
# Writing again what was read

Whatever bytes a record was read from, valid or hostile, it can be written again
under the same limits, and what is written is read as the same record:

* `Registry.agrees` — a registry knows a tag only for the type that has it;
* `Record.rewritten_of_read` — a record that was read is written as its layout,
  which is the bytes it was read from exactly if these were canonical.

A reader accepts more than one spelling in four places only: flags of presence
and truth, magnitudes of decimals, scales of fixed decimals, and the pairs of
mappings.  `Rules.canonical` pins these down, one by one.
-/

namespace TagWire

variable {ι : Type} {S : Schema ι}

/-- The rules under which only canonical spellings are left. -/
def Rules.strict (g : Rules ι) : Rules ι := { g with canonical := true }

/-- Everything that a session with a registry reads can be written under its limits, if these
leave room for the longest magnitude of a fixed decimal. -/
theorem Registry.agrees (registry : Registry S) {limits : Limits} (hlimit : 13 ≤ limits.maxLength)
    (hdistinct : ∀ t, DistinctVariants (S t).fields) :
    (Rules.of limits (some registry.resolve)).Agrees limits S where
  maxLength_eq := rfl
  fixed_fits := hlimit
  tag_of_knows tag t hknows := by
    have hfound := List.find?_some (Registry.knows_iff.mp hknows)
    exact (of_decide_eq_true hfound).symm
  distinct := hdistinct

/-- The bytes of a mapping with these entries. -/
def mappingLayout {f : Field ι} (entries : List (String × Value S f)) : List UInt8 :=
  prefixBytes entries.length ++
    entries.flatMap fun entry => textLayout entry.1 ++ entry.2.layout

/-- A mapping is read from pairs in any order and with any keys, and written with its keys in
ascending order, each of them once and with the value of its last pair. -/
def RewrittenSorted (S : Schema ι) (limits : Limits) (resolver? : Option (TypeTag → Except Fault ι))
    (f : Field ι) : Prop :=
  ∀ (pairs : List (String × Value S f)) (w : List UInt8),
    (Rules.of limits resolver?).Fits pairs.length →
    SpelledPairs (Rules.of limits resolver?) limits.maxDepth pairs w →
    ∃ (item : Item S (.map f)) (entries : List (String × Value S f)),
      Kind.read (readRecord limits.maxDepth) (.map f)
        (.start limits resolver? (prefixBytes pairs.length ++ w)) =
          .ok (some item) (.start limits resolver? []) ∧
      item.write { sink := {}, limits } =
        .ok () { sink := { held := mappingLayout entries }, limits } ∧
      (entries.map Prod.fst).Pairwise Utf8.Before ∧
      ∀ k v, (k, v) ∈ entries ↔
        ∃ before after, pairs = before ++ (k, v) :: after ∧ k ∉ after.map Prod.fst

/-- Where values of the field can be written again, mappings to them are written sorted. -/
theorem rewrittenSorted {limits : Limits} {resolver? : Option (TypeTag → Except Fault ι)}
    (hagrees : (Rules.of limits resolver?).Agrees limits S) {f : Field ι}
    (hf : ∀ e ∈ f.enumerations, e.variants.Nodup) : RewrittenSorted S limits resolver? f := by
  intro pairs w hfits hpairs
  have hspelled : Item.Spelled (Rules.of limits resolver?) limits.maxDepth (Item.ofPairs pairs)
      (prefixBytes pairs.length ++ w) :=
    .map pairs rfl hfits hpairs fun hcanonical => Bool.noConfusion hcanonical
  have hrecognises := Kind.recognises (S := S) (r := .start limits resolver? []) rfl
    (recognises_entered rfl (Nat.zero_add limits.maxDepth)) (.map f)
  obtain ⟨hspellable, -⟩ := hspelled.laidOut hagrees hf
  refine ⟨Item.ofPairs pairs, (SortedMap.ofPairs pairs).entries, ?_, ?_,
    (SortedMap.ofPairs pairs).ascending, fun _ _ => SortedMap.mem_entries_ofPairs_iff⟩
  · exact (hrecognises _ _ _).mpr ⟨_, [], (List.append_nil _).symm, hspelled, rfl⟩
  · have hwrites : Write.Writes limits (Value.present (.map f) (Item.ofPairs pairs)).write _ _ :=
      Value.writes _
    rw [mappingLayout, ← Item.layout_ofMap, ← Item.ofPairs_eq]
    exact hwrites.run_unbounded.mpr ⟨hspellable.1, rfl⟩

/-- **Writing again what was read.**  If a record was read from some bytes, it is written
again under the same limits; what is written is read as the same record and to its end, and
it is what was read exactly if that was canonical.  Pairs of a mapping are written sorted. -/
theorem Record.rewritten_of_read (registry : Registry S) (limits : Limits) (b : List UInt8)
    {fs : List (Field ι)} (record : Record S fs) {r : Reader ι}
    (hlimit : 13 ≤ limits.maxLength) (hfields : DistinctVariants fs)
    (htypes : ∀ t, DistinctVariants (S t).fields)
    (hread : readFields (readRecord limits.maxDepth) fs
      (.start limits (some registry.resolve) b) = .ok record r) :
    ∃ n b', n ≤ b.length ∧ r = .start limits (some registry.resolve) (b.drop n) ∧
      record.write { sink := {}, limits } = .ok () { sink := { held := b' }, limits } ∧
      readFields (readRecord limits.maxDepth) fs (.start limits (some registry.resolve) b') =
        .ok record (.start limits (some registry.resolve) []) ∧
      (b' = b.take n ↔
        Record.Spelled (Rules.of limits (some registry.resolve)).strict limits.maxDepth record
          (b.take n)) ∧
      ∀ f : Field ι, (∀ e ∈ f.enumerations, e.variants.Nodup) →
        RewrittenSorted S limits (some registry.resolve) f := by
  have hrecognises := readFields_recognises (S := S)
    (r := .start limits (some registry.resolve) []) rfl (Nat.zero_add limits.maxDepth) fs
  obtain ⟨w, rest, rfl, hspelled, rfl⟩ := (hrecognises b record r).mp hread
  have hagrees := registry.agrees hlimit htypes
  have hstrict : (Rules.of limits (some registry.resolve)).strict.Agrees limits S :=
    ⟨hagrees.maxLength_eq, hagrees.fixed_fits, hagrees.tag_of_knows, hagrees.distinct⟩
  obtain ⟨hspellable, -⟩ := hspelled.laidOut hagrees hfields
  refine ⟨w.length, record.layout, by simp, by simp; rfl, ?_, ?_, ?_,
    fun _ hf => rewrittenSorted hagrees hf⟩
  · exact record.writes.run_unbounded.mpr ⟨hspellable.1, rfl⟩
  · refine (hrecognises record.layout record _).mpr ⟨_, [], (List.append_nil _).symm, ?_, rfl⟩
    exact record.spelled_layout hagrees.maxLength_eq hspellable
  · rw [List.take_left]
    constructor
    · intro h
      subst h
      exact record.spelled_layout hstrict.maxLength_eq hspellable
    · intro hcanonical
      exact ((hcanonical.laidOut hstrict hfields).2 rfl).symm

/-- A truth value and a decimal, in bytes that are not canonical: two for true, seven for
present, and a magnitude with a redundant zero. -/
def looseBytes : List UInt8 := [2, 7, 0, 0, 0, 0, 0, 0, 0, 2, 0, 5, 9]

theorem loose_rewritten_of_read :
    let session := Reader.start ⟨64, 1⟩ (some parcels.resolve)
    let fields : List (Field Unit) := [.scalar .bool, .optional (.leaf .decimal)]
    let record : Record parcel fields :=
      .cons (.scalar .bool true) (.cons (.present _ (.leaf .decimal ⟨5, 0⟩)) .nil)
    ∃ n b', n ≤ looseBytes.length ∧ session [9] = session (looseBytes.drop n) ∧
      record.write { sink := {}, limits := ⟨64, 1⟩ } =
        .ok () { sink := { held := b' }, limits := ⟨64, 1⟩ } ∧
      readFields (readRecord 1) fields (session b') = .ok record (session []) := by
  intro session fields record
  have htypes : ∀ t, DistinctVariants (parcel t).fields := by
    intro t f hf e he
    simp only [parcel, List.mem_cons, List.not_mem_nil, or_false] at hf
    rcases hf with rfl | rfl
    · cases List.mem_singleton.mp he
      decide
    · cases he
  have hfields : DistinctVariants fields := by
    intro f hf e he
    simp only [fields, List.mem_cons, List.not_mem_nil, or_false] at hf
    rcases hf with rfl | rfl <;> cases he
  obtain ⟨n, b', hn, hrest, hwritten, hread, -⟩ := Record.rewritten_of_read parcels ⟨64, 1⟩
    looseBytes record (by decide) hfields htypes rfl
  exact ⟨n, b', hn, hrest, hwritten, hread⟩

end TagWire
