import TagWire.Proofs.Canonical
import TagWire.Proofs.Reading

/-!
# Variants on the wire

A value of an enumeration is written by its ordinal or by its name, and what is read is looked up
in the list of variants.  Nothing is asked of that list: it may hold a variant twice, several
variants may have one name, and a value need not be listed at all.

* `Read.run_enumOrdinal`, `Read.run_enumName` — what is read from an ordinal and from a name;
* `Enumeration.ordinal_reads_as_absent_iff` — a value without a position is written as if there
  were none, and is read as none;
* `Enumeration.Survives` — which values come back from their ordinals and their names;
* `Enumeration.Rewritten` — which ordinals and names are read, and written again as they were;
* `Enumeration.survives_and_rewritten` — both hold of every enumeration with fewer than `2 ^ 31`
  variants.
-/

namespace TagWire

variable {ι α V : Type}

/-! ## Words and texts -/

/-- A word is known by its bytes. -/
theorem word32_injective : Function.Injective word32 := by
  have hdecode : ∀ v : Int32, BigEndian.decode (word32 v) = v.toUInt32.toNat := by
    intro v
    rw [word32, BigEndian.decode_encode]
    exact Nat.mod_eq_of_lt v.toUInt32.toNat_lt
  intro a b h
  have hbits : a.toUInt32.toNat = b.toUInt32.toNat := by rw [← hdecode, h, hdecode]
  have hsigned := congrArg UInt32.toInt32 (UInt32.toNat_inj.mp hbits)
  rwa [Int32.toInt32_toUInt32, Int32.toInt32_toUInt32] at hsigned

/-- A text is known by its bytes behind their number. -/
theorem textLayout_injective : Function.Injective textLayout := by
  intro a b h
  have hprefix : (prefixBytes (Utf8.encode a).length).length =
      (prefixBytes (Utf8.encode b).length).length := by
    simp only [prefixBytes, word32, BigEndian.length_encode]
  exact Utf8.encode_injective (List.append_inj_right h hprefix)

namespace Write

variable {limits : Limits}

/-- A sink that has taken some bytes holds them behind what it held. -/
theorem held_of_emit_ok {bytes : List UInt8} {w w' : Writer} (h : emit bytes w = .ok () w') :
    w'.sink.held = w.sink.held ++ bytes := by
  cases hw : w.poisoned with
  | true => simp [emit, hw] at h
  | false =>
      cases hsink : w.sink.write bytes with
      | mk outcome sink =>
          cases outcome with
          | error cause => cases (emit_of_refused hw hsink).symm.trans h
          | ok _ =>
              cases (emit_of_taken hw hsink).symm.trans h
              have hall : w.sink.fitting bytes = bytes := by
                refine List.IsPrefix.eq_of_length ?_ (Sink.fits_of_write_ok hsink)
                unfold Sink.fitting
                split
                · exact List.prefix_rfl
                · exact List.take_prefix _ bytes
              have hheld := Sink.write_snd w.sink bytes
              rw [hsink, hall] at hheld
              exact congrArg Sink.held hheld

/-- Text is written when it is not too long. -/
theorem writes_text (v : String) :
    Writes limits (text (some v)) ((Utf8.encode v).length ≤ limits.writable) (textLayout v) where
  emits hfits := (performs_sized .text (Utf8.encode v)).emits (Flaw.overlong?_eq_none_iff.mpr hfits)
  fails hlong := by
    have hflaw : Flaw.overlong? limits.writable [] .text (Utf8.encode v).length = some _ :=
      if_pos (Nat.lt_of_not_le hlong)
    exact ((performs_sized .text (Utf8.encode v)).stops _ hflaw).fails

end Write

/-! ## What is read -/

namespace Read

variable {r : Reader ι} (e : Enumeration V)

/-- An ordinal is that of absence, or it is looked up. -/
theorem run_enumOrdinal (hr : r.poisoned = false) (ordinal : Int32) (rest : List UInt8) :
    enumOrdinal e (r.on (word32 ordinal ++ rest)) =
      if ordinal = absentMark then .ok none (r.on rest)
      else match e.ofOrdinal? ordinal with
        | some v => .ok (some v) (r.on rest)
        | none => .error (.session (.unknownVariant e.label (toString ordinal)))
            { r.on rest with poisoned := true } := by
  have hword : i32 (r.on (word32 ordinal ++ rest)) = .ok ordinal (r.on rest) :=
    (recognises_i32 hr _ _ _).mpr ⟨_, rest, rfl, rfl, rfl⟩
  unfold enumOrdinal
  rw [run_bind_ok hword]
  split
  · rfl
  · cases e.ofOrdinal? ordinal <;> rfl

/-- A name is looked up. -/
theorem run_enumName (hr : r.poisoned = false) {name : String} (rest : List UInt8)
    (hfits : r.rules.Fits (Utf8.encode name).length) :
    enumName e (r.on (textLayout name ++ rest)) =
      match e.ofName? name with
      | some v => .ok (some v) (r.on rest)
      | none => .error (.session (.unknownVariant e.label name))
          { r.on rest with poisoned := true } := by
  have htext : text (r.on (textLayout name ++ rest)) = .ok (some name) (r.on rest) :=
    (recognises_text hr _ _ _).mpr ⟨_, rest, rfl, ⟨hfits, rfl⟩, rfl⟩
  unfold enumName
  rw [run_bind_ok htext]
  dsimp only
  cases e.ofName? name <;> rfl

/-- Where a variant is read by its name, a text is read. -/
theorem text_of_enumName {r' : Reader ι} {v : V} (h : enumName e r = .ok (some v) r') :
    ∃ name, text r = .ok (some name) r' := by
  obtain ⟨name?, s, htext, hfound⟩ := run_bind_eq_ok_iff.mp h
  cases name? with
  | none => cases hfound
  | some name =>
      dsimp only at hfound
      cases hvariant : e.ofName? name with
      | none =>
          rw [hvariant] at hfound
          cases hfound
      | some u =>
          rw [hvariant] at hfound
          cases hfound
          exact ⟨name, htext⟩

end Read

namespace Enumeration

/-! ## Values without a position -/

section Positions

variable [BEq V] (e : Enumeration V) (v : V)

/-- No variant is the same as the value, or the first one that is stands where its position, in a
word of 32 bits, is that of absence. -/
def Unplaced : Prop :=
  ∀ i, e.variants.findIdx? (· == v) = some i → i % 2 ^ 32 = 2 ^ 32 - 1

variable {e v}

/-- A position is an ordinal. -/
theorem ordinal_of_findIdx? {i : Nat} (h : e.variants.findIdx? (· == v) = some i) :
    e.ordinal v = Int32.ofNat i := by
  unfold ordinal
  rw [h]

/-- Only a value without a position has the ordinal of absence. -/
theorem ordinal_eq_absentMark_iff : e.ordinal v = absentMark ↔ e.Unplaced v := by
  cases hfound : e.variants.findIdx? (· == v) with
  | none =>
      refine iff_of_true ?_ fun i hi => by cases hfound.symm.trans hi
      unfold ordinal
      rw [hfound]
      rfl
  | some i =>
      have hword : Int32.ofNat i = absentMark ↔ (i : Int).bmod (2 ^ 32) = -1 :=
        Int32.ofInt_eq_iff_bmod_eq_toInt i absentMark
      have hbits : (i : Int).bmod (2 ^ 32) = -1 ↔ i % 2 ^ 32 = 2 ^ 32 - 1 := by
        unfold Int.bmod
        dsimp only
        split <;> omega
      rw [ordinal_of_findIdx? hfound, hword, hbits]
      constructor
      · intro h j hj
        cases hfound.symm.trans hj
        exact h
      · exact fun h => h i hfound

/-- In a list that is not longer than there are words, these are the values that are not
listed. -/
theorem unplaced_iff (hcount : e.variants.length < 2 ^ 32) :
    e.Unplaced v ↔ ∀ u ∈ e.variants, (u == v) = false := by
  rw [← List.findIdx?_eq_none_iff]
  constructor
  · intro h
    cases hfound : e.variants.findIdx? (· == v) with
    | none => rfl
    | some i =>
        obtain ⟨hi, -⟩ := List.findIdx?_eq_some_iff_getElem.mp hfound
        have hlast := h i hfound
        omega
  · intro hnone i hi
    cases hnone.symm.trans hi

/-- **A value without a position is taken for none.**  When a value has been written by its
ordinal, the session has been handed what it is handed for the absence of a value exactly if the
value has no position, and it is then, and only then, that the absence of a value is read. -/
theorem ordinal_reads_as_absent_iff {w w' : Writer}
    (hwritten : Write.enumOrdinal e (some v) w = .ok () w') :
    (Write.enumOrdinal e none w = .ok () w' ↔ e.Unplaced v) ∧
    (∀ (limits : Limits) (resolver? : Option (TypeTag → Except Fault ι)) (rest : List UInt8),
      let bytes := w'.sink.held.drop w.sink.held.length
      (∃ r, Read.enumOrdinal e (.start limits resolver? (bytes ++ rest)) = .ok none r) ↔
        e.Unplaced v) ∧
    (e.variants.length < 2 ^ 32 → (e.Unplaced v ↔ ∀ u ∈ e.variants, (u == v) = false)) := by
  have hheld : w'.sink.held = w.sink.held ++ word32 (e.ordinal v) :=
    Write.held_of_emit_ok hwritten
  refine ⟨⟨fun habsent => ?_, fun h => ?_⟩, fun limits resolver? rest => ?_, unplaced_iff⟩
  · have hother : w'.sink.held = w.sink.held ++ word32 absentMark :=
      Write.held_of_emit_ok habsent
    have hwords := List.append_cancel_left (hheld.symm.trans hother)
    exact ordinal_eq_absentMark_iff.mp (word32_injective hwords)
  · have hordinal : e.ordinal v = absentMark := ordinal_eq_absentMark_iff.mpr h
    rw [← hwritten]
    unfold Write.enumOrdinal
    rw [Option.map_some, Option.getD_some, hordinal]
    rfl
  · intro bytes
    have hbytes : bytes = word32 (e.ordinal v) := by
      unfold bytes
      rw [hheld, List.drop_left]
    have hread := Read.run_enumOrdinal (r := .start limits resolver? []) e rfl (e.ordinal v) rest
    rw [hbytes, ← ordinal_eq_absentMark_iff]
    change (∃ r, Read.enumOrdinal e ((Reader.start limits resolver? []).on _) = .ok none r) ↔ _
    rw [hread]
    split
    · next habsent => exact iff_of_true ⟨_, rfl⟩ habsent
    · next hpresent =>
        refine iff_of_false ?_ hpresent
        rintro ⟨r, h⟩
        cases hfound : e.ofOrdinal? (e.ordinal v) <;> rw [hfound] at h <;> cases h

end Positions

/-- Colours of which two have one name and one is listed twice. -/
def colours : Enumeration String where
  label := "Colour"
  variants := ["RED", "GREEN", "BLUE", "AZURE", "RED"]
  name v := if v = "AZURE" then "BLUE" else v

/-- A listed colour is not taken for none. -/
theorem azure_ordinal_reads_as_present :
    let w' : Writer := { sink := { held := [0, 0, 0, 3] } }
    Write.enumOrdinal colours (some "AZURE") { sink := {} } = .ok () w' ∧
      Write.enumOrdinal colours none { sink := {} } ≠ .ok () w' ∧
      ¬ ∃ r : Reader Empty,
        Read.enumOrdinal colours (.start {} none ([0, 0, 0, 3] ++ [7])) = .ok none r := by
  intro w'
  have hwritten : Write.enumOrdinal colours (some "AZURE") { sink := {} } = .ok () w' := rfl
  obtain ⟨hsame, hread, hlisted⟩ := ordinal_reads_as_absent_iff (ι := Empty) hwritten
  have hplaced : ¬ colours.Unplaced "AZURE" := by
    rw [hlisted (by decide)]
    decide
  exact ⟨hwritten, fun h => hplaced (hsame.mp h), fun h => hplaced ((hread {} none [7]).mp h)⟩

/-- A colour that is not listed is written as if there were none, and read as none. -/
theorem hidden_taken_for_none :
    let w' : Writer := { sink := { held := [0xFF, 0xFF, 0xFF, 0xFF] } }
    Write.enumOrdinal colours (some "HIDDEN") { sink := {} } = .ok () w' ∧
      Write.enumOrdinal colours none { sink := {} } = .ok () w' ∧
      Read.enumOrdinal colours (.start {} none w'.sink.held) =
        .ok none (Reader.start (ι := Empty) {} none []) :=
  ⟨rfl, rfl, rfl⟩

/-! ## There and back -/

/-- What comes of the bytes that one program writes when another one reads them, with others behind
them, on a new session under the same limits: the outcome of the reader, or else the fault of the
writer. -/
def handOver (limits : Limits) (resolver? : Option (TypeTag → Except Fault ι)) (p : Write Unit)
    (q : Read ι α) (rest : List UInt8) : Except Fault (Except Fault α × Source) :=
  match p { sink := {}, limits } with
  | .ok _ w => .ok (Read.outcome (q (.start limits resolver? (w.sink.held ++ rest))))
  | .error failure _ => .error failure.fault

/-- The first variant of a name. -/
def FirstNamed (e : Enumeration V) (name : String) (v : V) : Prop :=
  e.name v = name ∧
    ∃ before after, e.variants = before ++ v :: after ∧ ∀ u ∈ before, e.name u ≠ name

/-- The name of a value can be written and read under these limits. -/
def NameFits (e : Enumeration V) (limits : Limits) (v : V) : Prop :=
  (Utf8.encode (e.name v)).length ≤ limits.writable

section Journeys

variable [BEq V] (e : Enumeration V) (limits : Limits)
variable (resolver? : Option (TypeTag → Except Fault ι)) (rest : List UInt8)

/-- What is read when a value has been written by its ordinal. -/
def overOrdinal (v : V) : Except Fault (Except Fault (Option V) × Source) :=
  handOver limits resolver? (Write.enumOrdinal e (some v)) (Read.enumOrdinal e) rest

/-- What is read when a value has been written by its name. -/
def overName (v : V) : Except Fault (Except Fault (Option V) × Source) :=
  handOver limits resolver? (Write.enumName e (some v)) (Read.enumName e) rest

/-- Which values come back. -/
structure Survives : Prop where
  /-- By their ordinals, those that are listed. -/
  by_ordinal : ∀ v, e.overOrdinal limits resolver? rest v = .ok (.ok (some v), .ofBytes rest) ↔
    v ∈ e.variants
  /-- By the ordinal of a value that is not listed, nothing. -/
  by_no_ordinal : ∀ v ∉ e.variants,
    e.overOrdinal limits resolver? rest v = .ok (.ok none, .ofBytes rest)
  /-- A name is written if there is room for it. -/
  name_written : ∀ v,
    (∃ w, Write.enumName e (some v) { sink := {}, limits } = .ok () w) ↔ e.NameFits limits v
  /-- By a name, the first variant that has it. -/
  by_name : ∀ v u, e.NameFits limits v →
    (e.overName limits resolver? rest v = .ok (.ok (some u), .ofBytes rest) ↔
      e.FirstNamed (e.name v) u)
  /-- A name that no variant has is refused. -/
  by_unknown_name : ∀ v, e.NameFits limits v →
    (e.overName limits resolver? rest v =
        .ok (.error (.unknownVariant e.label (e.name v)), .ofBytes rest) ↔
      ∀ u ∈ e.variants, e.name u ≠ e.name v)
  /-- So all variants come back by their names if these tell them apart. -/
  all_by_name :
    (∀ v ∈ e.variants, e.NameFits limits v →
      e.overName limits resolver? rest v = .ok (.ok (some v), .ofBytes rest)) ↔
    ∀ u ∈ e.variants, ∀ v ∈ e.variants, e.NameFits limits v → e.name u = e.name v → u = v

/-- What is read from an ordinal. -/
def fromOrdinal (ordinal : Int32) : Except Fault (Option V) × Source :=
  Read.outcome (Read.enumOrdinal e (.start limits resolver? (word32 ordinal ++ rest)))

/-- What is read from a name. -/
def fromName (name : String) : Except Fault (Option V) × Source :=
  Read.outcome (Read.enumName e (.start limits resolver? (textLayout name ++ rest)))

/-- Which spellings are read, and written again as they were. -/
structure Rewritten : Prop where
  /-- The ordinals of the positions are read. -/
  ordinal_read : ∀ o : Int32,
    (∃ v, e.fromOrdinal limits resolver? rest o = (.ok (some v), .ofBytes rest)) ↔
      0 ≤ o.toInt ∧ o.toInt < e.variants.length
  /-- All others are refused, but for that of absence. -/
  ordinal_refused : ∀ o : Int32, o ≠ absentMark → ¬ (0 ≤ o.toInt ∧ o.toInt < e.variants.length) →
    e.fromOrdinal limits resolver? rest o =
      (.error (.unknownVariant e.label (toString o)), .ofBytes rest)
  /-- An ordinal is written again if the variant does not stand at an earlier position as well. -/
  ordinal_again : ∀ (o : Int32) (v : V),
    e.fromOrdinal limits resolver? rest o = (.ok (some v), .ofBytes rest) →
    (Write.enumOrdinal e (some v) { sink := {}, limits } =
        .ok () { sink := { held := word32 o }, limits } ↔
      ∀ u ∈ e.variants.take o.toInt.toNat, u ≠ v)
  /-- The names of the variants are read, if there is room for them. -/
  name_read : ∀ name,
    (∃ v, e.fromName limits resolver? rest name = (.ok (some v), .ofBytes rest)) ↔
      (Utf8.encode name).length ≤ limits.writable ∧ ∃ v ∈ e.variants, e.name v = name
  /-- Other names are refused. -/
  name_refused : ∀ name, (Utf8.encode name).length ≤ limits.writable →
    (∀ v ∈ e.variants, e.name v ≠ name) →
    e.fromName limits resolver? rest name =
      (.error (.unknownVariant e.label name), .ofBytes rest)
  /-- A name is written again. -/
  name_again : ∀ name v,
    e.fromName limits resolver? rest name = (.ok (some v), .ofBytes rest) →
    Write.enumName e (some v) { sink := {}, limits } =
      .ok () { sink := { held := textLayout name }, limits }

end Journeys

section Lookups

variable {e : Enumeration V} {limits : Limits} {resolver? : Option (TypeTag → Except Fault ι)}
variable {rest : List UInt8}

/-- What is read from an ordinal is the variant at its position. -/
theorem fromOrdinal_eq (o : Int32) :
    e.fromOrdinal limits resolver? rest o =
      (if o = absentMark then .ok none
        else match e.ofOrdinal? o with
          | some v => .ok (some v)
          | none => .error (.unknownVariant e.label (toString o)), .ofBytes rest) := by
  have hrun := Read.run_enumOrdinal (r := .start limits resolver? []) e rfl o rest
  refine (congrArg Read.outcome hrun).trans ?_
  split
  · rfl
  · cases e.ofOrdinal? o <;> rfl

/-- What is read from a name is the first variant that has it. -/
theorem fromName_eq {name : String} (hfits : (Utf8.encode name).length ≤ limits.writable) :
    e.fromName limits resolver? rest name =
      (match e.ofName? name with
        | some v => .ok (some v)
        | none => .error (.unknownVariant e.label name), .ofBytes rest) := by
  have hrun := Read.run_enumName (r := .start limits resolver? []) e rfl rest
    ((Rules.fits_iff rfl).mpr hfits)
  refine (congrArg Read.outcome hrun).trans ?_
  cases e.ofName? name <;> rfl

/-- A value that was written by its ordinal is read from it. -/
theorem overOrdinal_eq [BEq V] (v : V) :
    e.overOrdinal limits resolver? rest v =
      .ok (e.fromOrdinal limits resolver? rest (e.ordinal v)) := rfl

/-- A value that was written by its name is read from it. -/
theorem overName_eq {v : V} (hfits : e.NameFits limits v) :
    e.overName limits resolver? rest v =
      .ok (e.fromName limits resolver? rest (e.name v)) := by
  have hwritten := (Write.writes_text (e.name v)).run_unbounded.mpr ⟨hfits, rfl⟩
  unfold overName handOver
  rw [show Write.enumName e (some v) { sink := {}, limits } = _ from hwritten]
  rfl

/-- No variant has a name that is not found. -/
theorem ofName?_eq_none_iff {name : String} :
    e.ofName? name = none ↔ ∀ v ∈ e.variants, e.name v ≠ name := by
  simp [ofName?]

/-- A name is found if some variant has it. -/
theorem exists_firstNamed_iff {name : String} :
    (∃ v, e.FirstNamed name v) ↔ ∃ v ∈ e.variants, e.name v = name := by
  have hfound : (∃ v, e.ofName? name = some v) ↔ ¬ e.ofName? name = none := by
    rw [← Option.isSome_iff_exists, Option.isSome_iff_ne_none]
  simp only [FirstNamed, ← ofName?_eq_some_iff, hfound, ofName?_eq_none_iff]
  push Not
  rfl

section Names

variable {name : String} (hfits : (Utf8.encode name).length ≤ limits.writable)

include hfits

theorem fromName_eq_some_iff {v : V} :
    e.fromName limits resolver? rest name = (.ok (some v), .ofBytes rest) ↔
      e.FirstNamed name v := by
  rw [fromName_eq hfits, FirstNamed, ← ofName?_eq_some_iff]
  cases e.ofName? name <;> simp

theorem fromName_eq_unknown_iff :
    e.fromName limits resolver? rest name =
        (.error (.unknownVariant e.label name), .ofBytes rest) ↔
      ∀ v ∈ e.variants, e.name v ≠ name := by
  rw [fromName_eq hfits, ← ofName?_eq_none_iff]
  cases e.ofName? name <;> simp

end Names

/-- A name from which a variant is read is not too long. -/
theorem fits_of_fromName_eq_some {name : String} {v : V}
    (h : e.fromName limits resolver? rest name = (.ok (some v), .ofBytes rest)) :
    (Utf8.encode name).length ≤ limits.writable := by
  obtain ⟨r, hrun, hsource⟩ := Read.outcome_eq_ok_iff.mp h
  obtain ⟨found, htext⟩ := Read.text_of_enumName e hrun
  obtain ⟨w, rest', hbytes, ⟨hfits, rfl⟩, rfl⟩ :=
    (Read.recognises_text (r := .start limits resolver? []) rfl _ _ _).mp htext
  have hrest : rest' = rest := Source.ofBytes_injective hsource
  rw [hrest] at hbytes
  rw [textLayout_injective (List.append_cancel_right hbytes)]
  exact (Rules.fits_iff rfl).mp hfits

/-- A value that was written by its name comes back as the first variant that has it. -/
theorem overName_eq_some_iff {u v : V} (hfits : e.NameFits limits v) :
    e.overName limits resolver? rest v = .ok (.ok (some u), .ofBytes rest) ↔
      e.FirstNamed (e.name v) u := by
  rw [overName_eq hfits, Except.ok.injEq]
  exact fromName_eq_some_iff hfits

/-- All variants are the first ones of their names if these tell them apart. -/
theorem all_firstNamed_iff :
    (∀ v ∈ e.variants, e.NameFits limits v → e.FirstNamed (e.name v) v) ↔
      ∀ u ∈ e.variants, ∀ v ∈ e.variants, e.NameFits limits v → e.name u = e.name v → u = v := by
  constructor
  · intro h u hu v hv hfits hname
    have hfits' : e.NameFits limits u := by rwa [NameFits, hname]
    have hfound := ofName?_eq_some_iff.mpr (h v hv hfits)
    have hfound' := ofName?_eq_some_iff.mpr (h u hu hfits')
    rw [hname, hfound] at hfound'
    exact (Option.some.inj hfound').symm
  · intro h v hv hfits
    obtain ⟨u, hname, before, after, hvariants, hbefore⟩ := exists_firstNamed_iff.mpr ⟨v, hv, rfl⟩
    have hu : u ∈ e.variants := by simp [hvariants]
    obtain rfl := h u hu v hv hfits hname
    exact ⟨rfl, before, after, hvariants, hbefore⟩

/-- The variant of an ordinal stands at its position. -/
theorem ofOrdinal?_eq_some_iff_getElem? {o : Int32} {v : V} :
    e.ofOrdinal? o = some v ↔ 0 ≤ o.toInt ∧ e.variants[o.toInt.toNat]? = some v := by
  rw [ofOrdinal?_eq_some_iff]
  constructor
  · rintro ⟨i, hi, ho, hv⟩
    obtain ⟨hpos, rfl⟩ := Read.eq_ofNat_iff.mpr ⟨hi, ho⟩
    exact ⟨hpos, hv⟩
  · rintro ⟨hpos, hv⟩
    obtain ⟨hi, ho⟩ := Read.eq_ofNat_iff.mp ⟨hpos, rfl⟩
    exact ⟨_, hi, ho, hv⟩

/-- A variant is read from its position, which is not that of absence. -/
theorem fromOrdinal_eq_some_iff {o : Int32} {v : V} :
    e.fromOrdinal limits resolver? rest o = (.ok (some v), .ofBytes rest) ↔
      0 ≤ o.toInt ∧ e.variants[o.toInt.toNat]? = some v := by
  rw [fromOrdinal_eq, ← ofOrdinal?_eq_some_iff_getElem?]
  by_cases habsent : o = absentMark
  · subst habsent
    have hnone : e.ofOrdinal? absentMark = none := rfl
    simp [hnone]
  · rw [if_neg habsent]
    cases e.ofOrdinal? o <;> simp

/-- Some variant is read from the positions in the list. -/
theorem exists_fromOrdinal_iff {o : Int32} :
    (∃ v, e.fromOrdinal limits resolver? rest o = (.ok (some v), .ofBytes rest)) ↔
      0 ≤ o.toInt ∧ o.toInt < e.variants.length := by
  simp only [fromOrdinal_eq_some_iff]
  constructor
  · rintro ⟨v, hpos, hv⟩
    obtain ⟨hi, -⟩ := List.getElem?_eq_some_iff.mp hv
    omega
  · rintro ⟨hpos, hlt⟩
    have hi : o.toInt.toNat < e.variants.length := by omega
    exact ⟨_, hpos, List.getElem?_eq_getElem hi⟩

/-- A value is written as an ordinal if it has this ordinal. -/
theorem enumOrdinal_eq_ok_iff [BEq V] {o : Int32} {v : V} :
    Write.enumOrdinal e (some v) { sink := {}, limits } =
        .ok () { sink := { held := word32 o }, limits } ↔
      e.ordinal v = o := by
  have hwrites : Write.Writes limits (Write.enumOrdinal e (some v)) True (word32 (e.ordinal v)) :=
    .of_emits (Write.emits_emit _)
  rw [hwrites.run_unbounded, ← word32_injective.eq_iff]
  simp [eq_comm]

end Lookups

section Lawful

variable [BEq V] [LawfulBEq V] {e : Enumeration V} {v : V}

/-- The first position of a variant is one before which it does not stand. -/
theorem findIdx?_eq_some_iff {i : Nat} :
    e.variants.findIdx? (· == v) = some i ↔
      e.variants[i]? = some v ∧ ∀ u ∈ e.variants.take i, u ≠ v := by
  rw [List.findIdx?_eq_some_iff_getElem, List.getElem?_eq_some_iff]
  constructor
  · rintro ⟨hi, hv, hfirst⟩
    refine ⟨⟨hi, eq_of_beq hv⟩, fun u hu => ?_⟩
    obtain ⟨j, hj, rfl⟩ := List.mem_take_iff_getElem.mp hu
    have hne := hfirst j (by omega)
    simpa using hne
  · rintro ⟨⟨hi, rfl⟩, hfirst⟩
    refine ⟨hi, beq_self_eq_true _, fun j hj => ?_⟩
    have hne := hfirst _ (List.mem_take_iff_getElem.mpr ⟨j, by omega, rfl⟩)
    simpa using hne

/-- A listed value has a first position. -/
theorem exists_findIdx?_iff : (∃ i, e.variants.findIdx? (· == v) = some i) ↔ v ∈ e.variants := by
  rw [← Option.isSome_iff_exists, List.findIdx?_isSome, List.any_eq_true]
  simp

/-- A position in a list that is not too long is the first one of its variant if it is the ordinal
of the variant. -/
theorem ordinal_eq_iff (hcount : e.variants.length < 2 ^ 31) {o : Int32}
    (hv : 0 ≤ o.toInt ∧ e.variants[o.toInt.toNat]? = some v) :
    e.ordinal v = o ↔ ∀ u ∈ e.variants.take o.toInt.toNat, u ≠ v := by
  have ho : o = Int32.ofNat o.toInt.toNat := (Read.eq_ofNat_iff.mp ⟨hv.1, rfl⟩).2
  constructor
  · intro h
    obtain ⟨i, hi⟩ := exists_findIdx?_iff.mpr (List.mem_of_getElem? hv.2)
    have hlt : i < e.variants.length := (List.findIdx?_eq_some_iff_getElem.mp hi).1
    have hword := ordinal_of_findIdx? hi
    obtain ⟨-, rfl⟩ := Read.eq_ofNat_iff.mpr ⟨Nat.lt_trans hlt hcount, h.symm.trans hword⟩
    exact (findIdx?_eq_some_iff.mp hi).2
  · intro hfirst
    rw [ordinal_of_findIdx? (findIdx?_eq_some_iff.mpr ⟨hv.2, hfirst⟩)]
    exact ho.symm

variable {limits : Limits} {resolver? : Option (TypeTag → Except Fault ι)} {rest : List UInt8}

/-- A listed value comes back from its ordinal. -/
theorem overOrdinal_of_mem (hcount : e.variants.length < 2 ^ 31) (hv : v ∈ e.variants) :
    e.overOrdinal limits resolver? rest v = .ok (.ok (some v), .ofBytes rest) := by
  obtain ⟨i, hi⟩ := exists_findIdx?_iff.mpr hv
  have hlt : i < e.variants.length := (List.findIdx?_eq_some_iff_getElem.mp hi).1
  obtain ⟨hpos, hindex⟩ := Read.eq_ofNat_iff.mpr ⟨Nat.lt_trans hlt hcount, ordinal_of_findIdx? hi⟩
  rw [overOrdinal_eq]
  refine congrArg Except.ok (fromOrdinal_eq_some_iff.mpr ⟨hpos, ?_⟩)
  rw [← hindex]
  exact (findIdx?_eq_some_iff.mp hi).1

/-- Any other value is taken for none. -/
theorem overOrdinal_of_not_mem (hv : v ∉ e.variants) :
    e.overOrdinal limits resolver? rest v = .ok (.ok none, .ofBytes rest) := by
  have hordinal : e.ordinal v = absentMark :=
    ordinal_eq_absentMark_iff.mpr fun i hi => absurd (exists_findIdx?_iff.mp ⟨i, hi⟩) hv
  rw [overOrdinal_eq, fromOrdinal_eq, if_pos hordinal]

/-- Values come back from their ordinals if they are listed, and from their names if no earlier
variant has the same. -/
theorem survives (hcount : e.variants.length < 2 ^ 31) : e.Survives limits resolver? rest where
  by_ordinal v := by
    refine ⟨fun h => ?_, overOrdinal_of_mem hcount⟩
    by_contra hv
    cases (overOrdinal_of_not_mem hv).symm.trans h
  by_no_ordinal _ := overOrdinal_of_not_mem
  name_written v := by
    have hwrites : Write.Writes limits (Write.enumName e (some v)) (e.NameFits limits v) _ :=
      Write.writes_text (e.name v)
    constructor
    · exact fun ⟨w, hw⟩ => (hwrites.run_unbounded.mp hw).1
    · exact fun hfits => ⟨_, hwrites.run_unbounded.mpr ⟨hfits, rfl⟩⟩
  by_name _ _ := overName_eq_some_iff
  by_unknown_name v hfits := by
    rw [overName_eq hfits, Except.ok.injEq]
    exact fromName_eq_unknown_iff hfits
  all_by_name := by
    rw [← all_firstNamed_iff]
    exact forall₂_congr fun v _ => imp_congr_right overName_eq_some_iff

/-- Positions and names are read, and written again unless their variant also stands earlier. -/
theorem rewritten (hcount : e.variants.length < 2 ^ 31) :
    e.Rewritten limits resolver? rest where
  ordinal_read _ := exists_fromOrdinal_iff
  ordinal_refused o habsent hout := by
    have hnone : e.ofOrdinal? o = none := by
      refine Option.eq_none_iff_forall_ne_some.mpr fun v hfound => hout ?_
      have hread : e.fromOrdinal limits resolver? rest o = (.ok (some v), .ofBytes rest) :=
        fromOrdinal_eq_some_iff.mpr (ofOrdinal?_eq_some_iff_getElem?.mp hfound)
      exact exists_fromOrdinal_iff.mp ⟨v, hread⟩
    rw [fromOrdinal_eq, if_neg habsent, hnone]
  ordinal_again o v hread := by
    rw [enumOrdinal_eq_ok_iff]
    exact ordinal_eq_iff hcount (fromOrdinal_eq_some_iff.mp hread)
  name_read name := by
    rw [← exists_firstNamed_iff]
    constructor
    · rintro ⟨v, hread⟩
      have hfits := fits_of_fromName_eq_some hread
      exact ⟨hfits, v, (fromName_eq_some_iff hfits).mp hread⟩
    · rintro ⟨hfits, v, hfirst⟩
      exact ⟨v, (fromName_eq_some_iff hfits).mpr hfirst⟩
  name_refused name hfits := (fromName_eq_unknown_iff hfits).mpr
  name_again name v hread := by
    have hfits := fits_of_fromName_eq_some hread
    obtain ⟨rfl, -⟩ := (fromName_eq_some_iff hfits).mp hread
    exact (Write.writes_text (e.name v)).run_unbounded.mpr ⟨hfits, rfl⟩

end Lawful

/-- **Which values of an enumeration survive the wire.**  Of any list of variants, with variants
listed twice and names in common, and whatever the limits: a value comes back from its ordinal
exactly if it is listed, and from its name as the first variant that has it.  An ordinal is read
exactly if it is a position, and written again exactly if it is the first one of its variant.  A
name is read exactly if it is not too long and a variant has it, and written again. -/
theorem survives_and_rewritten [BEq V] [LawfulBEq V] (e : Enumeration V)
    (hcount : e.variants.length < 2 ^ 31) (limits : Limits)
    (resolver? : Option (TypeTag → Except Fault ι)) (rest : List UInt8) :
    e.Survives limits resolver? rest ∧ e.Rewritten limits resolver? rest :=
  ⟨survives hcount, rewritten hcount⟩

/-- By its ordinal a colour comes back as itself, by its name as the first one of that name, and one
that is not listed does not come back.  The second position of a colour is not written again. -/
theorem colours_survive_and_rewritten :
    let session : Option (TypeTag → Except Fault Empty) := none
    colours.variants.length < 2 ^ 31 ∧
      colours.overOrdinal {} session [7] "AZURE" = .ok (.ok (some "AZURE"), .ofBytes [7]) ∧
      colours.overOrdinal {} session [7] "HIDDEN" = .ok (.ok none, .ofBytes [7]) ∧
      colours.overName {} session [7] "AZURE" = .ok (.ok (some "BLUE"), .ofBytes [7]) ∧
      colours.overName {} session [7] "HIDDEN" =
        .ok (.error (.unknownVariant "Colour" "HIDDEN"), .ofBytes [7]) ∧
      (∃ v, colours.fromOrdinal {} session [7] 4 = (.ok (some v), .ofBytes [7])) ∧
      Write.enumOrdinal colours (some "RED") { sink := {} } ≠
        .ok () { sink := { held := word32 4 } } := by
  intro session
  have hcount : colours.variants.length < 2 ^ 31 := by decide
  obtain ⟨hsurvives, hrewritten⟩ := survives_and_rewritten colours hcount {} session [7]
  have hfits : ∀ v ∈ ["AZURE", "HIDDEN"], colours.NameFits {} v := by
    intro v hv
    simp only [List.mem_cons, List.not_mem_nil, or_false] at hv
    rcases hv with rfl | rfl <;> unfold NameFits <;> decide
  have hfirst : colours.FirstNamed "BLUE" "BLUE" :=
    ⟨rfl, ["RED", "GREEN"], ["AZURE", "RED"], rfl, by decide⟩
  have hfour : colours.fromOrdinal {} session [7] 4 = (.ok (some "RED"), .ofBytes [7]) := rfl
  refine ⟨hcount, (hsurvives.by_ordinal _).mpr (by decide), hsurvives.by_no_ordinal _ (by decide),
    (hsurvives.by_name _ _ (hfits _ (by decide))).mpr hfirst,
    (hsurvives.by_unknown_name _ (hfits _ (by decide))).mpr (by decide),
    (hrewritten.ordinal_read 4).mpr (by decide), fun h => ?_⟩
  exact (hrewritten.ordinal_again 4 "RED" hfour).mp h "RED" (by decide) rfl

end Enumeration

end TagWire
