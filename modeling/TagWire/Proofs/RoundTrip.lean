import TagWire.Envelope
import TagWire.Proofs.Depth
import TagWire.Registry.Decoding

/-!
# What was written is read back

Reading undoes writing for every list of fields, every record with these fields
and whatever bytes follow.  The record must hold variants that its enumerations
list, and its dynamic values must be of types that the reader knows by their
tags; nothing else is asked of a record that was written.

* `Read.recognises_expectEnvelope` — an envelope is accepted in one spelling;
* `Leaf.Listed.found` — listed variants are found again;
* `Record.read_of_written` — the round trip: the record is read back and what
  follows is left, unless it lies too deep for the reader, which then says so.
-/

namespace TagWire

variable {ι : Type} {S : Schema ι}

/-! ## Envelopes -/

/-- An envelope on the wire. -/
def envelopeLayout (tag : TypeTag) : List UInt8 :=
  BigEndian.encode 4 magicNumber.toNat ++ word32 tag.value

/-- Writing an envelope is handing over its layout. -/
theorem Write.emits_envelope {limits : Limits} (tag : TypeTag) :
    Emits limits (envelope tag) (envelopeLayout tag) :=
  (emits_emit _).bind (emits_emit _)

namespace Read

variable {r : Reader ι}

/-- An envelope is the magic number and a tag. -/
theorem recognises_envelope (hr : r.poisoned = false) :
    Recognises r envelope fun tag w => w = envelopeLayout tag := by
  refine Recognises.congr (p := envelope) ((recognises_word hr .magicNumber 4).bind
    (Q := fun n tag w => UInt32.ofNat n = magicNumber ∧ w = word32 tag.value) fun n => ?_)
    fun tag w => ?_
  · by_cases hmagic : UInt32.ofNat n = magicNumber
    · rw [if_pos hmagic]
      apply ((recognises_i32 hr).map TypeTag.mk).congr
      intro tag w
      constructor
      · intro h
        rcases h with ⟨value, rfl, rfl⟩
        exact ⟨hmagic, rfl⟩
      · intro h
        rcases h with ⟨-, rfl⟩
        exact ⟨tag.value, rfl, rfl⟩
    · rw [if_neg hmagic]
      exact (recognises_fail _).congr fun tag w => by simp [hmagic]
  · constructor
    · intro h
      rcases h with ⟨n, _, _, rfl, ⟨hn, rfl⟩, hmagic, rfl⟩
      rw [envelopeLayout, ← hmagic, UInt32.toNat_ofNat_of_lt' hn]
    · intro h
      subst h
      exact ⟨magicNumber.toNat, _, _, rfl, ⟨by decide, rfl⟩, by decide, rfl⟩

/-- An envelope with another tag than the expected one is not accepted. -/
theorem recognises_expectEnvelope (hr : r.poisoned = false) (tag : TypeTag) :
    Recognises r (expectEnvelope tag) fun _ w => w = envelopeLayout tag := by
  refine Recognises.congr (p := expectEnvelope tag) ((recognises_envelope hr).bind
    (Q := fun found _ w => found = tag ∧ w = []) fun found => ?_) fun _ w => ?_
  · by_cases hfound : found = tag
    · rw [if_pos hfound]
      exact (recognises_pure ()).congr fun _ w => by simp [hfound]
    · rw [if_neg hfound]
      exact (recognises_fail _).congr fun _ w => by simp [hfound]
  · constructor
    · intro h
      rcases h with ⟨found, _, _, rfl, rfl, rfl, rfl⟩
      exact List.append_nil _
    · intro h
      subst h
      exact ⟨tag, _, [], (List.append_nil _).symm, rfl, rfl, rfl⟩

end Read

/-! ## Variants -/

/-- No variant is listed twice, and no two have the same name. -/
structure Enumeration.Distinct {V : Type} (e : Enumeration V) : Prop where
  variants_nodup : e.variants.Nodup
  names_nodup : (e.variants.map e.name).Nodup

/-- A variant is listed without ambiguity.  One that travels by its ordinal stands at a
position that a word of 32 bits can hold. -/
def Leaf.Listed : (l : Leaf) → l.Carrier → Prop
  | enumName e, v => e.Distinct ∧ v ∈ e.variants
  | enumOrdinal e, v => e.Distinct ∧ v ∈ e.variants.take (2 ^ 31)
  | _, _ => True

/-- A listed variant is found by its name and by its ordinal. -/
theorem Leaf.Listed.found {l : Leaf} {v : l.Carrier} (h : l.Listed v) : l.Found v := by
  cases l with
  | enumName e =>
      obtain ⟨hdistinct, hmem⟩ := h
      obtain ⟨before, after, hvariants⟩ := List.append_of_mem hmem
      refine ⟨before, after, hvariants, fun u hu heq => ?_⟩
      have hnames := hdistinct.names_nodup
      rw [hvariants, List.map_append, List.map_cons] at hnames
      have hdisjoint := (List.nodup_append.mp hnames).2.2
      exact hdisjoint _ (List.mem_map_of_mem hu) _ List.mem_cons_self heq
  | enumOrdinal e =>
      obtain ⟨hdistinct, hmem⟩ := h
      obtain ⟨i, hi⟩ := List.getElem?_of_mem hmem
      rw [List.getElem?_take] at hi
      split at hi
      · next hlt =>
          exact ⟨i, hlt, hi, Enumeration.ordinal_of_nodup hdistinct.variants_nodup hi⟩
      · cases hi
  | text => trivial
  | decimal => trivial
  | fixed => trivial
  | date => trivial
  | timestamp => trivial
  | dateTime => trivial
  | bytes => trivial

/-! ## The round trip -/

/-- Writes an envelope with this tag and the fields of a record. -/
def Record.writeEnveloped {fs : List (Field ι)} (tag : TypeTag) (record : Record S fs) :
    Write Unit := do
  Write.envelope tag
  record.write

/-- Reads an envelope with this tag and fields in which at most `levels` values are nested
in each other. -/
def readEnveloped (tag : TypeTag) (levels : Nat) (fs : List (Field ι)) :
    Read ι (Record S fs) := do
  Read.expectEnvelope tag
  readFields (readRecord levels) fs

/-- A record is written behind its envelope when it can be written. -/
theorem Record.writes_enveloped {limits : Limits} {fs : List (Field ι)} (tag : TypeTag)
    (record : Record S fs) :
    Write.Writes limits (record.writeEnveloped tag) (record.writable limits.writable = true)
      (envelopeLayout tag ++ record.layout) :=
  ((Write.Writes.of_emits (Write.emits_envelope tag)).bind record.writes).congr (by simp) rfl

/-- The type that a registry finds for a tag is the one its sessions know for it. -/
theorem Registry.knows_iff {registry : Registry S} {limits : Limits} {tag : TypeTag} {t : ι} :
    (Rules.of limits (some registry.resolve)).knows tag t ↔ registry.find? tag = some t := by
  have hresolve : registry.resolve tag = .ok t ↔ registry.find? tag = some t := by
    unfold resolve
    cases registry.find? tag <;> simp
  rw [← hresolve]
  constructor
  · intro h
    rcases h with ⟨resolve, hsome, hok⟩
    cases hsome
    exact hok
  · exact fun hok => ⟨_, rfl, hok⟩

/-- **The round trip.**  Bytes written for any record under any tag are read back, with the
same limit on lengths and any on depth: as the same record and with whatever follows them
left over when the record is nested no deeper than allowed, and otherwise not at all but for
the depth. -/
theorem Record.read_of_written (registry : Registry S) (limits : Limits) (maxDepth : Nat)
    (tag : TypeTag) {fs : List (Field ι)} (record : Record S fs) (rest : List UInt8) {w : Writer}
    (hlisted : record.Forall Leaf.Listed fun t => registry.find? (S t).tag = some t)
    (hwritten : record.writeEnveloped tag { sink := {}, limits } = .ok () w) :
    let session := Reader.start ⟨limits.maxLength, maxDepth⟩ (some registry.resolve)
    let bytes := w.sink.held ++ rest
    (record.nesting ≤ maxDepth →
      readEnveloped tag maxDepth fs (session bytes) = .ok record (session rest)) ∧
    (maxDepth < record.nesting →
      ∃ r, readEnveloped (S := S) tag maxDepth fs (session bytes) =
        .error (.session (.depthExceeded maxDepth)) r) := by
  intro session bytes
  obtain ⟨hwritable, rfl⟩ := (record.writes_enveloped tag).run_unbounded.mp hwritten
  have hbytes : bytes = envelopeLayout tag ++ record.layout ++ rest := rfl
  have hspellable : record.Spellable (session []).rules limits record.nesting :=
    ⟨hwritable, Nat.le_refl _, hlisted.imp (fun _ _ h => h.found) fun t ht =>
      Registry.knows_iff.mpr ht⟩
  have henvelope := Read.recognises_expectEnvelope (r := session []) rfl tag
  constructor
  · intro hdepth
    have hread : Read.Recognises (session []) (readEnveloped (S := S) tag maxDepth fs) _ :=
      henvelope.bind fun _ => readFields_recognises rfl (Nat.zero_add maxDepth) fs
    have hspelled : record.Spelled (session []).rules maxDepth record.layout :=
      record.spelled_layout rfl ⟨hspellable.1, hdepth, hspellable.2.2⟩
    exact (hread bytes record _).mpr ⟨_, rest, hbytes, ⟨(), _, _, rfl, rfl, hspelled⟩, rfl⟩
  · intro hdepth
    have hroom : (session []).HasRoom limits maxDepth := ⟨rfl, Nat.zero_add maxDepth, rfl⟩
    have hrefused : Read.Refuses (session []) (readEnveloped (S := S) tag maxDepth fs) _ _ :=
      .bind_of_recognises (a := ()) henvelope rfl (readFields_refuses hroom hspellable hdepth)
    exact hrefused rest

/-- A schema of one type with an enumeration and a field for any record. -/
def parcel : Schema Unit := fun _ =>
  { name := "Parcel"
    tag := ⟨7⟩
    fields := [.optional (.leaf (.enumOrdinal ⟨"Size", ["small", "large"], id⟩)),
      .optional .dynamic] }

/-- The registry of that type alone. -/
def parcels : Registry parcel where
  types := [()]
  distinct_tags := by decide

/-- A parcel in another one. -/
def boxedParcel : Record parcel (parcel ()).fields :=
  .cons (.present _ (.leaf _ "large")) (.cons (.present _
    (.dynamic () (.cons (.absent _) (.cons (.absent _) .nil)))) .nil)

/-- The bytes of that parcel. -/
def boxedParcelBytes : List UInt8 :=
  [0xD0, 0xBA, 0xCA, 0xFE, 0, 0, 0, 7, 0, 0, 0, 1, 1, 0, 0, 0, 7, 0xFF, 0xFF, 0xFF, 0xFF, 0]

theorem boxedParcel_read_of_written :
    readEnveloped ⟨7⟩ 1 (parcel ()).fields
        (.start ⟨64, 1⟩ (some parcels.resolve) (boxedParcelBytes ++ [9])) =
      .ok boxedParcel (.start ⟨64, 1⟩ (some parcels.resolve) [9]) ∧
    ∃ r, readEnveloped (S := parcel) ⟨7⟩ 0 (parcel ()).fields
        (.start ⟨64, 0⟩ (some parcels.resolve) (boxedParcelBytes ++ [9])) =
      .error (.session (.depthExceeded 0)) r := by
  have hlisted : boxedParcel.Forall Leaf.Listed
      fun t => parcels.find? (parcel t).tag = some t :=
    ⟨⟨⟨by decide, by decide⟩, by decide⟩, ⟨rfl, trivial, trivial, trivial⟩, trivial⟩
  have hwritable : boxedParcel.writable (Limits.writable ⟨64, 1⟩) = true := by decide +kernel
  have hbytes : envelopeLayout ⟨7⟩ ++ boxedParcel.layout = boxedParcelBytes := by decide +kernel
  have hwritten : boxedParcel.writeEnveloped ⟨7⟩ { sink := {}, limits := ⟨64, 1⟩ } =
      .ok () { sink := { held := boxedParcelBytes }, limits := ⟨64, 1⟩ } := by
    rw [← hbytes]
    exact (boxedParcel.writes_enveloped ⟨7⟩).run_unbounded.mpr ⟨hwritable, rfl⟩
  have hnesting : boxedParcel.nesting = 1 := rfl
  have hread := fun maxDepth =>
    Record.read_of_written parcels ⟨64, 1⟩ maxDepth ⟨7⟩ boxedParcel [9] hlisted hwritten
  exact ⟨(hread 1).1 (Nat.le_of_eq hnesting), (hread 0).2 (by omega)⟩

end TagWire
