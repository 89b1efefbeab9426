import TagWire.Proofs.RoundTrip

/-!
# Updates in place

A record is replaced by the one that some bytes begin with in two ways: as a whole once all
of it is decoded, or field by field while it is read.  As long as every field is on the wire,
the two succeed on the same bytes with the same record, fail on the others with the same
fault, and differ in nothing but what they leave behind a failure:

* `Record.merge_of_read_ok` — fields that are read replace all of those they are read over;
* `Record.merge_of_read_error` — fields that are not leave the ones before the fault new and
  the others old;
* `Envelope.decodeFirst`, `Envelope.StopsAfter` — how far some bytes are read;
* `Envelope.updates_agree` — the comparison, for all bytes and all records.
-/

namespace TagWire

variable {ι : Type} {S : Schema ι}

/-- Whether the value of a field is written and read. -/
def Field.isOnWire : Field ι → Bool
  | .guard _ => false
  | _ => true

/-- On the wire the old value of a field is gone once a new one is read. -/
theorem Value.replacedBy_eq {f : Field ι} (hwire : f.isOnWire = true) (old new : Value S f) :
    old.replacedBy new = new := by
  cases old with
  | guard what refuses => cases hwire
  | _ => rfl

namespace Record

/-- The first `k` fields of a record. -/
def take : (k : Nat) → {fs : List (Field ι)} → Record S fs → Record S (fs.take k)
  | 0, _, _ => .nil
  | _ + 1, _, .nil => .nil
  | k + 1, _, .cons v rest => .cons v (rest.take k)

/-- The fields of a record behind the first `k`. -/
def drop : (k : Nat) → {fs : List (Field ι)} → Record S fs → Record S (fs.drop k)
  | 0, _, record => record
  | _ + 1, _, .nil => .nil
  | k + 1, _, .cons _ rest => rest.drop k

end Record

/-! ## Field by field -/

section

variable {inner : (t : ι) → Read ι (Record S (S t).fields)} {f : Field ι} {fs : List (Field ι)}
variable {r r' s : Reader ι} {failure : Failure}

/-- A field that is read whole replaces the old one, and the next is read where it ended. -/
theorem Record.merge_cons_ok {v new : Value S f} (rest : Record S fs)
    (h : f.read inner r = .ok new s) :
    (Record.cons v rest).merge inner r =
      ((.cons (v.replacedBy new) (rest.merge inner s).1.1, (rest.merge inner s).1.2),
        (rest.merge inner s).2) := by
  simp only [merge, h]
  rfl

/-- A field that fails ends the update, and neither it nor a later one has changed. -/
theorem Record.merge_cons_error {v : Value S f} (rest : Record S fs)
    (h : f.read inner r = .error failure r') :
    (Record.cons v rest).merge inner r = ((.cons v rest, some failure), r') := by
  simp only [merge, h]

/-- Fields that are read replace all of those that they are read over. -/
theorem Record.merge_of_read_ok (hwire : ∀ f ∈ fs, f.isOnWire = true) (target : Record S fs)
    {decoded : Record S fs} (h : readFields inner fs r = .ok decoded r') :
    target.merge inner r = ((decoded, none), r') := by
  induction fs generalizing r with
  | nil =>
      cases target
      cases h
      rfl
  | cons f fs ih =>
      cases target with
      | cons v rest =>
          obtain ⟨new, s, hnew, h⟩ := run_bind_eq_ok_iff.mp h
          obtain ⟨others, s', hothers, h⟩ := run_bind_eq_ok_iff.mp h
          cases h
          have hrest := ih (fun g hg => hwire g (List.mem_cons_of_mem f hg)) rest hothers
          rw [merge_cons_ok rest hnew, hrest, Value.replacedBy_eq (hwire f List.mem_cons_self)]

/-- What an update that reads fields one by one from `r` has made of a record when it fails:
the first `k` fields are those that are read there, the next one is the first that is not,
and from there on the record is as it was. -/
structure Record.MergedFirst (inner : (t : ι) → Read ι (Record S (S t).fields)) (r : Reader ι)
    (failure : Failure) (r' : Reader ι) (target merged : Record S fs) (k : Nat) : Prop where
  read : ∃ s, readFields inner (fs.take k) r = .ok (merged.take k) s
  failed : readFields inner (fs.take (k + 1)) r = .error failure r'
  kept : merged.drop k = target.drop k

/-- One more field in front, read whole, is one more field that is new. -/
theorem Record.MergedFirst.cons {target merged : Record S fs} {k : Nat}
    (h : MergedFirst inner s failure r' target merged k) {v new : Value S f}
    (hnew : f.read inner r = .ok new s) :
    MergedFirst inner r failure r' (.cons v target) (.cons new merged) (k + 1) := by
  obtain ⟨s', hread⟩ := h.read
  constructor
  · exact ⟨s', (run_bind_ok hnew).trans (run_bind_ok hread)⟩
  · exact (run_bind_ok hnew).trans (run_bind_error h.failed)
  · exact h.kept

/-- Fields that are not read leave those before the fault new and the others old. -/
theorem Record.merge_of_read_error (hwire : ∀ f ∈ fs, f.isOnWire = true) (target : Record S fs)
    (h : readFields inner fs r = .error failure r') :
    ∃ k merged, target.merge inner r = ((merged, some failure), r') ∧
      MergedFirst inner r failure r' target merged k := by
  induction fs generalizing r with
  | nil => cases h
  | cons f fs ih =>
      cases target with
      | cons v rest =>
          cases hf : f.read inner r with
          | error failure₁ r₁ =>
              cases (run_bind_error hf).symm.trans h
              refine ⟨0, .cons v rest, merge_cons_error rest hf, ?_⟩
              exact ⟨⟨r, rfl⟩, run_bind_error hf, rfl⟩
          | ok new s =>
              have hrest : readFields inner fs s = .error failure r' := by
                have hlater := (run_bind_ok hf).symm.trans h
                cases hothers : readFields inner fs s with
                | ok others s' => cases (run_bind_ok hothers).symm.trans hlater
                | error failure₁ r₁ =>
                    cases (run_bind_error hothers).symm.trans hlater
                    rfl
              obtain ⟨k, merged, hmerge, hfirst⟩ :=
                ih (fun g hg => hwire g (List.mem_cons_of_mem f hg)) rest hrest
              refine ⟨k + 1, .cons new merged, ?_, hfirst.cons hf⟩
              rw [merge_cons_ok rest hf, hmerge, Value.replacedBy_eq (hwire f List.mem_cons_self)]

/-- Where some fields are read, any number of the first ones are. -/
theorem readFields_take_ok {j k : Nat} (hjk : j ≤ k) {head : Record S (fs.take k)}
    (h : readFields inner (fs.take k) r = .ok head s) :
    ∃ first s', readFields inner (fs.take j) r = .ok first s' := by
  induction j generalizing k fs r s with
  | zero => exact ⟨.nil, r, rfl⟩
  | succ j ih =>
      cases k with
      | zero => cases hjk
      | succ k =>
          cases fs with
          | nil => exact ⟨.nil, r, rfl⟩
          | cons f fs =>
              obtain ⟨v, s₁, hv, h⟩ := run_bind_eq_ok_iff.mp h
              obtain ⟨others, s₂, hothers, -⟩ := run_bind_eq_ok_iff.mp h
              obtain ⟨first, s', hfirst⟩ := ih (Nat.le_of_succ_le_succ hjk) hothers
              exact ⟨.cons v first, s', (run_bind_ok hv).trans (run_bind_ok hfirst)⟩

end

/-! ## Behind an envelope -/

namespace Envelope

variable {t : ι} {bytes : List UInt8} {r : Reader ι} {failure : Failure} {fault : Fault}

/-- The first `k` fields of the record of type `t` that the bytes begin with. -/
def decodeFirst (S : Schema ι) (t : ι) (k : Nat) (bytes : List UInt8) :
    Except Fault (Record S ((S t).fields.take k)) :=
  let limits : Limits := {}
  (run (readEnveloped (S t).tag limits.maxDepth ((S t).fields.take k))
    (Source.ofBytes bytes) limits).1

/-- Bytes that are refused with a fault when `k` fields have been read whole. -/
inductive StopsAfter (S : Schema ι) (t : ι) (bytes : List UInt8) (fault : Fault) : Nat → Prop where
  /-- The envelope is refused, and no field is read. -/
  | envelope (hrefused : decodeFirst S t 0 bytes = .error fault) : StopsAfter S t bytes fault 0
  /-- The field behind the first `k` is refused. -/
  | field {k : Nat} {head : Record S ((S t).fields.take k)}
      (hread : decodeFirst S t k bytes = .ok head)
      (hrefused : decodeFirst S t (k + 1) bytes = .error fault) : StopsAfter S t bytes fault k

/-- The session in which bytes are decoded. -/
def session (bytes : List UInt8) : Reader ι := .start {} none bytes

/-- Behind an envelope that is accepted stands a session on the remaining bytes. -/
theorem session_of_expect_ok (h : Read.expectEnvelope (S t).tag (session bytes) = .ok () r) :
    ∃ rest, r = session rest := by
  have hrecognises := Read.recognises_expectEnvelope (r := session (ι := ι) []) rfl (S t).tag
  obtain ⟨-, rest, -, -, hr⟩ := (hrecognises bytes () r).mp h
  exact ⟨rest, hr⟩

/-- A refused envelope is the failure of every number of fields. -/
theorem decodeFirst_of_expect_error
    (h : Read.expectEnvelope (S t).tag (session bytes) = .error failure r) (k : Nat) :
    decodeFirst S t k bytes = .error failure.fault :=
  congrArg (fun run => (Read.outcome run).1) (run_bind_error h)

/-- The first fields are read behind the envelope. -/
theorem decodeFirst_of_expect_ok (h : Read.expectEnvelope (S t).tag (session bytes) = .ok () r)
    (k : Nat) :
    decodeFirst S t k bytes =
      (Read.outcome
        (readFields (readRecord ({} : Limits).maxDepth) ((S t).fields.take k) r)).1 :=
  congrArg (fun run => (Read.outcome run).1) (run_bind_ok h)

/-- A refused envelope is the failure of the record. -/
theorem decode_of_expect_error
    (h : Read.expectEnvelope (S t).tag (session bytes) = .error failure r) :
    decode S t bytes = .error failure.fault :=
  congrArg (fun run => (Read.outcome run).1) (run_bind_error h)

/-- The fields are read behind the envelope. -/
theorem decode_of_expect_ok (h : Read.expectEnvelope (S t).tag (session bytes) = .ok () r) :
    decode S t bytes =
      (Read.outcome (readFields (readRecord ({} : Limits).maxDepth) (S t).fields r)).1 := by
  obtain ⟨rest, rfl⟩ := session_of_expect_ok h
  exact congrArg (fun run => (Read.outcome run).1) (run_bind_ok h)

/-- Where some fields are decoded, any number of the first ones are. -/
theorem decodeFirst_ok_of_le {j k : Nat} (hjk : j ≤ k) {head : Record S ((S t).fields.take k)}
    (h : decodeFirst S t k bytes = .ok head) : ∃ first, decodeFirst S t j bytes = .ok first := by
  cases henvelope : Read.expectEnvelope (S t).tag (session bytes) with
  | error failure r => cases (decodeFirst_of_expect_error henvelope k).symm.trans h
  | ok _ r =>
      rw [decodeFirst_of_expect_ok henvelope] at h ⊢
      obtain ⟨r', hread⟩ := Read.outcome_fst_eq_ok_iff.mp h
      obtain ⟨first, s, hfirst⟩ := readFields_take_ok hjk hread
      exact ⟨first, Read.outcome_fst_eq_ok_iff.mpr ⟨s, hfirst⟩⟩

/-- A field of which the bytes are refused is none of those that are read. -/
theorem lt_of_decodeFirst_error {j k : Nat} {head : Record S ((S t).fields.take j)}
    (hread : decodeFirst S t j bytes = .ok head)
    (hrefused : decodeFirst S t k bytes = .error fault) : j < k := by
  by_contra hkj
  obtain ⟨first, hfirst⟩ := decodeFirst_ok_of_le (Nat.le_of_not_lt hkj) hread
  cases hfirst.symm.trans hrefused

/-- Bytes are refused at one place at most. -/
theorem StopsAfter.unique {j k : Nat} (hj : StopsAfter S t bytes fault j)
    (hk : StopsAfter S t bytes fault k) : j = k := by
  cases hj with
  | envelope hrefused =>
      cases hk with
      | envelope => rfl
      | field hread _ => exact absurd (lt_of_decodeFirst_error hread hrefused) (Nat.not_lt_zero k)
  | field hreadj hrefusedj =>
      cases hk with
      | envelope hrefused =>
          exact absurd (lt_of_decodeFirst_error hreadj hrefused) (Nat.not_lt_zero j)
      | field hreadk hrefusedk =>
          have hjk := lt_of_decodeFirst_error hreadj hrefusedk
          have hkj := lt_of_decodeFirst_error hreadk hrefusedj
          omega

/-- Where bytes are refused, they are refused there only. -/
theorem StopsAfter.iff_eq {k : Nat} (hk : StopsAfter S t bytes fault k) (j : Nat) :
    StopsAfter S t bytes fault j ↔ j = k :=
  ⟨fun hj => hj.unique hk, fun hj => hj ▸ hk⟩

/-- What an update field by field leaves of a record when the bytes are refused behind `k`
fields: these as the bytes have them and all others as they were. -/
structure UpdatedFirst (bytes : List UInt8) (fault : Fault) (target merged : Record S (S t).fields)
    (k : Nat) : Prop where
  /-- The bytes are refused there and nowhere else. -/
  stops : ∀ j, StopsAfter S t bytes fault j ↔ j = k
  /-- Unless the envelope is refused, `k` fields are read, and the record has them. -/
  replaced : ∀ head, decodeFirst S t k bytes = .ok head → merged.take k = head
  kept : merged.drop k = target.drop k

/-- A refused envelope leaves the record as it was. -/
theorem UpdatedFirst.of_envelope (target : Record S (S t).fields)
    (h : decodeFirst S t 0 bytes = .error fault) : UpdatedFirst bytes fault target target 0 := by
  refine ⟨StopsAfter.iff_eq (.envelope h), ?_, rfl⟩
  intro head hhead
  cases h.symm.trans hhead

/-- Fields that fail behind the envelope leave the first ones new. -/
theorem UpdatedFirst.of_fields
    (henvelope : Read.expectEnvelope (S t).tag (session bytes) = .ok () r) {r' : Reader ι}
    {target merged : Record S (S t).fields} {k : Nat}
    (h : Record.MergedFirst (readRecord ({} : Limits).maxDepth) r failure r' target merged k) :
    UpdatedFirst bytes failure.fault target merged k := by
  obtain ⟨s, hread⟩ := h.read
  have hfirst : decodeFirst S t k bytes = .ok (merged.take k) := by
    rw [decodeFirst_of_expect_ok henvelope]
    exact Read.outcome_fst_eq_ok_iff.mpr ⟨s, hread⟩
  have hnext : decodeFirst S t (k + 1) bytes = .error failure.fault := by
    rw [decodeFirst_of_expect_ok henvelope]
    exact Read.outcome_fst_eq_error_iff.mpr ⟨failure, r', h.failed, rfl⟩
  refine ⟨StopsAfter.iff_eq (.field hfirst hnext), ?_, h.kept⟩
  intro head hhead
  cases hfirst.symm.trans hhead
  rfl

/-- The update of a record behind a refused envelope. -/
theorem mergeFrom_of_expect_error (target : Record S (S t).fields)
    (h : Read.expectEnvelope (S t).tag (session bytes) = .error failure r) :
    mergeFrom bytes target = (target, .error failure.fault) := by
  have hstart : Read.expectEnvelope (ι := ι) (S t).tag { source := Source.ofBytes bytes } =
      .error failure r := h
  simp only [mergeFrom, hstart]

/-- The update of a record behind an envelope is that of its fields. -/
theorem mergeFrom_of_expect_ok {target merged : Record S (S t).fields} {failure? : Option Failure}
    {r' : Reader ι} (h : Read.expectEnvelope (S t).tag (session bytes) = .ok () r)
    (hmerge : target.merge (readRecord ({} : Limits).maxDepth) r = ((merged, failure?), r')) :
    mergeFrom bytes target =
      (merged, match failure? with
        | none => .ok ()
        | some failure => .error failure.fault) := by
  have hstart : Read.expectEnvelope (ι := ι) (S t).tag { source := Source.ofBytes bytes } =
      .ok () r := h
  simp only [mergeFrom, hstart, hmerge]
  cases failure? with
  | none => rfl
  | some failure => rfl

section

variable (hwire : ∀ f ∈ (S t).fields, f.isOnWire = true) (target : Record S (S t).fields)
include hwire

/-- An update field by field with bytes that are decoded leaves what they are decoded to. -/
theorem mergeFrom_of_decode_ok {decoded : Record S (S t).fields}
    (h : decode S t bytes = .ok decoded) : mergeFrom bytes target = (decoded, .ok ()) := by
  cases henvelope : Read.expectEnvelope (S t).tag (session bytes) with
  | error failure r => cases (decode_of_expect_error henvelope).symm.trans h
  | ok _ r =>
      rw [decode_of_expect_ok henvelope] at h
      obtain ⟨r', hread⟩ := Read.outcome_fst_eq_ok_iff.mp h
      exact mergeFrom_of_expect_ok henvelope (Record.merge_of_read_ok hwire target hread)

/-- An update field by field with bytes that are refused leaves the fields before the fault
decoded and the others as they were. -/
theorem mergeFrom_of_decode_error (h : decode S t bytes = .error fault) :
    ∃ k merged, mergeFrom bytes target = (merged, .error fault) ∧
      UpdatedFirst bytes fault target merged k := by
  cases henvelope : Read.expectEnvelope (S t).tag (session bytes) with
  | error failure r =>
      cases (decode_of_expect_error henvelope).symm.trans h
      exact ⟨0, target, mergeFrom_of_expect_error target henvelope,
        .of_envelope target (decodeFirst_of_expect_error henvelope 0)⟩
  | ok _ r =>
      rw [decode_of_expect_ok henvelope] at h
      obtain ⟨failure, r', hread, rfl⟩ := Read.outcome_fst_eq_error_iff.mp h
      obtain ⟨k, merged, hmerge, hfirst⟩ := Record.merge_of_read_error hwire target hread
      exact ⟨k, merged, mergeFrom_of_expect_ok henvelope hmerge, .of_fields henvelope hfirst⟩

end

/-- **Both updates agree.**  Let all fields of a type be on the wire.  Then a record is replaced
as a whole by the same bytes as field by field, with the same fault where they are refused.
Bytes that are decoded leave what they are decoded to, whatever the record was.  Bytes that are
refused leave it untouched as a whole; field by field they leave the fields that were read
before the fault, each of them whole, and all others as they were. -/
theorem updates_agree (t : ι) (hwire : ∀ f ∈ (S t).fields, f.isOnWire = true)
    (bytes : List UInt8) (target : Record S (S t).fields) :
    (decodeInto bytes target).2 = (mergeFrom bytes target).2 ∧
    (∀ decoded, decode S t bytes = .ok decoded →
      decodeInto bytes target = (decoded, .ok ()) ∧
      mergeFrom bytes target = (decoded, .ok ())) ∧
    ∀ fault, decode S t bytes = .error fault →
      decodeInto bytes target = (target, .error fault) ∧
      ∃ k merged, mergeFrom bytes target = (merged, .error fault) ∧
        UpdatedFirst bytes fault target merged k := by
  have hok : ∀ decoded, decode S t bytes = .ok decoded →
      decodeInto bytes target = (decoded, .ok ()) := by
    intro decoded h
    simp only [decodeInto, h]
  have herror : ∀ fault, decode S t bytes = .error fault →
      decodeInto bytes target = (target, .error fault) := by
    intro fault h
    simp only [decodeInto, h]
  refine ⟨?_, fun decoded h => ⟨hok decoded h, mergeFrom_of_decode_ok hwire target h⟩,
    fun fault h => ⟨herror fault h, mergeFrom_of_decode_error hwire target h⟩⟩
  cases h : decode S t bytes with
  | ok decoded => rw [hok decoded h, mergeFrom_of_decode_ok hwire target h]
  | error fault =>
      obtain ⟨k, merged, hmerge, -⟩ := mergeFrom_of_decode_error hwire target h
      rw [herror fault h, hmerge]

/-- A schema of one type with a word, a sequence of words and a switch. -/
def gauge : Schema Unit := fun _ =>
  { name := "Gauge"
    tag := ⟨9⟩
    fields := [.scalar .i32, .optional (.seq (.scalar .i16)), .scalar .bool] }

/-- A gauge with a word, a list of words and a switch. -/
def gaugeOf (count : Int32) (marks : List Int16) (on : Bool) : Record gauge (gauge ()).fields :=
  .cons (.scalar .i32 count) (.cons
    (.present _ (.ofList (marks.map (.scalar .i16)))) (.cons (.scalar .bool on) .nil))

/-- The bytes of a gauge. -/
def gaugeBytes : List UInt8 :=
  [0xD0, 0xBA, 0xCA, 0xFE, 0, 0, 0, 9, 0, 0, 0, 5, 0, 0, 0, 2, 0, 3, 0, 4, 0]

/-- Where the bytes end in the second item of the sequence, the word in front of it is new, and
the sequence and the switch behind it are the old ones. -/
theorem gauge_updates_agree :
    (∀ f ∈ (gauge ()).fields, f.isOnWire = true) ∧
    (decodeInto gaugeBytes (gaugeOf 1 [7] true) = (gaugeOf 5 [3, 4] false, .ok ()) ∧
      mergeFrom gaugeBytes (gaugeOf 1 [7] true) = (gaugeOf 5 [3, 4] false, .ok ())) ∧
    decodeInto (gaugeBytes.take 19) (gaugeOf 1 [7] true) =
      (gaugeOf 1 [7] true, .error (.truncated .i16)) ∧
    ∃ merged, mergeFrom (gaugeBytes.take 19) (gaugeOf 1 [7] true) =
        (merged, .error (.truncated .i16)) ∧
      merged.take 1 = (gaugeOf 5 [7] true).take 1 ∧
      merged.drop 1 = (gaugeOf 1 [7] true).drop 1 := by
  have hwire : ∀ f ∈ (gauge ()).fields, f.isOnWire = true := by decide
  have hwhole := updates_agree () hwire gaugeBytes (gaugeOf 1 [7] true)
  have hcut := updates_agree () hwire (gaugeBytes.take 19) (gaugeOf 1 [7] true)
  have hread : decodeFirst gauge () 1 (gaugeBytes.take 19) =
      .ok ((gaugeOf 5 [7] true).take 1) := rfl
  have hstops : StopsAfter gauge () (gaugeBytes.take 19) (.truncated .i16) 1 := .field hread rfl
  obtain ⟨hkept, k, merged, hmerge, hfirst⟩ := hcut.2.2 (.truncated .i16) rfl
  obtain rfl := (hfirst.stops 1).mp hstops
  exact ⟨hwire, hwhole.2.1 _ rfl, hkept, merged, hmerge, hfirst.replaced _ hread, hfirst.kept⟩

end Envelope

end TagWire
