import TagWire.Proofs.Delivery
import TagWire.Proofs.Pieces

/-!
# Raising the limits

Limits only ever cut off.  A session with lower limits takes the same steps as one with higher
limits, until it meets a length or a depth that it does not allow:

* `Limits.beneath` — sessions alike but for their limits, in lockstep until the lower limits
  are reached;
* `readRecord_keeps_of_le` — records are read to fewer levels under the lower limits, and where
  these end, so does the session;
* `Value.Spelled.within`, `Record.Spelled.within` — what can be spelled keeps to the limits of
  its rules;
* `SameUnlessCut`, `CutOff`, `decoding_cut_off` — so a decoder comes to the same under higher
  limits, unless it was cut off, and what it yields keeps to its own.
-/

namespace TagWire

variable {ι α : Type} {S : Schema ι}

/-- Whether a fault says that a limit was reached. -/
def Fault.aboutLimits : Fault → Bool
  | .lengthLimitExceeded _ _ _ | .depthExceeded _ => true
  | _ => false

/-! ## Sessions that differ in their limits -/

namespace Limits

/-- Sessions alike but for their limits, of which the first has the lower ones. -/
def beneath : Lockstep ι where
  Together r s := r.poisoned = false ∧ r.limits.maxLength ≤ s.limits.maxLength ∧
    r.limits.maxDepth ≤ s.limits.maxDepth ∧ s = { r with limits := s.limits }
  Drops failure := failure.fault.aboutLimits = true
  Fails failure other := failure = other

/-- Bytes are taken whatever the limits are. -/
theorem beneath_take (part : Part) (n : Nat) :
    (beneath : Lockstep ι).Keeps (Read.take part n) (Read.take part n) := by
  apply Lockstep.keeps_take
  · rintro r s ⟨hr, -, -, hs⟩
    rw [hs]
    exact ⟨hr, hr, rfl⟩
  · rintro r s source ⟨hr, hlength, hdepth, hs⟩
    refine ⟨hr, hlength, hdepth, ?_⟩
    rw [hs]
  · exact fun _ _ => rfl

/-- A length that the lower limit allows is allowed by the higher one. -/
theorem beneath_length? (kind : Sized) :
    (beneath : Lockstep ι).Keeps (Read.length? kind) (Read.length? kind) := by
  refine Lockstep.Keeps.bind (((beneath_take .i32 4).map _).map _) fun n => ?_
  intro r s h
  rw [run_get_bind, run_get_bind]
  split
  · exact Lockstep.Keeps.pure none r s h
  · split
    · exact Lockstep.Keeps.fail rfl r s h
    · split
      · exact .inr (.inr ⟨_, _, rfl, rfl⟩)
      · next hallowed =>
          have hallowed' : ¬ s.limits.maxLength < n.toInt.toNat := by
            have hlength := h.2.1
            omega
          rw [if_neg hallowed']
          exact Lockstep.Keeps.pure _ r s h

/-- A value for which the lower limit leaves room has room under the higher one. -/
theorem beneath_within {p q : Read ι α} (hp : beneath.Keeps p q) :
    beneath.Keeps (Read.within p) (Read.within q) := by
  rintro r s ⟨hr, hlength, hdepth, hs⟩
  obtain ⟨source, limits', resolver?, depth, poisoned⟩ := s
  cases hs
  by_cases hfull : r.limits.maxDepth ≤ r.depth
  · exact .inr (.inr ⟨_, _, Read.run_within_full hfull, rfl⟩)
  · have hroom : ¬ limits'.maxDepth ≤ r.depth := by
      dsimp only at hdepth
      omega
    rcases hp { r with depth := r.depth + 1 } { r with limits := limits', depth := r.depth + 1 }
      ⟨hr, hlength, hdepth, rfl⟩ with ⟨a, r', s', hrun, hrun', hr', hlength', hdepth', hs'⟩ |
      ⟨failure, other, r', s', hrun, hrun', hfails⟩ | ⟨failure, r', hrun, hdrops⟩
    · refine .inl ⟨a, _, _, Read.run_within_ok hfull hrun,
        Read.run_within_ok (r := { r with limits := limits' }) hroom hrun',
        hr', hlength', hdepth', ?_⟩
      rw [hs']
    · exact .inr (.inl ⟨_, _, _, _, Read.run_within_error hfull hrun,
        Read.run_within_error (r := { r with limits := limits' }) hroom hrun', hfails⟩)
    · exact .inr (.inr ⟨_, _, Read.run_within_error hfull hrun, hdrops⟩)

/-- Sessions that differ in their limits go in lockstep. -/
theorem beneath_sound : (beneath : Lockstep ι).Sound where
  take := beneath_take
  length? := beneath_length?
  within := beneath_within
  lookUp := by
    apply Lockstep.keeps_lookUp
    · rintro r s ⟨-, -, -, hs⟩
      rw [hs]
    · exact fun _ => rfl
  fails _ _ := rfl
  refuses _ := rfl

end Limits

/-- With more levels at hand, no record is read differently by a session that has as high a limit.
Where the lower levels end, so does the session with the lower limits. -/
theorem readRecord_keeps_of_le {levels levels' : Nat} (h : levels ≤ levels') :
    ∀ t : ι, Limits.beneath.Keeps (readRecord (S := S) levels t) (readRecord levels' t) := by
  induction levels generalizing levels' with
  | zero => exact fun t r s _ => .inr (.inr ⟨_, _, rfl, rfl⟩)
  | succ levels ih =>
      obtain ⟨more, rfl⟩ := Nat.exists_eq_succ_of_ne_zero (Nat.ne_zero_of_lt h)
      have hinner := fun t : ι => Limits.beneath_within (ih (Nat.le_of_succ_le_succ h) t)
      exact fun t => readFields_keeps Limits.beneath_sound hinner (S t).fields

/-- Whole records are read in lockstep, each session to the depth that its limits allow. -/
theorem Schema.read_keeps_beneath (t : ι) : Limits.beneath.Keeps (S.read t) (S.read t) := by
  intro r s h
  unfold Schema.read
  rw [run_get_bind, run_get_bind]
  exact readRecord_keeps_of_le (Nat.succ_le_succ h.2.2.1) t r s h

/-! ## What keeps to the limits -/

/-- How long a text or a run of bytes is, or how many items a collection has. -/
def Piece.length? : Piece → Option Nat
  | count _ n => some n
  | text v => some (Utf8.encode v).length
  | bytes v => some v.length
  | _ => none

/-- A piece that is no longer than allowed. -/
def Piece.Within (maxLength : Nat) (piece : Piece) : Prop :=
  ∀ n ∈ piece.length?, n ≤ maxLength

/-- A value of which no text, run of bytes or collection is longer than allowed, and no nested or
dynamic value deeper. -/
def Value.Within (maxLength maxDepth : Nat) {f : Field ι} (v : Value S f) : Prop :=
  (∀ piece ∈ v.pieces, piece.Within maxLength) ∧ v.nesting ≤ maxDepth

/-- The same for a value that is present. -/
def Item.Within (maxLength maxDepth : Nat) {k : Kind ι} (item : Item S k) : Prop :=
  (∀ piece ∈ item.pieces, piece.Within maxLength) ∧ item.nesting ≤ maxDepth

/-- The same for a record. -/
def Record.Within (maxLength maxDepth : Nat) {fs : List (Field ι)} (record : Record S fs) : Prop :=
  (∀ piece ∈ record.pieces, piece.Within maxLength) ∧ record.nesting ≤ maxDepth

namespace Piece

variable {maxLength : Nat}

theorem within_plain (run : List UInt8) : (plain run).Within maxLength := nofun

theorem within_count {kind : Sized} {n : Nat} : (count kind n).Within maxLength ↔ n ≤ maxLength := by
  simp [Within, length?]

theorem within_text {v : String} :
    (text v).Within maxLength ↔ (Utf8.encode v).length ≤ maxLength := by
  simp [Within, length?]

theorem within_bytes {v : List UInt8} : (bytes v).Within maxLength ↔ v.length ≤ maxLength := by
  simp [Within, length?]

end Piece

/-- A leaf with a spelling is no longer than the rules allow. -/
theorem Leaf.within_of_spelled {g : Rules ι} {l : Leaf} {v : l.Carrier} {w : List UInt8}
    (h : l.Spelled g v w) : ∀ piece ∈ l.pieces v, piece.Within g.maxLength := by
  cases l with
  | text => simpa [pieces, Piece.within_text] using h.1.1
  | decimal => simp [pieces, Piece.Within, Piece.length?]
  | fixed => simp [pieces, Piece.Within, Piece.length?]
  | date => simp [pieces, Piece.within_plain]
  | timestamp => simp [pieces, Piece.within_plain]
  | dateTime => simp [pieces, Piece.Within, Piece.length?]
  | bytes =>
      obtain ⟨flag, u, rfl, hmarks, hfits, rfl⟩ := h
      simpa [pieces, Piece.within_bytes] using hfits.1
  | enumName e =>
      obtain ⟨before, after, hvariants, hfirst, htext⟩ := h
      simpa [pieces, Piece.within_text] using htext.1.1
  | enumOrdinal e => simp [pieces, Piece.within_plain]

section Collections

variable {maxLength maxDepth : Nat} {f : Field ι}

/-- A sequence keeps to the limits when its items do and are not too many. -/
theorem Item.within_ofList {values : List (Value S f)} :
    (ofList values).Within maxLength maxDepth ↔
      values.length ≤ maxLength ∧ ∀ v ∈ values, v.Within maxLength maxDepth := by
  unfold Within Value.Within
  rw [pieces_ofList, nesting_ofList_le, List.forall_mem_cons, Piece.within_count,
    List.forall_mem_flatMap, and_assoc]
  simp only [forall_and]

/-- A mapping keeps to the limits when its keys and values do and are not too many. -/
theorem Item.within_ofMap {m : SortedMap (Value S f)} :
    (ofMap m).Within maxLength maxDepth ↔
      m.entries.length ≤ maxLength ∧ ∀ entry ∈ m.entries,
        (Utf8.encode entry.1).length ≤ maxLength ∧ entry.2.Within maxLength maxDepth := by
  unfold Within Value.Within
  rw [pieces_ofMap, nesting_ofMap_le, List.forall_mem_cons, Piece.within_count,
    List.forall_mem_flatMap, and_assoc]
  simp only [List.forall_mem_cons, Piece.within_text, forall_and, and_assoc]

end Collections

/-- A record keeps to the limits when its first field and the others do. -/
theorem Record.within_cons {maxLength maxDepth : Nat} {f : Field ι} {fs : List (Field ι)}
    {v : Value S f} {rest : Record S fs} :
    (cons v rest).Within maxLength maxDepth ↔
      v.Within maxLength maxDepth ∧ rest.Within maxLength maxDepth := by
  unfold Within Value.Within
  rw [nesting, Nat.max_le]
  simp only [pieces, piecewise, List.flatten_cons, List.mem_append]
  grind

section Spelled

variable {g : Rules ι}

mutual

/-- A value that is spelled at some levels keeps to the limits of the rules. -/
theorem Value.Spelled.within {levels : Nat} {f : Field ι} {v : Value S f} {w : List UInt8} :
    Value.Spelled g levels v w → v.Within g.maxLength levels
  | .scalar _ => ⟨by simp [Value.pieces, Piece.within_plain], Nat.zero_le _⟩
  | .string h => ⟨by simpa [Value.pieces, Piece.within_text] using h.1.1, Nat.zero_le _⟩
  | .absent k => ⟨by simp [Value.pieces, Piece.within_plain], Nat.zero_le _⟩
  | .present h => h.within
  | .required h => h.within
  | .guard what => ⟨by simp [Value.pieces], Nat.zero_le _⟩

/-- The same for a value that is present. -/
theorem Item.Spelled.within {levels : Nat} {k : Kind ι} {item : Item S k} {w : List UInt8} :
    Item.Spelled g levels item w → item.Within g.maxLength levels
  | .leaf h => ⟨Leaf.within_of_spelled h, Nat.zero_le _⟩
  | .nested _ h => by
      obtain ⟨hpieces, hnesting⟩ := h.within
      exact ⟨List.forall_mem_cons.mpr ⟨Piece.within_plain _, hpieces⟩, Nat.succ_le_succ hnesting⟩
  | .dynamic _ _ h => by
      obtain ⟨hpieces, hnesting⟩ := h.within
      refine ⟨List.forall_mem_cons.mpr ⟨Piece.within_plain _, ?_⟩, Nat.succ_le_succ hnesting⟩
      exact List.forall_mem_cons.mpr ⟨Piece.within_plain _, hpieces⟩
  | .seq values rfl hfits h => Item.within_ofList.mpr ⟨hfits.1, h.within⟩
  | .map pairs rfl hfits h _ => by
      have hlength := SortedMap.length_entries_ofPairs_le pairs
      exact Item.within_ofMap.mpr ⟨Nat.le_trans hlength hfits.1, fun entry hentry =>
        h.within entry (SortedMap.mem_of_mem_entries_ofPairs hentry)⟩

/-- The same for a record. -/
theorem Record.Spelled.within {levels : Nat} {fs : List (Field ι)} {record : Record S fs}
    {w : List UInt8} : Record.Spelled g levels record w → record.Within g.maxLength levels
  | .nil => ⟨by simp [Record.pieces, Record.piecewise], Nat.zero_le _⟩
  | .cons hv hrest => Record.within_cons.mpr ⟨hv.within, hrest.within⟩

/-- The same for the items of a sequence. -/
theorem SpelledList.within {levels : Nat} {f : Field ι} {values : List (Value S f)}
    {w : List UInt8} :
    SpelledList g levels values w → ∀ v ∈ values, v.Within g.maxLength levels
  | .nil => by simp
  | .cons hv hrest => List.forall_mem_cons.mpr ⟨hv.within, hrest.within⟩

/-- The same for the pairs of a mapping. -/
theorem SpelledPairs.within {levels : Nat} {f : Field ι} {pairs : List (String × Value S f)}
    {w : List UInt8} :
    SpelledPairs g levels pairs w → ∀ pair ∈ pairs,
      (Utf8.encode pair.1).length ≤ g.maxLength ∧ pair.2.Within g.maxLength levels
  | .nil => by simp
  | .cons hkey hv hrest => List.forall_mem_cons.mpr ⟨⟨hkey.1.1, hv.within⟩, hrest.within⟩

end

end Spelled

/-! ## Decoders -/

/-- Two outcomes are the same, be it a value and what is left of the source or be it a fault, or
the first one says that a limit was reached. -/
def SameUnlessCut (lower higher : Except Fault α × Source) : Prop :=
  (∃ a left, lower = (.ok a, left) ∧ higher = (.ok a, left)) ∨
  (∃ fault, lower.1 = .error fault ∧ higher.1 = .error fault) ∨
  ∃ fault, lower.1 = .error fault ∧ fault.aboutLimits = true

/-- A decoder that comes to the same as another one unless it is cut off, and whose values have
a bound. -/
structure CutOff (Bounded : α → Prop) (decode decode' : Source → Except Fault α × Source) :
    Prop where
  agrees : ∀ source, SameUnlessCut (decode source) (decode' source)
  /-- What is accepted is still accepted, as the same value. -/
  raised : ∀ source a left, decode source = (.ok a, left) → decode' source = (.ok a, left)
  bounded : ∀ bytes a left, decode (.ofBytes bytes) = (.ok a, left) → Bounded a

/-- Where the first outcome is a value, so is the second one. -/
theorem SameUnlessCut.of_ok {lower higher : Except Fault α × Source} {a : α} {left : Source}
    (h : SameUnlessCut lower higher) (hlower : lower = (.ok a, left)) : higher = (.ok a, left) := by
  rcases h with ⟨_, _, hsame, hhigher⟩ | ⟨fault, hfault, -⟩ | ⟨fault, hfault, -⟩
  · exact hhigher.trans (hsame.symm.trans hlower)
  · cases hfault.symm.trans (congrArg Prod.fst hlower)
  · cases hfault.symm.trans (congrArg Prod.fst hlower)

section Programs

variable {limits limits' : Limits} (hlength : limits.maxLength ≤ limits'.maxLength)
  (hdepth : limits.maxDepth ≤ limits'.maxDepth)
  {resolver? : Option (TypeTag → Except Fault ι)} {p q : Read ι α}
include hlength hdepth

/-- What two programs in lockstep come to, one under lower limits than the other. -/
theorem Limits.beneath_outcome (hkeeps : Limits.beneath.Keeps p q) (source : Source) :
    SameUnlessCut (Read.outcome (p { source, limits, resolver? }))
      (Read.outcome (q { source, limits := limits', resolver? })) := by
  have hstart : (Limits.beneath : Lockstep ι).Together { source, limits, resolver? }
      { source, limits := limits', resolver? } := ⟨rfl, hlength, hdepth, rfl⟩
  rcases hkeeps _ _ hstart with ⟨a, r, s, hr, hs, -, -, -, hrs⟩ |
    ⟨failure, _, r, s, hr, hs, rfl⟩ | ⟨failure, r, hr, hdrops⟩
  · refine .inl ⟨a, r.source, congrArg Read.outcome hr, (congrArg Read.outcome hs).trans ?_⟩
    rw [hrs]
    rfl
  · exact .inr (.inl ⟨failure.fault, congrArg (fun run => (Read.outcome run).1) hr,
      congrArg (fun run => (Read.outcome run).1) hs⟩)
  · exact .inr (.inr ⟨failure.fault, congrArg (fun run => (Read.outcome run).1) hr, hdrops⟩)

/-- Programs in lockstep under two limits, of which the lower one bounds what is accepted. -/
theorem CutOff.of_programs {P : α → List UInt8 → Prop} {Bounded : α → Prop}
    (hkeeps : Limits.beneath.Keeps p q)
    (hrecognises : Read.Recognises (.start limits resolver? []) p P)
    (hbounded : ∀ a w, P a w → Bounded a) :
    CutOff Bounded (fun source => Read.outcome (p { source, limits, resolver? }))
      (fun source => Read.outcome (q { source, limits := limits', resolver? })) where
  agrees := Limits.beneath_outcome hlength hdepth hkeeps
  raised source _ _ hlower := (Limits.beneath_outcome hlength hdepth hkeeps source).of_ok hlower
  bounded := by
    intro bytes a left hlower
    obtain ⟨r, hrun, -⟩ := Read.outcome_eq_ok_iff.mp hlower
    obtain ⟨w, rest, -, hw, -⟩ := (hrecognises _ _ _).mp hrun
    exact hbounded a w hw

end Programs

/-- The registry with other limits. -/
def Registry.withLimits (registry : Registry S) (limits : Limits) : Registry S :=
  { registry with config := { registry.config with codec := limits } }

/-- **Limits only cut off.**  A decoder with lower limits comes to the same value and leaves the
same source as one with higher limits, or to the same fault, or to the fault that a limit was
reached.  What it yields keeps to its limits.  This holds of the fields of any record, in a session
with any resolver, of an envelope with a record of a known type, and of an envelope with a
record of any registered type. -/
theorem decoding_cut_off (registry : Registry S) (limits limits' : Limits)
    (hlength : limits.maxLength ≤ limits'.maxLength)
    (hdepth : limits.maxDepth ≤ limits'.maxDepth) :
    (∀ (fs : List (Field ι)) (resolver? : Option (TypeTag → Except Fault ι)),
      CutOff (Record.Within limits.maxLength limits.maxDepth)
        (fun source => Read.outcome
          (readFields (readRecord (S := S) limits.maxDepth) fs { source, limits, resolver? }))
        (fun source => Read.outcome (readFields (readRecord limits'.maxDepth) fs
          { source, limits := limits', resolver? }))) ∧
    (∀ t : ι, CutOff (Record.Within limits.maxLength limits.maxDepth)
      (fun source => Envelope.readFrom S t source limits)
      (fun source => Envelope.readFrom S t source limits')) ∧
    CutOff (fun x => x.fields.Within limits.maxLength limits.maxDepth)
      (registry.withLimits limits).readFrom (registry.withLimits limits').readFrom := by
  refine ⟨fun fs resolver? => ?_, fun t => ?_, ?_⟩
  · have hinner := fun t : ι => Limits.beneath_within (readRecord_keeps_of_le (S := S) hdepth t)
    exact .of_programs hlength hdepth (readFields_keeps Limits.beneath_sound hinner fs)
      (readFields_recognises rfl (Nat.zero_add limits.maxDepth) fs) fun _ _ h => h.within
  · refine .of_programs hlength hdepth
      ((Limits.beneath_sound.keeps (.expectEnvelope (S t).tag)).bind fun _ => Schema.read_keeps_beneath t)
      ((Read.recognises_expectEnvelope rfl (S t).tag).bind fun _ =>
        Schema.read_recognises rfl rfl t) ?_
    rintro record w ⟨-, u, v, -, -, hspelled⟩
    exact hspelled.within
  · obtain ⟨P, hrecognises, hspelled⟩ := registry.recognises_spelled limits
    have hwithin : ∀ x w, P x w → x.fields.Within limits.maxLength limits.maxDepth := by
      intro x w hx
      obtain ⟨u, hu⟩ := hspelled x w hx
      exact hu.within
    have hkeeps : Limits.beneath.Keeps registry.readInstance registry.readInstance := by
      refine (Limits.beneath_sound.keeps .envelope).bind fun tag => ?_
      cases registry.resolve tag with
      | error fault => exact .refuse rfl
      | ok t => exact (Schema.read_keeps_beneath t).map _
    rw [(registry.withLimits limits).readFrom_eq_outcome,
      (registry.withLimits limits').readFrom_eq_outcome]
    exact .of_programs hlength hdepth hkeeps hrecognises hwithin

/-- Two bytes are too many for the limit of one, and with a limit of two they are what they are
with any higher one. -/
theorem twoBytes_cut_off :
    let decode := fun limits : Limits => Read.outcome
      (readFields (S := parcel) (readRecord limits.maxDepth) [.optional (.leaf .bytes)]
        { source := Source.ofBytes [1, 0, 0, 0, 2, 7, 8], limits })
    (decode ⟨1, 0⟩).1 = .error (.lengthLimitExceeded .bytes 2 1) ∧
      decode ⟨3, 1⟩ = (.ok (.cons (.present _ (.leaf .bytes [7, 8])) .nil), []) ∧
      (Record.cons (S := parcel) (.present _ (.leaf .bytes [7, 8])) .nil).Within 2 0 := by
  intro decode
  have hcut : (decode ⟨1, 0⟩).1 = .error (.lengthLimitExceeded .bytes 2 1) := rfl
  have htwo : decode ⟨2, 0⟩ = (.ok (.cons (.present _ (.leaf .bytes [7, 8])) .nil), []) := rfl
  have hfields := (decoding_cut_off parcels ⟨2, 0⟩ ⟨3, 1⟩ (by decide) (by decide)).1
    [.optional (.leaf .bytes)] none
  exact ⟨hcut, hfields.raised _ _ _ htwo, hfields.bounded _ _ _ htwo⟩

end TagWire
