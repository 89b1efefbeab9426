import TagWire.Proofs.Dispatch
import TagWire.Proofs.Sources

/-!
# Decoding from any source

The same bytes may be delivered in one portion or in many, and a source may break
behind them or before they are all there.  Decoding depends on the bytes alone:

* `Source.beside` — sessions on two sources, of which one delivers at least what the
  other does, go in lockstep until the first source is exhausted;
* `Source.beside_outcome` — so a program comes to the same on both, or it is let down;
* `Read.Steady` — the programs that go in lockstep and accept certain bytes;
* `TakesBytes`, `OfBytes` — what it means that a decoder takes no more than its bytes and
  depends on them alone;
* `Envelope.readFrom_ofBytes`, `Registry.readFrom_ofBytes` — this holds of both ways to
  decode a record.
-/

namespace TagWire

variable {ι α β : Type} {S : Schema ι}

/-! ## Sessions on two sources -/

/-- Sessions that have taken as many bytes, one on `source` and the other one on `other`. -/
def Source.beside (source other : Source) : Lockstep ι where
  Together r s := r.poisoned = false ∧ ∃ n ≤ source.delivered.length,
    r.source = source.after n ∧ s = { r with source := other.after n }
  Drops failure := source.delivered ≠ other.delivered ∧
    ∃ part, failure = .session (source.shortfall.fault part)
  Fails failure failure' := failure = failure' ∨ ∃ part,
    failure = .session (source.shortfall.fault part) ∧
    failure' = .session (other.shortfall.fault part)

namespace Source

variable {source other : Source}

theorem beside_level : (source.beside other : Lockstep ι).Level where
  limits_eq := by
    rintro r s ⟨-, n, -, -, rfl⟩
    rfl
  depth_eq := by
    rintro r s ⟨-, n, -, -, rfl⟩
    rfl
  withDepth := by
    rintro r s depth ⟨hr, n, hn, hsource, rfl⟩
    exact ⟨hr, n, hn, hsource, rfl⟩

/-- A source that delivers no more than another one does is the first to be exhausted. -/
theorem beside_sound (hdelivered : source.delivered <+: other.delivered) :
    (source.beside other : Lockstep ι).Sound := by
  apply beside_level.sound
  · rintro part m r s ⟨hr, n, hn, hsource, rfl⟩
    obtain ⟨extra, hextra⟩ := hdelivered
    have hlength : source.delivered.length + extra.length = other.delivered.length := by
      rw [← hextra, List.length_append]
    by_cases henough : n + m ≤ source.delivered.length
    · have hm : m ≤ (source.delivered.drop n).length := by
        rw [List.length_drop]
        omega
      have hdemand : r.source.demand m =
          (.ok ((source.delivered.drop n).take m), source.after (n + m)) := by
        rw [hsource, demand_of_le (by simpa using hm), delivered_after, after_after]
      have hother : (other.after n).demand m =
          (.ok ((source.delivered.drop n).take m), other.after (n + m)) := by
        rw [demand_of_le (by simp; omega), delivered_after, after_after, ← hextra,
          List.drop_append_of_le_length hn, List.take_append_of_le_length hm]
      exact .inl ⟨_, _, _, Read.run_take_ok hr part hdemand,
        Read.run_take_ok (r := { r with source := other.after n }) hr part hother,
        hr, n + m, henough, rfl, rfl⟩
    · have hlt : r.source.delivered.length < m := by
        rw [hsource, delivered_after, List.length_drop]
        omega
      obtain ⟨left, hdemand, -⟩ := demand_of_lt hlt
      have hrun := Read.run_take_error hr part hdemand
      rw [hsource, shortfall_fault_after] at hrun
      by_cases hsame : source.delivered = other.delivered
      · have hlt' : (other.after n).delivered.length < m := by
          rw [delivered_after, List.length_drop, ← hsame]
          omega
        obtain ⟨left', hdemand', -⟩ := demand_of_lt hlt'
        have hrun' := Read.run_take_error (r := { r with source := other.after n }) hr part hdemand'
        rw [shortfall_fault_after] at hrun'
        exact .inr (.inl ⟨_, _, _, _, hrun, hrun', .inr ⟨part, rfl, rfl⟩⟩)
      · exact .inr (.inr ⟨_, _, hrun, hsame, part, rfl⟩)
  · apply Lockstep.keeps_lookUp
    · rintro r s ⟨-, n, -, -, rfl⟩
      rfl
    · exact fun _ => .inl rfl
  · exact fun _ _ => .inl rfl
  · exact fun _ => .inl rfl

end Source

/-! ## Decoders -/

/-- What is decoded has taken some of the bytes.  It is decoded from every source that delivers
these first, and nothing behind them is touched. -/
def TakesBytes (decode : Source → Except Fault α × Source) : Prop :=
  ∀ (bytes : List UInt8) (a : α) (left : Source), decode (.ofBytes bytes) = (.ok a, left) →
    ∃ n ≤ bytes.length, left = .ofBytes (bytes.drop n) ∧
      ∀ source : Source, bytes.take n <+: source.delivered → decode source = (.ok a, source.after n)

/-- A decoder that depends on the bytes alone, and not on the source that delivers them. -/
structure OfBytes (decode : Source → Except Fault α × Source) : Prop where
  taken : TakesBytes decode
  /-- When a portion delivers the last of the bytes that are taken, `back` is left as it is. -/
  untouched : ∀ (front : Source) (first : UInt8) (more : List UInt8) (a : α) (back : Source),
    front.breakage? = none →
    decode (.ofBytes (front.delivered ++ first :: more)) = (.ok a, .ofBytes []) →
      decode (front ++ .portion first more :: back) = (.ok a, back)
  /-- A source that does not break is as good as its bytes. -/
  unbroken : ∀ source : Source, source.breakage? = none →
    (decode source).1 = (decode (.ofBytes source.delivered)).1
  /-- A source that breaks before it has delivered all bytes changes nothing, or it is
  reported as such. -/
  broken : ∀ {source : Source} {bytes : List UInt8} {breakage : Breakage},
    source.breakage? = some breakage → source.delivered <+: bytes →
      (decode source).1 = (decode (.ofBytes bytes)).1 ∨
      ∃ part, (decode source).1 = .error ((Source.Shortfall.broke breakage).fault part)

/-- A program that reads on as long as its source delivers: it goes in lockstep on two sources
of which one delivers at least what the other does, and it accepts certain bytes. -/
structure Read.Steady (limits : Limits) (resolver? : Option (TypeTag → Except Fault ι))
    (p : Read ι α) : Prop where
  keeps : ∀ {source other : Source}, source.delivered <+: other.delivered →
    (source.beside other).Keeps p p
  recognises : ∃ P, Read.Recognises (.start limits resolver? []) p P

section Programs

variable {p : Read ι α} (limits : Limits) (resolver? : Option (TypeTag → Except Fault ι))

/-- What a program comes to on two sources of which one delivers at least what the other
does. -/
theorem Source.beside_outcome {source other : Source}
    (hkeeps : (source.beside other).Keeps p p) :
    let decode := fun source => Read.outcome (p { source, limits, resolver? })
    (∃ a n, n ≤ source.delivered.length ∧ decode source = (.ok a, source.after n) ∧
      decode other = (.ok a, other.after n)) ∨
    (∃ fault fault', (decode source).1 = .error fault ∧ (decode other).1 = .error fault' ∧
      (fault = fault' ∨ ∃ part, fault = source.shortfall.fault part ∧
        fault' = other.shortfall.fault part)) ∨
    (source.delivered ≠ other.delivered ∧
      ∃ part, (decode source).1 = .error (source.shortfall.fault part)) := by
  intro decode
  have hstart : (source.beside other).Together { source, limits, resolver? }
      { source := other, limits, resolver? } :=
    ⟨rfl, 0, Nat.zero_le _, (after_zero source).symm, by rw [after_zero]⟩
  rcases hkeeps _ _ hstart with ⟨a, r, s, hr, hs, -, n, hn, hsource, rfl⟩ |
    ⟨failure, failure', r, s, hr, hs, hfails⟩ | ⟨failure, r, hr, hne, part, rfl⟩
  · refine .inl ⟨a, n, hn, ?_, ?_⟩
    · rw [← hsource]
      exact congrArg Read.outcome hr
    · exact congrArg Read.outcome hs
  · refine .inr (.inl ⟨failure.fault, failure'.fault, ?_, ?_, ?_⟩)
    · exact congrArg (fun run => (Read.outcome run).1) hr
    · exact congrArg (fun run => (Read.outcome run).1) hs
    · rcases hfails with rfl | ⟨part, rfl, rfl⟩
      · exact .inl rfl
      · exact .inr ⟨part, rfl, rfl⟩
  · exact .inr (.inr ⟨hne, part, congrArg (fun run => (Read.outcome run).1) hr⟩)

/-- What takes no more than its bytes leaves the rest of a source as it is. -/
theorem TakesBytes.untouched {decode : Source → Except Fault α × Source} (h : TakesBytes decode)
    (front : Source) (first : UInt8) (more : List UInt8) (a : α) (back : Source)
    (hfront : front.breakage? = none)
    (hdecode : decode (.ofBytes (front.delivered ++ first :: more)) = (.ok a, .ofBytes [])) :
    decode (front ++ .portion first more :: back) = (.ok a, back) := by
  obtain ⟨n, hn, hleft, hread⟩ := h _ _ _ hdecode
  have hnone := congrArg List.length (Source.ofBytes_injective hleft)
  have hcount : n = front.delivered.length + (more.length + 1) := by
    rw [List.length_nil, List.length_drop] at hnone
    rw [List.length_append, List.length_cons] at hn hnone
    omega
  have hfirst : (front.delivered ++ first :: more).take n <+:
      (front ++ .portion first more :: back).delivered := by
    rw [Source.delivered_append hfront, Source.delivered]
    exact (List.take_prefix n _).trans (by simp)
  rw [hread _ hfirst, hcount, Source.after_portion hfront]

section

variable {limits resolver?} (h : p.Steady limits resolver?)
include h

/-- A steady program takes no more than the bytes that it accepts. -/
theorem TakesBytes.of_program :
    TakesBytes fun source => Read.outcome (p { source, limits, resolver? }) := by
  obtain ⟨P, hrecognises⟩ := h.recognises
  intro bytes a left hdecode
  obtain ⟨r, hrun, rfl⟩ := Read.outcome_eq_ok_iff.mp hdecode
  obtain ⟨w, rest, rfl, hP, rfl⟩ := (hrecognises _ _ _).mp hrun
  refine ⟨w.length, by simp, by simp [Reader.on], fun source hsource => ?_⟩
  rw [List.take_left' rfl] at hsource
  obtain ⟨more, hmore⟩ := hsource
  have hslice := congrArg Read.outcome ((hrecognises _ _ _).mpr ⟨w, more, rfl, hP, rfl⟩)
  rw [hmore] at hslice
  have hkept : (source.beside (.ofBytes source.delivered)).Keeps p p := h.keeps (by simp)
  rcases Source.beside_outcome limits resolver? hkept with ⟨a', n, hn, hsource, hbytes⟩ |
    ⟨fault, fault', -, hbytes, -⟩ | ⟨hne, -⟩
  · obtain ⟨hvalue, hleft⟩ := Prod.mk.inj (hbytes.symm.trans hslice)
    cases hvalue
    have hrest : source.delivered.drop n = more := by
      rw [Source.after_ofBytes] at hleft
      exact Source.ofBytes_injective hleft
    have hcount : n = w.length := by
      have hlength := congrArg List.length hrest
      rw [List.length_drop, ← hmore, List.length_append] at hlength
      rw [← hmore, List.length_append] at hn
      omega
    rw [← hcount]
    exact hsource
  · cases hbytes.symm.trans (congrArg Prod.fst hslice)
  · exact absurd (Source.delivered_ofBytes _).symm hne

/-- Such a program depends on the bytes alone. -/
theorem OfBytes.of_program :
    OfBytes fun source => Read.outcome (p { source, limits, resolver? }) where
  taken := .of_program h
  untouched := (TakesBytes.of_program h).untouched
  unbroken := by
    intro source hbreakage
    have hkept : (source.beside (.ofBytes source.delivered)).Keeps p p := h.keeps (by simp)
    have hshort : (Source.ofBytes source.delivered).shortfall = source.shortfall := by
      unfold Source.shortfall
      rw [hbreakage, Source.breakage?_ofBytes, Source.delivered_ofBytes]
    rcases Source.beside_outcome limits resolver? hkept with ⟨a, n, -, hsource, hbytes⟩ |
      ⟨fault, fault', hsource, hbytes, hfaults⟩ | ⟨hne, -⟩
    · exact (congrArg Prod.fst hsource).trans (congrArg Prod.fst hbytes).symm
    · rw [hshort] at hfaults
      rcases hfaults with rfl | ⟨part, rfl, rfl⟩
      · exact hsource.trans hbytes.symm
      · exact hsource.trans hbytes.symm
    · exact absurd (Source.delivered_ofBytes _).symm hne
  broken := by
    intro source bytes breakage hbreakage hdelivered
    have hkept : (source.beside (.ofBytes bytes)).Keeps p p := h.keeps (by simpa using hdelivered)
    have hshort : source.shortfall = .broke breakage := by
      unfold Source.shortfall
      rw [hbreakage]
    rcases Source.beside_outcome limits resolver? hkept with ⟨a, n, -, hsource, hbytes⟩ |
      ⟨fault, fault', hsource, hbytes, rfl | ⟨part, rfl, -⟩⟩ | ⟨-, part, hsource⟩
    · exact .inl ((congrArg Prod.fst hsource).trans (congrArg Prod.fst hbytes).symm)
    · exact .inl (hsource.trans hbytes.symm)
    · exact .inr ⟨part, hshort ▸ hsource⟩
    · exact .inr ⟨part, hshort ▸ hsource⟩

end

end Programs

/-- The fields of a record are read steadily. -/
theorem readFields_steady (fs : List (Field ι)) (limits : Limits)
    (resolver? : Option (TypeTag → Except Fault ι)) :
    (readFields (readRecord (S := S) limits.maxDepth) fs).Steady limits resolver? where
  keeps hdelivered := by
    have hsound := Source.beside_sound (ι := ι) hdelivered
    exact readFields_keeps hsound
      (fun t => hsound.within (readRecord_keeps hsound Source.beside_level limits.maxDepth t)) fs
  recognises := ⟨_, readFields_recognises rfl (Nat.zero_add limits.maxDepth) fs⟩

/-- So are an envelope of a known type and the fields behind it. -/
theorem Envelope.steady (S : Schema ι) (t : ι) (limits : Limits) :
    Read.Steady limits none (do Read.expectEnvelope (S t).tag; S.read t) where
  keeps hdelivered := by
    have hsound := Source.beside_sound (ι := ι) hdelivered
    exact (hsound.keeps (.expectEnvelope (S t).tag)).bind fun _ => S.read_keeps hsound Source.beside_level t
  recognises :=
    ⟨_, (Read.recognises_expectEnvelope rfl (S t).tag).bind fun _ => Schema.read_recognises rfl rfl t⟩

/-- Reads the fields of the type that is registered under a tag. -/
def Registry.readTagged (registry : Registry S) (tag : TypeTag) : Read ι (Instance S) :=
  match registry.resolve tag with
  | .error fault => Read.refuse fault
  | .ok t => do return ⟨t, ← S.read t⟩

theorem Registry.readInstance_eq (registry : Registry S) :
    registry.readInstance = Read.envelope >>= registry.readTagged := rfl

/-- A session of a registry accepts certain bytes, of which those behind the envelope spell the
fields of the record. -/
theorem Registry.recognises_spelled (registry : Registry S) (limits : Limits) :
    ∃ P, Read.Recognises (.start limits (some registry.resolve) []) registry.readInstance P ∧
      ∀ x w, P x w → ∃ u, x.fields.Spelled (.of limits (some registry.resolve)) limits.maxDepth u := by
  have hfields : ∀ tag, ∃ P : Instance S → List UInt8 → Prop,
      Read.Recognises (.start limits (some registry.resolve) []) (registry.readTagged tag) P ∧
      ∀ x w, P x w → x.fields.Spelled (.of limits (some registry.resolve)) limits.maxDepth w := by
    intro tag
    unfold readTagged
    cases registry.resolve tag with
    | error fault => exact ⟨_, Read.recognises_refuse fault, nofun⟩
    | ok t =>
        refine ⟨_, (Schema.read_recognises rfl rfl t).map _, ?_⟩
        rintro x w ⟨record, rfl, hspelled⟩
        exact hspelled
  choose P hrecognises hspelled using hfields
  rw [registry.readInstance_eq]
  refine ⟨_, (Read.recognises_envelope rfl).bind hrecognises, ?_⟩
  rintro x w ⟨tag, u, v, -, -, hx⟩
  exact ⟨v, hspelled tag x v hx⟩

/-- A record of any registered type is read steadily as well. -/
theorem Registry.steady (registry : Registry S) :
    registry.readInstance.Steady registry.config.codec (some registry.resolve) where
  keeps hdelivered := by
    have hsound := Source.beside_sound (ι := ι) hdelivered
    refine (hsound.keeps .envelope).bind fun tag => ?_
    cases registry.resolve tag with
    | error fault => exact .refuse (.inl rfl)
    | ok t => exact (S.read_keeps hsound Source.beside_level t).map _
  recognises := by
    obtain ⟨P, hrecognises, -⟩ := registry.recognises_spelled registry.config.codec
    exact ⟨P, hrecognises⟩

/-- A record of any registered type is what a session with the limits of the registry comes to. -/
theorem Registry.readFrom_eq_outcome (registry : Registry S) :
    registry.readFrom = fun source => Read.outcome (registry.readInstance
      { source, limits := registry.config.codec, resolver? := some registry.resolve }) :=
  funext registry.readFrom_eq

/-- A record of a known type is decoded from its bytes, however they are delivered. -/
theorem Envelope.readFrom_ofBytes (S : Schema ι) (t : ι) (limits : Limits) :
    OfBytes fun source => readFrom S t source limits :=
  .of_program (Envelope.steady S t limits)

/-- A record of any registered type is decoded from its bytes, however they are delivered. -/
theorem Registry.readFrom_ofBytes (registry : Registry S) : OfBytes registry.readFrom := by
  rw [registry.readFrom_eq_outcome]
  exact .of_program registry.steady

end TagWire
