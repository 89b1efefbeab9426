import TagWire.Proofs.Lockstep
import TagWire.Proofs.RegistryHistory
import TagWire.Proofs.RoundTrip

/-!
# One type expected, any type found

A record is decoded by a caller who expects its type, in a session that knows no
types, or by a registry, which finds the type by the tag on the wire and lends its
sessions what it knows.  Both read the same envelope, and from there on they part
only where a dynamic value needs a type to be looked up.

* `Read.envelope_alike` — any two sessions read an envelope alike, also the one that
  only peeks at it;
* `Registry.unaided`, `Registry.informed` — reading without a resolver in lockstep with
  reading with one, and what a session with one never reports;
* `Registry.decode_append`, `Envelope.readFrom_append` — what stands behind an envelope is read
  as the fields of the type that is found, or of the one that is expected;
* `Registry.decodes_as_expected` — where both ways agree, and where not.
-/

namespace TagWire

variable {ι α : Type} {S : Schema ι}

/-! ## Outcomes -/

/-- A record of a known type is what its envelope and its fields come to. -/
theorem Envelope.readFrom_eq (t : ι) (source : Source) (limits : Limits) :
    readFrom S t source limits =
      Read.outcome ((do Read.expectEnvelope (S t).tag; S.read t : Read ι _) { source, limits }) :=
  rfl

/-- A record of any registered type is what a session of the registry comes to. -/
theorem Registry.readFrom_eq (registry : Registry S) (source : Source) :
    registry.readFrom source = Read.outcome (registry.readInstance (registry.session source)) := by
  unfold readFrom
  cases registry.readInstance (registry.session source) <;> rfl

/-! ## Envelopes -/

/-- Sessions with the same source read an envelope alike, whatever types they know. -/
theorem Read.envelope_alike {κ : Type} {r : Reader ι} {s : Reader κ} (hr : r.poisoned = false)
    (hs : s.poisoned = false) (hsource : r.source = s.source) :
    (∃ tag source, envelope r = .ok tag { r with source } ∧
      envelope s = .ok tag { s with source }) ∨
    ∃ fault source, envelope r = .error (.session fault) { r with source, poisoned := true } ∧
      envelope s = .error (.session fault) { s with source, poisoned := true } := by
  have hword : ∀ {ν : Type} {r r' : Reader ν} {part : Part} {width : Nat} {bytes : List UInt8},
      take part width r = .ok bytes r' → word part width r = .ok (BigEndian.decode bytes) r' :=
    fun h => run_bind_ok h
  cases hmagic : r.source.demand 4 with
  | mk outcome source =>
      have hmagic' := hsource ▸ hmagic
      cases outcome with
      | error shortfall =>
          have hfail := run_take_error hr .magicNumber hmagic
          have hfail' := run_take_error hs .magicNumber hmagic'
          exact .inr ⟨_, _, run_bind_error (run_bind_error hfail),
            run_bind_error (run_bind_error hfail')⟩
      | ok magic =>
          have hok := hword (run_take_ok hr .magicNumber hmagic)
          have hok' := hword (run_take_ok hs .magicNumber hmagic')
          unfold envelope
          rw [run_bind_ok hok, run_bind_ok hok']
          by_cases hfound : UInt32.ofNat (BigEndian.decode magic) = magicNumber
          · rw [if_pos hfound, if_pos hfound]
            cases htag : source.demand 4 with
            | mk outcome left =>
                cases outcome with
                | error shortfall =>
                    have hfail := run_take_error (r := { r with source }) hr .i32 htag
                    have hfail' := run_take_error (r := { s with source }) hs .i32 htag
                    exact .inr ⟨_, _,
                      run_bind_error (run_bind_error (run_bind_error hfail)),
                      run_bind_error (run_bind_error (run_bind_error hfail'))⟩
                | ok tag =>
                    have hok := hword (run_take_ok (r := { r with source }) hr .i32 htag)
                    have hok' :=
                      hword (run_take_ok (r := { s with source }) hs .i32 htag)
                    exact .inl ⟨_, _, run_bind_ok (run_bind_ok hok),
                      run_bind_ok (run_bind_ok hok')⟩
          · rw [if_neg hfound, if_neg hfound]
            exact .inr ⟨_, _, rfl, rfl⟩

namespace Envelope

variable {bytes : List UInt8} {tag : TypeTag} {fault : Fault}

/-- Where peeking fails, every session fails on the envelope with the same fault. -/
theorem envelope_of_peek_error (h : peek bytes = .error fault) {r : Reader ι}
    (hr : r.poisoned = false) :
    ∃ r', Read.envelope (r.on bytes) = .error (.session fault) r' := by
  have hpeek : peek bytes = (Read.outcome (Read.envelope (ι := Empty) (.start {} none bytes))).1 :=
    rfl
  rcases Read.envelope_alike (r := r.on bytes) (s := .start (ι := Empty) {} none bytes) hr rfl rfl
    with ⟨tag, source, -, hs⟩ | ⟨found, source, hrun, hs⟩
  · rw [hpeek, hs] at h
    cases h
  · rw [hpeek, hs] at h
    cases h
    exact ⟨_, hrun⟩

/-- What peeking finds is the tag of the envelope that the bytes begin with. -/
theorem eq_append_of_peek (h : peek bytes = .ok tag) :
    ∃ rest, bytes = envelopeLayout tag ++ rest := by
  have hpeek : peek bytes = (Read.outcome (Read.envelope (ι := Empty) (.start {} none bytes))).1 :=
    rfl
  rw [hpeek] at h
  obtain ⟨r, hrun⟩ := Read.outcome_fst_eq_ok_iff.mp h
  obtain ⟨w, rest, hbytes, rfl, -⟩ :=
    (Read.recognises_envelope (r := .start (ι := Empty) {} none []) rfl _ _ _).mp hrun
  exact ⟨rest, hbytes⟩

/-- Every session reads an envelope that is there. -/
theorem envelope_append {r : Reader ι} (hr : r.poisoned = false) (tag : TypeTag)
    (rest : List UInt8) : Read.envelope (r.on (envelopeLayout tag ++ rest)) = .ok tag (r.on rest) :=
  (Read.recognises_envelope hr _ _ _).mpr ⟨_, rest, rfl, rfl, rfl⟩

end Envelope

/-! ## Sessions with and without a resolver -/

namespace Registry

variable (registry : Registry S)

variable {registry} in
theorem resolve_of_registered {tag : TypeTag} {t : ι} (h : registry.find? tag = some t) :
    registry.resolve tag = .ok t := by
  unfold resolve
  rw [h]

variable {registry} in
theorem resolve_of_unregistered {tag : TypeTag} (h : registry.find? tag = none) :
    registry.resolve tag = .error (.unknownType tag) := by
  unfold resolve
  rw [h]

/-- A session without a resolver beside one that resolves through the registry. -/
def unaided : Lockstep ι where
  Together r s := r.poisoned = false ∧ r.resolver? = none ∧
    s = { r with resolver? := some registry.resolve }
  Drops failure := ∃ tag, failure = .session (.noResolver tag)
  Fails failure other := failure = other

/-- A session that resolves through the registry, beside itself.  It never lacks a
resolver, and it reports no tag as unknown that is registered. -/
def informed : Lockstep ι where
  Together r s := r = s ∧ r.poisoned = false ∧ r.resolver? = some registry.resolve
  Drops _ := False
  Fails failure _ := ∀ tag, failure.fault ≠ .noResolver tag ∧
    (failure.fault = .unknownType tag → registry.find? tag = none)

/-- The two sessions only part for want of a resolver. -/
theorem unaided_level : registry.unaided.Level where
  limits_eq := by
    rintro r s ⟨-, -, rfl⟩
    rfl
  depth_eq := by
    rintro r s ⟨-, -, rfl⟩
    rfl
  withDepth := by
    rintro r s depth ⟨hr, hresolver, rfl⟩
    exact ⟨hr, hresolver, rfl⟩

theorem unaided_sound : registry.unaided.Sound := by
  apply registry.unaided_level.sound
  · apply Lockstep.keeps_take
    · rintro r s ⟨hr, -, rfl⟩
      exact ⟨hr, hr, rfl⟩
    · rintro r s source ⟨hr, hresolver, rfl⟩
      exact ⟨hr, hresolver, rfl⟩
    · exact fun _ _ => rfl
  · rintro tag r s ⟨hr, hresolver, rfl⟩
    exact .inr (.inr ⟨_, _, Lockstep.lookUp_of_none hresolver tag, tag, rfl⟩)
  · exact fun _ _ => rfl
  · exact fun _ => rfl

theorem informed_level : registry.informed.Level where
  limits_eq := by
    rintro r s ⟨rfl, -⟩
    rfl
  depth_eq := by
    rintro r s ⟨rfl, -⟩
    rfl
  withDepth := by
    rintro r s depth ⟨rfl, hr, hresolver⟩
    exact ⟨rfl, hr, hresolver⟩

/-- A fault that does not concern types may be reported by any session. -/
theorem informed_fails {failure : Failure} (h : failure.fault.aboutTypes = false) :
    registry.informed.Fails failure failure := by
  intro tag
  constructor
  · intro hfault
    rw [hfault] at h
    cases h
  · intro hfault
    rw [hfault] at h
    cases h

theorem informed_sound : registry.informed.Sound := by
  apply registry.informed_level.sound
  · apply Lockstep.keeps_take
    · rintro r s ⟨rfl, hr, -⟩
      exact ⟨hr, hr, rfl⟩
    · rintro r s source ⟨rfl, hr, hresolver⟩
      exact ⟨rfl, hr, hresolver⟩
    · rintro (_ | _ | _) part <;> exact registry.informed_fails rfl
  · rintro tag r s ⟨rfl, hr, hresolver⟩
    have hfound := Lockstep.lookUp_of_some hresolver tag
    cases hfind : registry.find? tag with
    | some u =>
        rw [resolve_of_registered hfind] at hfound
        exact .inl ⟨u, r, r, hfound, hfound, rfl, hr, hresolver⟩
    | none =>
        rw [resolve_of_unregistered hfind] at hfound
        refine .inr (.inl ⟨_, _, _, _, hfound, hfound, fun other => ⟨by rintro ⟨⟩, ?_⟩⟩)
        rintro ⟨⟩
        exact hfind
  · exact fun fault h => registry.informed_fails h
  · exact fun what => registry.informed_fails rfl

/-! ## The two ways to decode -/

variable {registry} {bytes rest : List UInt8} {tag : TypeTag} {t : ι}

/-- A session of the registry reads an envelope that is there. -/
theorem envelope_session (tag : TypeTag) (rest : List UInt8) :
    Read.envelope (registry.session (Source.ofBytes (envelopeLayout tag ++ rest))) =
      .ok tag (registry.session (Source.ofBytes rest)) :=
  Envelope.envelope_append (r := registry.session []) rfl tag rest

section

variable (h : registry.find? tag = some t)
include h

/-- The fields of a registered type are read in a session of the registry. -/
theorem decode_append :
    registry.decode (envelopeLayout tag ++ rest) =
      (Read.outcome (S.read t (registry.session (Source.ofBytes rest)))).1.map (⟨t, ·⟩) := by
  unfold decode
  rw [readFrom_eq]
  unfold readInstance
  rw [run_bind_ok (envelope_session tag rest), resolve_of_registered h]
  cases hrun : S.read t (registry.session (Source.ofBytes rest)) with
  | ok v r =>
      dsimp only
      rw [run_bind_ok hrun]
      rfl
  | error failure r =>
      dsimp only
      rw [run_bind_error hrun]
      rfl

/-- The decoded record is of that type. -/
theorem tag_of_decode {x : Instance S} (hx : registry.decode (envelopeLayout tag ++ rest) = .ok x) :
    x.tag = tag := by
  rw [decode_append h] at hx
  cases hfields : (Read.outcome (S.read t (registry.session (Source.ofBytes rest)))).1 with
  | error fault =>
      rw [hfields] at hx
      cases hx
  | ok v =>
      rw [hfields] at hx
      cases hx
      exact tag_of_find? h

/-- Where a type is registered, its tag is never said to be unknown, and no dynamic value
lacks a resolver. -/
theorem about_types_of_decode_append {fault : Fault}
    (hfault : registry.decode (envelopeLayout tag ++ rest) = .error fault) :
    ∀ other, fault ≠ .noResolver other ∧
      (fault = .unknownType other → registry.find? other = none) := by
  rw [decode_append h] at hfault
  have hkeeps := Schema.read_keeps (S := S) registry.informed_sound registry.informed_level t
    (registry.session (Source.ofBytes rest)) _ ⟨rfl, rfl, rfl⟩
  rcases hkeeps with ⟨v, r, s, hr, -⟩ | ⟨failure, _, r, s, hr, -, hfails⟩ | ⟨_, _, -, ⟨⟩⟩
  · rw [hr] at hfault
    cases hfault
  · rw [hr] at hfault
    cases hfault
    exact hfails

end

/-- A tag that is not registered is unknown. -/
theorem decode_append_of_unregistered (h : registry.find? tag = none) :
    registry.decode (envelopeLayout tag ++ rest) = .error (.unknownType tag) := by
  unfold decode
  rw [readFrom_eq]
  unfold readInstance
  rw [run_bind_ok (envelope_session tag rest), resolve_of_unregistered h]
  rfl

/-- A tag is said to be unknown when it is not registered. -/
theorem decode_append_eq_unknown_iff :
    registry.decode (envelopeLayout tag ++ rest) = .error (.unknownType tag) ↔
      registry.find? tag = none := by
  constructor
  · intro hunknown
    cases hfind : registry.find? tag with
    | none => rfl
    | some u =>
        have hfree := (about_types_of_decode_append hfind hunknown tag).2 rfl
        rw [hfind] at hfree
        exact hfree
  · exact decode_append_of_unregistered

end Registry

namespace Envelope

variable {bytes rest : List UInt8} {tag : TypeTag} {t : ι} {limits : Limits} {fault : Fault}

/-- An envelope that cannot be read is no envelope of a known type either. -/
theorem readFrom_of_peek_error (h : peek bytes = .error fault) :
    (readFrom S t (Source.ofBytes bytes) limits).1 = .error fault := by
  obtain ⟨r, hrun⟩ := envelope_of_peek_error h (r := .start (ι := ι) limits none []) rfl
  have hexpect : Read.expectEnvelope (S t).tag (.start limits none bytes) =
      .error (.session fault) r := run_bind_error hrun
  have hread : (do Read.expectEnvelope (S t).tag; S.read t : Read ι _) (.start limits none bytes) =
      .error (.session fault) r := run_bind_error hexpect
  rw [readFrom_eq]
  exact congrArg (fun run => (Read.outcome run).1) hread

/-- An envelope of another type is not accepted. -/
theorem readFrom_append_of_ne (h : tag ≠ (S t).tag) :
    (readFrom S t (Source.ofBytes (envelopeLayout tag ++ rest)) limits).1 =
      .error (.typeMismatch (S t).tag tag) := by
  let session : Reader ι := .start limits none rest
  have hexpect : Read.expectEnvelope (S t).tag (session.on (envelopeLayout tag ++ rest)) =
      Read.fail (.typeMismatch (S t).tag tag) session := by
    unfold Read.expectEnvelope
    rw [run_bind_ok (envelope_append (r := session) rfl tag rest), if_neg h]
    rfl
  rw [readFrom_eq]
  exact congrArg (fun run => (Read.outcome run).1) (run_bind_error hexpect)

/-- The fields of a known type are read in a session without a resolver. -/
theorem readFrom_append :
    readFrom S t (Source.ofBytes (envelopeLayout (S t).tag ++ rest)) limits =
      Read.outcome (S.read t (.start limits none rest)) := by
  let session : Reader ι := .start limits none rest
  have hexpect : Read.expectEnvelope (S t).tag (session.on (envelopeLayout (S t).tag ++ rest)) =
      .ok () session := by
    unfold Read.expectEnvelope
    rw [run_bind_ok (envelope_append (r := session) rfl _ rest), if_pos rfl]
    rfl
  rw [readFrom_eq]
  exact congrArg Read.outcome (run_bind_ok hexpect)

end Envelope

namespace Registry

variable {registry : Registry S} {bytes rest : List UInt8} {tag : TypeTag} {t : ι} {fault : Fault}

/-- An envelope that cannot be read is no envelope of any type. -/
theorem decode_of_peek_error (registry : Registry S) (h : Envelope.peek bytes = .error fault) :
    registry.decode bytes = .error fault := by
  obtain ⟨r, hrun⟩ := Envelope.envelope_of_peek_error h (r := registry.session []) rfl
  unfold decode
  rw [readFrom_eq]
  exact congrArg (fun run => (Read.outcome run).1) (run_bind_error hrun)

variable [DecidableEq ι]

/-- The record of the expected type, where the registry has found that type. -/
theorem decodeAs_append (h : registry.find? (S t).tag = some t) :
    registry.decodeAs t (envelopeLayout (S t).tag ++ rest) =
      (Read.outcome (S.read t (registry.session (Source.ofBytes rest)))).1 := by
  unfold decodeAs
  rw [decode_append h]
  cases (Read.outcome (S.read t (registry.session (Source.ofBytes rest)))).1 with
  | error fault => rfl
  | ok v =>
      have hself : (⟨t, v⟩ : Instance S).as? t = some v := dif_pos rfl
      simp only [Except.map, bind, Except.bind, hself]
      rfl

/-- The two ways to decode a record of the expected type agree, unless the session that knows
no types lacks a resolver. -/
theorem decodeAs_append_eq_iff (h : registry.find? (S t).tag = some t) :
    let static := (Envelope.readFrom S t (Source.ofBytes (envelopeLayout (S t).tag ++ rest))
      registry.config.codec).1
    registry.decodeAs t (envelopeLayout (S t).tag ++ rest) = static ↔
      ¬ ∃ missing, static = .error (.noResolver missing) := by
  intro static
  have hstatic : static =
      (Read.outcome (S.read t (.start registry.config.codec none rest))).1 :=
    congrArg Prod.fst Envelope.readFrom_append
  rw [decodeAs_append h, hstatic]
  constructor
  · rintro hagree ⟨missing, hmissing⟩
    have hdecode := (decode_append h).trans
      (congrArg (Except.map (⟨t, ·⟩ : _ → Instance S)) (hagree.trans hmissing))
    exact (about_types_of_decode_append h hdecode missing).1 rfl
  · intro hresolved
    have hkeeps := Schema.read_keeps (S := S) registry.unaided_sound registry.unaided_level t
      (.start registry.config.codec none rest) (registry.session (Source.ofBytes rest))
      ⟨rfl, rfl, rfl⟩
    rcases hkeeps with ⟨v, r, s, hr, hs, -⟩ | ⟨failure, _, r, s, hr, hs, rfl⟩ | ⟨_, r, hr, tag, rfl⟩
    · rw [hr, hs]
      rfl
    · rw [hr, hs]
      rfl
    · rw [hr] at hresolved
      exact absurd ⟨tag, rfl⟩ hresolved

/-- **Expecting a type and finding it agree.**  Of a type that is registered under its own tag,
the record that a caller expects and the one that the registry finds are read from the same
envelopes.  What peeking cannot read, neither can; an envelope of another type is a mismatch for
the caller, and unknown to the registry exactly if its tag is not registered; what the registry
decodes has the tag on the wire; and of the expected type both ways yield the same value or the
same fault, except where the caller's session meets a dynamic value and lacks a resolver. -/
theorem decodes_as_expected (registry : Registry S) (t : ι) (bytes : List UInt8)
    (registered : registry.find? (S t).tag = some t) :
    let static := (Envelope.readFrom S t (Source.ofBytes bytes) registry.config.codec).1
    (∀ fault, Envelope.peek bytes = .error fault →
      static = .error fault ∧ registry.decode bytes = .error fault ∧
        registry.decodeAs t bytes = .error fault) ∧
    ∀ tag, Envelope.peek bytes = .ok tag →
      (tag ≠ (S t).tag → static = .error (.typeMismatch (S t).tag tag)) ∧
      (registry.decode bytes = .error (.unknownType tag) ↔ registry.contains tag = false) ∧
      (∀ x, registry.decode bytes = .ok x → x.tag = tag) ∧
      (tag = (S t).tag → (registry.decodeAs t bytes = static ↔
        ¬ ∃ missing, static = .error (.noResolver missing))) := by
  intro static
  constructor
  · intro fault hpeek
    have hdecode := decode_of_peek_error registry hpeek
    refine ⟨Envelope.readFrom_of_peek_error hpeek, hdecode, ?_⟩
    unfold decodeAs
    rw [hdecode]
    rfl
  · intro tag hpeek
    obtain ⟨rest, rfl⟩ := Envelope.eq_append_of_peek hpeek
    refine ⟨Envelope.readFrom_append_of_ne, ?_, ?_, ?_⟩
    · rw [decode_append_eq_unknown_iff]
      unfold contains
      cases registry.find? tag <;> simp
    · intro x hx
      cases hfind : registry.find? tag with
      | some u => exact tag_of_decode hfind hx
      | none => cases (decode_append_of_unregistered hfind).symm.trans hx
    · rintro rfl
      exact decodeAs_append_eq_iff registered

/-- A parcel that holds another one is only read where its type can be looked up. -/
theorem parcels_decode_as_expected :
    Envelope.peek boxedParcelBytes = .ok ⟨7⟩ ∧
      (Envelope.readFrom parcel () (Source.ofBytes boxedParcelBytes) parcels.config.codec).1 =
        .error (.noResolver ⟨7⟩) ∧
      parcels.decodeAs () boxedParcelBytes ≠ .error (.noResolver ⟨7⟩) := by
  have hpeek : Envelope.peek boxedParcelBytes = .ok ⟨7⟩ := rfl
  have hstatic : (Envelope.readFrom parcel () (Source.ofBytes boxedParcelBytes)
      parcels.config.codec).1 = .error (.noResolver ⟨7⟩) := rfl
  refine ⟨hpeek, hstatic, fun hsame => ?_⟩
  have hagree := ((decodes_as_expected parcels () boxedParcelBytes rfl).2 ⟨7⟩ hpeek).2.2.2 rfl
  exact hagree.mp (hsame.trans hstatic.symm) ⟨⟨7⟩, hstatic⟩

end Registry

end TagWire
