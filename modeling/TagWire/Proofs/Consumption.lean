import TagWire.Proofs.Delivery

/-!
# What decoding consumes

What is decoded has consumed some of the bytes that it was read from.  No other bytes
had a part in it, and all of these had:

* `ConsumesExactly` — the consumed bytes are decoded alike whatever follows them, and any
  fewer of them are truncated;
* `ConsumesExactly.of_program` — that holds of every steady program;
* `decoding_consumes_exactly` — and so of the fields of a record and of both ways to decode one.

Why a cut decode is truncated, and nothing else: it goes in lockstep with the whole one.
It cannot come to a value, for it would then have consumed as much, and there is less.  It
cannot fail along with the whole one, which does not fail.  So it drops out, and what makes a
session drop out is the end of its source.
-/

namespace TagWire

variable {ι α : Type} {S : Schema ι}

/-- What is decoded depends on the bytes that it has consumed and on nothing behind them, and
not on any fewer. -/
def ConsumesExactly (decode : Source → Except Fault α × Source) : Prop :=
  ∀ (bytes : List UInt8) (a : α) (left : Source), decode (.ofBytes bytes) = (.ok a, left) →
    ∃ n ≤ bytes.length, left = .ofBytes (bytes.drop n) ∧
      (∀ rest, decode (.ofBytes (bytes.take n ++ rest)) = (.ok a, .ofBytes rest)) ∧
      ∀ k < n, ∃ part, (decode (.ofBytes (bytes.take k))).1 = .error (.truncated part)

/-- A source that delivers some bytes and ends is a truncation to whoever asks for more. -/
theorem Source.shortfall_fault_ofBytes (bytes : List UInt8) (part : Part) :
    (ofBytes bytes).shortfall.fault part = .truncated part := by
  unfold shortfall
  rw [breakage?_ofBytes]
  rfl

section Programs

variable {p : Read ι α} {limits : Limits} {resolver? : Option (TypeTag → Except Fault ι)}

/-- On fewer bytes than it consumes, a steady program is let down. -/
theorem Read.Steady.truncated (h : p.Steady limits resolver?) {bytes : List UInt8} {a : α} {n k : Nat}
    (hn : n ≤ bytes.length) (hk : k < n)
    (hdecode : outcome (p { source := .ofBytes bytes, limits, resolver? }) =
      (.ok a, .ofBytes (bytes.drop n))) :
    ∃ part, (outcome (p { source := .ofBytes (bytes.take k), limits, resolver? })).1 =
      .error (.truncated part) := by
  have hkept : ((Source.ofBytes (bytes.take k)).beside (.ofBytes bytes)).Keeps p p :=
    h.keeps (by simpa using List.take_prefix k bytes)
  rcases Source.beside_outcome limits resolver? hkept with ⟨_, m, hm, -, hwhole⟩ |
    ⟨_, _, -, hwhole, -⟩ | ⟨-, part, hcut⟩
  · -- Both runs would have consumed `m` bytes, no more than there are in the cut.
    have hleft := congrArg Prod.snd (hdecode.symm.trans hwhole)
    rw [Source.after_ofBytes] at hleft
    have hrest := congrArg List.length (Source.ofBytes_injective hleft)
    rw [List.length_drop, List.length_drop] at hrest
    rw [Source.delivered_ofBytes, List.length_take] at hm
    omega
  · cases hwhole.symm.trans (congrArg Prod.fst hdecode)
  · exact ⟨part, hcut.trans (congrArg Except.error (Source.shortfall_fault_ofBytes _ part))⟩

/-- A steady program consumes exactly the bytes that it accepts. -/
theorem ConsumesExactly.of_program (h : p.Steady limits resolver?) :
    ConsumesExactly fun source => Read.outcome (p { source, limits, resolver? }) := by
  intro bytes a left hdecode
  obtain ⟨n, hn, rfl, hread⟩ := TakesBytes.of_program h bytes a left hdecode
  refine ⟨n, hn, rfl, fun rest => ?_, fun k hk => h.truncated hn hk hdecode⟩
  have hlength : (bytes.take n).length = n := List.length_take_of_le hn
  have hdelivered : bytes.take n <+: (Source.ofBytes (bytes.take n ++ rest)).delivered := by simp
  rw [hread _ hdelivered, Source.after_ofBytes, List.drop_left' hlength]

end Programs

/-- **Decoding depends on exactly the bytes that it consumes.**  This holds of the fields of any
record, in a session with any limits and any resolver, of an envelope with a record of a known
type, and of an envelope with a record of any registered type. -/
theorem decoding_consumes_exactly (registry : Registry S) :
    (∀ (fs : List (Field ι)) (limits : Limits) (resolver? : Option (TypeTag → Except Fault ι)),
      ConsumesExactly fun source => Read.outcome
        (readFields (readRecord (S := S) limits.maxDepth) fs { source, limits, resolver? })) ∧
    (∀ (t : ι) (limits : Limits),
      ConsumesExactly fun source => Envelope.readFrom S t source limits) ∧
    ConsumesExactly registry.readFrom := by
  refine ⟨fun fs limits resolver? => ?_, fun t limits => ?_, ?_⟩
  · exact .of_program (readFields_steady fs limits resolver?)
  · exact .of_program (Envelope.steady S t limits)
  · rw [registry.readFrom_eq_outcome]
    exact .of_program registry.steady

/-- An empty text and a number are read with anything behind them.  Cut between the two, where
the text is read whole and no byte of it is missing, they are truncated. -/
theorem emptyText_consumed_exactly :
    let decode := fun bytes => Read.outcome (readFields (S := parcel) (readRecord 0)
      [.string, .scalar .i8] { source := Source.ofBytes bytes, limits := ⟨0, 0⟩ })
    decode ([0, 0, 0, 0, 5] ++ [9, 9]) =
        (.ok (.cons (.string "") (.cons (.scalar .i8 5) .nil)), .ofBytes [9, 9]) ∧
      ∃ part, (decode [0, 0, 0, 0]).1 = .error (.truncated part) := by
  intro decode
  have hslice : decode [0, 0, 0, 0, 5] =
      (.ok (.cons (.string "") (.cons (.scalar .i8 5) .nil)), .ofBytes []) := rfl
  obtain ⟨n, hn, hleft, hmore, hfewer⟩ :=
    (decoding_consumes_exactly parcels).1 _ ⟨0, 0⟩ none _ _ _ hslice
  have hcount : n = 5 := by
    have hnone := congrArg List.length (Source.ofBytes_injective hleft)
    rw [List.length_drop, List.length_nil] at hnone
    simp only [List.length_cons, List.length_nil] at hn hnone
    omega
  subst hcount
  exact ⟨hmore [9, 9], hfewer 4 (by omega)⟩

end TagWire
