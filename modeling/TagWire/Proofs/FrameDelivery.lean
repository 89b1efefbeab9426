import TagWire.Proofs.Delivery
import TagWire.Proofs.FrameStream

/-!
# Streams of frames from any source

What a frame reader yields depends on the bytes alone as well, however a source delivers
them.  Where a source breaks, the frames before that are read and the one it breaks in is
reported as the last result.

* `FrameReader.readUpTo_taken` — frames that are read have taken their bytes and no more;
* `FrameReader.readUpTo_alike` — a stream from any source beside the same stream from its
  bytes;
* `decoding_ofBytes` — single records and streams.
-/

namespace TagWire

variable {ι : Type} {S : Schema ι}

/-- The bytes that a source delivers are among those that it holds. -/
theorem Source.length_delivered_le (source : Source) :
    source.delivered.length ≤ source.bytes.length := by
  induction source with
  | nil => exact Nat.le_refl 0
  | cons event later ih =>
      cases event with
      | interruption => exact ih
      | failure breakage => exact Nat.zero_le _
      | portion first more =>
          have hbytes : Source.bytes (.portion first more :: later) =
              first :: more ++ Source.bytes later := rfl
          rw [hbytes, delivered, List.length_append, List.length_append]
          exact Nat.add_le_add_left ih _

namespace FrameReader

variable {registry : Registry S}

/-- A frame that is read has been delivered whole. -/
theorem next?_eq_some {source left : Source} {x : Instance S}
    (h : next? registry source = (.ok (some x), left)) :
    extent registry.config.codec.maxLength source.delivered ≤ source.delivered.length ∧
      content registry source.delivered = .ok (some x) ∧
      left = source.after (extent registry.config.codec.maxLength source.delivered) := by
  by_cases hwhole :
      extent registry.config.codec.maxLength source.delivered ≤ source.delivered.length
  · obtain ⟨hcontent, hleft⟩ := Prod.mk.inj ((next?_of_le hwhole).symm.trans h)
    exact ⟨hwhole, hcontent, hleft.symm⟩
  · have hlt := Nat.not_le.mp hwhole
    cases hbreakage : source.breakage? with
    | none =>
        have hsame := congrArg Prod.fst ((next?_of_unbroken hbreakage hlt).symm.trans h)
        dsimp only at hsame
        split at hsame
        · cases hsame
        · cases hsame
    | some breakage =>
        obtain ⟨fault, left', hnext, -⟩ := next?_of_broken hbreakage hlt
        cases hnext.symm.trans h

/-- A frame and some bytes behind it are there in every source that delivers as much. -/
theorem next?_of_taken {bytes : List UInt8} {outcome : Except Fault (Option (Instance S))} {k : Nat}
    {source : Source} (hcontent : content registry bytes = outcome)
    (hk : extent registry.config.codec.maxLength bytes + k ≤ bytes.length)
    (hsource : bytes.take (extent registry.config.codec.maxLength bytes + k) <+:
      source.delivered) :
    next? registry source =
      (outcome, source.after (extent registry.config.codec.maxLength bytes)) ∧
    (bytes.drop (extent registry.config.codec.maxLength bytes)).take k <+:
      (source.after (extent registry.config.codec.maxLength bytes)).delivered := by
  generalize he : extent registry.config.codec.maxLength bytes = e at hk hsource ⊢
  have hfour : 4 ≤ e := he ▸ four_le_extent _ bytes
  have hlength : (bytes.take (e + k)).length = e + k := List.length_take_of_le hk
  have hextent : extent registry.config.codec.maxLength (bytes.take (e + k)) = e := by
    have happend : extent registry.config.codec.maxLength
        (bytes.take (e + k) ++ bytes.drop (e + k)) =
          extent registry.config.codec.maxLength (bytes.take (e + k)) :=
      extent_append (by omega) _
    rw [List.take_append_drop, he] at happend
    exact happend.symm
  have hwhole : extent registry.config.codec.maxLength (bytes.take (e + k)) ≤
      (bytes.take (e + k)).length := by omega
  have hsame := content_append hwhole (bytes.drop (e + k))
  rw [List.take_append_drop, hcontent] at hsame
  constructor
  · rw [next?_of_front hsource hwhole, hextent, ← hsame]
  · obtain ⟨more, hmore⟩ := hsource
    rw [Source.delivered_after, ← hmore, List.drop_append_of_le_length (by omega), List.drop_take,
      Nat.add_sub_cancel_left]
    exact List.prefix_append _ _

/-- Frames that are read from bytes, without an end or a fault, have taken some of these.  They
are read from every source that delivers these first, and nothing behind them is touched. -/
theorem readUpTo_taken {n : Nat} {bytes : List UInt8} {results : List (Except Fault (Instance S))}
    {left : Source}
    (h : readUpTo registry n { source := .ofBytes bytes } = (results, { source := left })) :
    ∃ k ≤ bytes.length, left = .ofBytes (bytes.drop k) ∧
      ∀ source : Source, bytes.take k <+: source.delivered →
        readUpTo registry n { source } = (results, { source := source.after k }) := by
  induction n generalizing bytes results with
  | zero =>
      cases h
      exact ⟨0, Nat.zero_le _, rfl, fun source _ => by rw [Source.after_zero]; rfl⟩
  | succ n ih =>
      cases hnext : next? registry (Source.ofBytes bytes) with
      | mk outcome behind =>
          rcases outcome with fault | _ | x
          · rw [readUpTo_of_error hnext] at h
            cases h
          · rw [readUpTo_of_none hnext] at h
            cases h
          · rw [readUpTo_of_some hnext] at h
            obtain ⟨hwhole, hcontent, hafter⟩ := next?_eq_some hnext
            rw [Source.delivered_ofBytes] at hwhole hcontent hafter
            rw [Source.after_ofBytes] at hafter
            subst hafter
            obtain ⟨hresults, hbehind⟩ := Prod.mk.inj h
            obtain ⟨k, hk, hleft, hlater⟩ := ih (Prod.ext rfl hbehind)
            rw [List.length_drop] at hk
            refine ⟨extent registry.config.codec.maxLength bytes + k, by omega,
              by rw [hleft, List.drop_drop], fun source hsource => ?_⟩
            obtain ⟨hnext, hbehind⟩ := next?_of_taken hcontent (by omega) hsource
            rw [readUpTo_of_some hnext, hlater _ hbehind, Source.after_after]
            exact Prod.ext hresults rfl

/-- A stream from a source yields what its bytes do, unless the source breaks in a frame.
`xs` are the frames before that one. -/
theorem readUpTo_alike {limit limit' : Nat} {source : Source} {bytes : List UInt8}
    (hdelivered : source.delivered <+: bytes)
    (hwhole : source.breakage? = none → source.delivered = bytes)
    (hlimit : source.delivered.length < limit) (hlimit' : bytes.length < limit') :
    (readUpTo registry limit { source }).1 =
      (readUpTo registry limit' { source := .ofBytes bytes }).1 ∨
    source.breakage? ≠ none ∧ ∃ (xs : List (Instance S)) (later : List (Except Fault (Instance S)))
      (fault : Fault),
      (readUpTo registry limit' { source := .ofBytes bytes }).1 = xs.map .ok ++ later ∧
      (readUpTo registry limit { source }).1 = xs.map .ok ++ [.error fault] ∧
      (fault = .transfer .sourceFailed ∨ fault = .truncated .frame) := by
  induction limit generalizing limit' source bytes with
  | zero => cases hlimit
  | succ limit ih =>
      obtain ⟨limit', rfl⟩ := Nat.exists_eq_succ_of_ne_zero (Nat.ne_zero_of_lt hlimit')
      have hfour := four_le_extent registry.config.codec.maxLength source.delivered
      by_cases hframe :
          extent registry.config.codec.maxLength source.delivered ≤ source.delivered.length
      · have hnext := next?_of_le hframe
        have hfront : source.delivered <+: (Source.ofBytes bytes).delivered := by
          rw [Source.delivered_ofBytes]
          exact hdelivered
        have hslice := next?_of_front hfront hframe
        rw [Source.after_ofBytes] at hslice
        rcases hcontent : content registry source.delivered with fault | _ | x
        · rw [hcontent] at hnext hslice
          rw [readUpTo_of_error hnext, readUpTo_of_error hslice]
          exact .inl rfl
        · rw [hcontent] at hnext hslice
          rw [readUpTo_of_none hnext, readUpTo_of_none hslice]
          exact .inl rfl
        · rw [hcontent] at hnext hslice
          rw [readUpTo_of_some hnext, readUpTo_of_some hslice]
          generalize extent registry.config.codec.maxLength source.delivered = e at hfour hframe ⊢
          have hlonger := hdelivered.length_le
          have hbehind : (source.after e).delivered <+: bytes.drop e := by
            rw [Source.delivered_after]
            obtain ⟨extra, rfl⟩ := hdelivered
            rw [List.drop_append_of_le_length hframe]
            exact List.prefix_append _ _
          have hwhole' : (source.after e).breakage? = none →
              (source.after e).delivered = bytes.drop e := by
            rw [Source.breakage?_after, Source.delivered_after]
            exact fun hnone => congrArg (List.drop e) (hwhole hnone)
          have hless : (source.after e).delivered.length < limit := by
            rw [Source.delivered_after, List.length_drop]
            omega
          have hless' : (bytes.drop e).length < limit' := by
            rw [List.length_drop]
            omega
          rcases ih hbehind hwhole' hless hless' with hsame | ⟨hbroken, xs, later, fault, hxs, h⟩
          · exact .inl (congrArg (.ok x :: ·) hsame)
          · rw [Source.breakage?_after] at hbroken
            refine .inr ⟨hbroken, x :: xs, later, fault, ?_, ?_, h.2⟩
            · exact congrArg (.ok x :: ·) hxs
            · exact congrArg (.ok x :: ·) h.1
      · have hlt := Nat.not_le.mp hframe
        cases hbreakage : source.breakage? with
        | none =>
            obtain rfl := hwhole hbreakage
            have hnext := next?_of_unbroken hbreakage hlt
            have hslice : next? registry (.ofBytes source.delivered) = _ :=
              next?_of_unbroken (Source.breakage?_ofBytes source.delivered) (by simpa using hlt)
            rw [Source.delivered_ofBytes] at hslice
            rcases hcut : cutFault? source.delivered.length with _ | fault
            · rw [hcut] at hnext hslice
              rw [readUpTo_of_none hnext, readUpTo_of_none hslice]
              exact .inl rfl
            · rw [hcut] at hnext hslice
              rw [readUpTo_of_error hnext, readUpTo_of_error hslice]
              exact .inl rfl
        | some breakage =>
            obtain ⟨fault, left, hnext, hfault⟩ := next?_of_broken hbreakage hlt
            rw [readUpTo_of_error hnext]
            exact .inr ⟨nofun, [], _, fault, rfl, rfl, hfault⟩

/-- A stream is read to its end or its first fault. -/
theorem finished_readUpTo {limit : Nat} {source : Source}
    (hlimit : source.delivered.length < limit) :
    (readUpTo registry limit { source }).2.finished = true := by
  induction limit generalizing source with
  | zero => cases hlimit
  | succ limit ih =>
      rcases hnext : next? registry source with ⟨fault | _ | x, left⟩
      · rw [readUpTo_of_error hnext]
      · rw [readUpTo_of_none hnext]
      · rw [readUpTo_of_some hnext]
        obtain ⟨hwhole, -, rfl⟩ := next?_eq_some hnext
        have hfour := four_le_extent registry.config.codec.maxLength source.delivered
        apply ih
        rw [Source.delivered_after, List.length_drop]
        omega

/-- A reader that has finished yields nothing more. -/
theorem readFrame_of_finished {reader : FrameReader} (h : reader.finished = true) :
    reader.readFrame registry = (.ok none, reader) := by
  unfold readFrame
  rw [if_pos h]

/-- A stream reader that depends on the bytes alone, and not on the source that delivers them. -/
structure OfBytes (registry : Registry S) : Prop where
  /-- Frames that are read, without an end or a fault, have taken some of the bytes.  They are
  read from every source that delivers these first, and nothing behind them is touched. -/
  taken : ∀ {n : Nat} {bytes : List UInt8} {results : List (Except Fault (Instance S))}
    {left : Source},
    readUpTo registry n { source := .ofBytes bytes } = (results, { source := left }) →
      ∃ k ≤ bytes.length, left = .ofBytes (bytes.drop k) ∧
        ∀ source : Source, bytes.take k <+: source.delivered →
          readUpTo registry n { source } = (results, { source := source.after k })
  /-- A source that does not break is as good as its bytes. -/
  unbroken : ∀ source : Source, source.breakage? = none →
    (readAll registry { source }).1 =
      (readAll registry { source := .ofBytes source.delivered }).1
  /-- A source that breaks before it has delivered all bytes changes nothing, or the frames
  before the one that it breaks in are read and then this is reported. -/
  broken : ∀ {source : Source} {bytes : List UInt8}, source.breakage? ≠ none →
    source.delivered <+: bytes →
      (readAll registry { source }).1 = (readAll registry { source := .ofBytes bytes }).1 ∨
      ∃ (xs : List (Instance S)) (later : List (Except Fault (Instance S))) (fault : Fault),
        (readAll registry { source := .ofBytes bytes }).1 = xs.map .ok ++ later ∧
        (readAll registry { source }).1 = xs.map .ok ++ [.error fault] ∧
        (fault = .transfer .sourceFailed ∨ fault = .truncated .frame)
  /-- Nothing comes behind the end or a fault. -/
  finished : ∀ source : Source,
    (readAll registry { source }).2.readFrame registry =
      (.ok none, (readAll registry { source }).2)

/-- All frames of a source, beside those of its bytes. -/
theorem readAll_alike (registry : Registry S) {source : Source} {bytes : List UInt8}
    (hdelivered : source.delivered <+: bytes)
    (hwhole : source.breakage? = none → source.delivered = bytes) :
    (readAll registry { source }).1 = (readAll registry { source := .ofBytes bytes }).1 ∨
    source.breakage? ≠ none ∧ ∃ (xs : List (Instance S)) (later : List (Except Fault (Instance S)))
      (fault : Fault),
      (readAll registry { source := .ofBytes bytes }).1 = xs.map .ok ++ later ∧
      (readAll registry { source }).1 = xs.map .ok ++ [.error fault] ∧
      (fault = .transfer .sourceFailed ∨ fault = .truncated .frame) := by
  unfold readAll
  dsimp only
  rw [Source.bytes_ofBytes]
  exact readUpTo_alike hdelivered hwhole (Nat.lt_succ_of_le source.length_delivered_le)
    (Nat.lt_succ_self _)

/-- Frames are read from their bytes, however they are delivered. -/
theorem readAll_ofBytes (registry : Registry S) : OfBytes registry where
  taken := readUpTo_taken
  unbroken := by
    intro source hbreakage
    rcases readAll_alike registry (List.prefix_refl source.delivered) (fun _ => rfl) with
      hsame | ⟨hbroken, -⟩
    · exact hsame
    · exact absurd hbreakage hbroken
  broken := by
    intro source bytes hbreakage hdelivered
    rcases readAll_alike registry hdelivered (fun hnone => absurd hnone hbreakage) with
      hsame | ⟨-, hbroken⟩
    · exact .inl hsame
    · exact .inr hbroken
  finished := by
    intro source
    exact readFrame_of_finished
      (finished_readUpTo (Nat.lt_succ_of_le source.length_delivered_le))

end FrameReader

/-- **Delivery is immaterial.**  A record of a known type, a record of any registered type and
a stream of frames are read in the same way from every source that delivers the same bytes. -/
theorem decoding_ofBytes (registry : Registry S) :
    (∀ (t : ι) (limits : Limits), OfBytes fun source => Envelope.readFrom S t source limits) ∧
      OfBytes registry.readFrom ∧ FrameReader.OfBytes registry :=
  ⟨Envelope.readFrom_ofBytes S, registry.readFrom_ofBytes, FrameReader.readAll_ofBytes registry⟩

/-- The bytes of an empty parcel. -/
def emptyParcelBytes : List UInt8 := [0xD0, 0xBA, 0xCA, 0xFE, 0, 0, 0, 7, 0xFF, 0xFF, 0xFF, 0xFF, 0]

/-- These bytes and another one in pieces, behind which the source breaks. -/
def pieces : Source :=
  [.portion 0xD0 [0xBA], .interruption, .portion 0xCA [0xFE, 0, 0, 0, 7, 0xFF, 0xFF, 0xFF, 0xFF],
    .interruption, .portion 0 [9], .failure .brokenPipe]

/-- The parcel is decoded from the pieces, and neither the byte behind it nor the failure is
touched. -/
theorem pieces_decoding_ofBytes :
    Envelope.readFrom parcel () pieces {} =
      (.ok FrameWriter.emptyParcel.fields, [.portion 9 [], .failure .brokenPipe]) := by
  have hslice : Envelope.readFrom parcel () (.ofBytes emptyParcelBytes) {} =
      (.ok FrameWriter.emptyParcel.fields, .ofBytes []) := rfl
  obtain ⟨n, hn, hleft, hread⟩ := ((decoding_ofBytes parcels).1 () {}).taken _ _ _ hslice
  have hlength : emptyParcelBytes.length = 13 := rfl
  have hcount : n = 13 := by
    have hnone := congrArg List.length (Source.ofBytes_injective hleft)
    rw [List.length_drop, List.length_nil] at hnone
    omega
  subst hcount
  exact hread pieces ⟨[9], rfl⟩

end TagWire
