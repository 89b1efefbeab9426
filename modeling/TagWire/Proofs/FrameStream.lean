import TagWire.Proofs.Dispatch
import TagWire.Proofs.Frames
import TagWire.Proofs.FrameWriting

/-!
# Streams of frames, as they are read back

A reader takes each frame whole before it decodes it, so what is wrong with one
frame does not reach the others.  From what a writer left in its sink it gets
the frames that are whole, and then says how the rest is cut:

* `Registry.decode_layout` — a registry decodes what a record was encoded as;
* `FrameReader.next?_frameLayout`, `FrameReader.next?_torn` — one frame, whole or cut;
* `FrameReader.readUpTo_frameStream` — all whole frames and what is behind them;
* `FrameWriter.stream_read_of_written` — the stream of any sequence of writes into any
  sink, read back.
-/

namespace TagWire

variable {ι : Type} {S : Schema ι}

/-- A record that a registry can read back: its type and those of its dynamic values are
registered under their own tags, it is not nested too deep, and its variants are listed. -/
structure Registry.Covers (registry : Registry S) (x : Instance S) : Prop where
  registered : registry.find? x.tag = some x.type
  nesting_le : x.fields.nesting ≤ registry.config.codec.maxDepth
  listed : x.fields.Forall Leaf.Listed fun t => registry.find? (S t).tag = some t

/-- A registry decodes a record from what it was encoded as. -/
theorem Registry.decode_layout {registry : Registry S} {limits : Limits} {x : Instance S}
    (hmax : registry.config.codec.maxLength = limits.maxLength) (hcovers : registry.Covers x)
    (hwritable : x.fields.writable limits.writable = true) :
    registry.decode x.layout = .ok x := by
  have hspellable : x.fields.Spellable (Rules.of registry.config.codec (some registry.resolve))
      limits registry.config.codec.maxDepth :=
    ⟨hwritable, hcovers.nesting_le, hcovers.listed.imp (fun _ _ h => h.found) fun t ht =>
      Registry.knows_iff.mpr ht⟩
  have hspelled := x.fields.spelled_layout hmax hspellable
  have hfields : S.read x.type (registry.session (Source.ofBytes x.fields.layout)) =
      .ok x.fields (registry.session (Source.ofBytes [])) :=
    (Schema.read_recognises (r := registry.session []) rfl rfl _ _ _ _).mpr
      ⟨_, [], (List.append_nil _).symm, hspelled, rfl⟩
  have hlayout : x.layout = envelopeLayout x.tag ++ x.fields.layout := rfl
  rw [hlayout, decode_append hcovers.registered, hfields]
  rfl

namespace FrameReader

section Frames

variable {registry : Registry S} {limits : Limits} {x : Instance S}
variable (hmax : registry.config.codec.maxLength = limits.maxLength)
include hmax

/-- A framable record's length is below both limits of a frame. -/
theorem length_layout_of_framable (hx : x.framable limits = true) :
    x.layout.length < 2 ^ 31 ∧ x.layout.length ≤ registry.config.codec.maxLength := by
  have hlength : x.layout.length ≤ limits.writable :=
    of_decide_eq_true (Bool.and_eq_true_iff.mp hx).2
  unfold Limits.writable Limits.greatestPrefix at hlength
  omega

/-- A whole frame yields its record. -/
theorem next?_frameLayout (hx : x.framable limits = true) (hcovers : registry.Covers x)
    (rest : List UInt8) :
    next? registry (Source.ofBytes (x.frameLayout ++ rest)) =
      (.ok (some x), Source.ofBytes rest) := by
  obtain ⟨hlength, hlimit⟩ := length_layout_of_framable hmax hx
  have hsplit : x.frameLayout ++ rest =
      BigEndian.encode 4 x.layout.length ++ (x.layout ++ rest) := List.append_assoc ..
  have hextent := extent_encode hlength hlimit (x.layout ++ rest)
  have hcontent := content_encode hlength hlimit rest
  rw [Registry.decode_layout hmax hcovers (Bool.and_eq_true_iff.mp hx).1] at hcontent
  rw [hsplit, next?_of_le (by simp [hextent, BigEndian.length_encode])]
  rw [Source.delivered_ofBytes, Source.after_ofBytes, hextent, hcontent, ← hsplit,
    List.drop_left' (by rw [Instance.frameLayout, List.length_append, BigEndian.length_encode])]
  rfl

/-- A frame that is cut is reported, unless nothing is there of it. -/
theorem next?_torn (hx : x.framable limits = true) {n : Nat} (hn : n < x.frameLayout.length) :
    next? registry (Source.ofBytes (x.frameLayout.take n)) =
      (match cutFault? n with
        | none => .ok none
        | some fault => .error fault, []) := by
  have htotal : x.frameLayout.length = 4 + x.layout.length := by
    rw [Instance.frameLayout, List.length_append, BigEndian.length_encode]
  have htaken : (x.frameLayout.take n).length = n := List.length_take_of_le (Nat.le_of_lt hn)
  have hcut : n < extent registry.config.codec.maxLength (x.frameLayout.take n) := by
    by_cases hheader : n < 4
    · exact Nat.lt_of_lt_of_le hheader (four_le_extent _ _)
    · obtain ⟨hlength, hlimit⟩ := length_layout_of_framable hmax hx
      have hsplit : x.frameLayout.take n =
          BigEndian.encode 4 x.layout.length ++ x.layout.take (n - 4) := by
        have hfirst : (BigEndian.encode 4 x.layout.length).length ≤ n := by
          rw [BigEndian.length_encode]
          omega
        rw [Instance.frameLayout, List.take_append, List.take_of_length_le hfirst,
          BigEndian.length_encode]
      rw [hsplit, extent_encode hlength hlimit, ← htotal]
      exact hn
  have hlt : (Source.ofBytes (x.frameLayout.take n)).delivered.length <
      extent registry.config.codec.maxLength (Source.ofBytes (x.frameLayout.take n)).delivered := by
    rw [Source.delivered_ofBytes, htaken]
    exact hcut
  have hnext := next?_of_unbroken (Source.breakage?_ofBytes _) hlt
  rw [Source.delivered_ofBytes, htaken] at hnext
  exact hnext

/-- The whole frames of a stream yield their records, and then it is reported how the stream
is cut. -/
theorem readUpTo_frameStream {xs : List (Instance S)} {torn : List UInt8} {limit : Nat}
    (hxs : ∀ x ∈ xs, x.framable limits = true ∧ registry.Covers x)
    (htorn : next? registry (Source.ofBytes torn) =
      (match cutFault? torn.length with
        | none => .ok none
        | some fault => .error fault, []))
    (hlimit : xs.length < limit) :
    readUpTo registry limit { source := Source.ofBytes (frameStream xs ++ torn) } =
      (xs.map .ok ++ (cutFault? torn.length).toList.map .error,
        { source := [], finished := true }) := by
  induction limit generalizing xs with
  | zero => cases hlimit
  | succ limit ih =>
      cases xs with
      | nil =>
          have hstream : frameStream ([] : List (Instance S)) ++ torn = torn := rfl
          rw [hstream]
          cases hcut : cutFault? torn.length with
          | none =>
              rw [hcut] at htorn
              exact readUpTo_of_none htorn limit
          | some fault =>
              rw [hcut] at htorn
              exact readUpTo_of_error htorn limit
      | cons x rest =>
          obtain ⟨hx, hcovers⟩ := hxs x List.mem_cons_self
          have hstream : frameStream (x :: rest) ++ torn =
              x.frameLayout ++ (frameStream rest ++ torn) := List.append_assoc ..
          have hlater := ih (fun y hy => hxs y (List.mem_cons_of_mem x hy))
            (Nat.lt_of_succ_lt_succ hlimit)
          rw [hstream, readUpTo_of_some (next?_frameLayout hmax hx hcovers _), hlater]
          rfl

end Frames

/-- A stream has no more frames than bytes. -/
theorem length_le_length_frameStream (xs : List (Instance S)) :
    xs.length ≤ (frameStream xs).length := by
  induction xs with
  | nil => exact Nat.zero_le _
  | cons x rest ih =>
      have hfour := x.four_le_length_frameLayout
      have hstream : frameStream (x :: rest) = x.frameLayout ++ frameStream rest := rfl
      rw [hstream, List.length_append, List.length_cons]
      omega

end FrameReader

/-- The source of some bytes holds these bytes. -/
theorem Source.bytes_ofBytes (bytes : List UInt8) : (ofBytes bytes).bytes = bytes := by
  cases bytes <;> simp [ofBytes, push, portion?, Source.bytes, Event.bytes]

namespace FrameWriter

/-- **Streams of frames.**  Whatever records are written to whatever sink, the ones that
cannot be encoded leave no trace, the sink holds as much of the frames of the others as it
takes, and those that it takes whole are counted.  Reading back yields exactly these, and
then the end of the stream or, if the sink cut a frame, one truncation. -/
theorem stream_read_of_written (capacity? : Option Nat) (whenFull : TransferFault)
    (flushFails : Bool) (limits : Limits) (xs : List (Instance S)) :
    let start : FrameWriter := { sink := { capacity?, whenFull, flushFails }, limits }
    let framed := xs.filter (Instance.framable limits)
    let writer := start.writeAll xs
    (∀ (w : FrameWriter) (x : Instance S), x.framable w.limits = false →
      ∃ fault, w.write x = (.error fault, w)) ∧
    writer.sink.held = cutAt capacity? (frameStream framed) ∧
    writer.frames = wholeFrames capacity? framed ∧
    ∀ registry : Registry S, registry.config.codec.maxLength = limits.maxLength →
      (∀ x ∈ framed, registry.Covers x) →
      FrameReader.readAll registry { source := Source.ofBytes writer.sink.held } =
        ((framed.take writer.frames).map .ok ++
          (FrameReader.cutFault? (writer.sink.held.length -
            (frameStream (framed.take writer.frames)).length)).toList.map .error,
          { source := [], finished := true }) := by
  intro start framed writer
  have hwrote : start.Wrote framed writer :=
    Wrote.writeAll (.nil rfl rfl) xs
  have hheld : writer.sink.held = cutAt capacity? (frameStream framed) :=
    congrArg Sink.held hwrote.sink_eq
  refine ⟨fun w x hx => write_of_not_framable hx, hheld, hwrote.frames_eq, ?_⟩
  intro registry hmax hcovers
  have hframes : writer.frames = wholeFrames capacity? framed := hwrote.frames_eq
  have hframed : ∀ x ∈ framed, x.framable limits = true ∧ registry.Covers x :=
    fun x hx => ⟨(List.mem_filter.mp hx).2, hcovers x hx⟩
  obtain ⟨torn, hcut, hbeginning⟩ := exists_torn capacity? framed
  have htorn : FrameReader.next? registry (Source.ofBytes torn) =
      (match FrameReader.cutFault? torn.length with
        | none => .ok none
        | some fault => .error fault, []) := by
    rcases hbeginning with rfl | ⟨x, hx, n, hn, rfl⟩
    · rfl
    · rw [List.length_take_of_le (Nat.le_of_lt hn)]
      exact FrameReader.next?_torn hmax (hframed x hx).1 hn
  have hlimit : (framed.take writer.frames).length <
      (frameStream (framed.take writer.frames) ++ torn).length + 1 := by
    have hle := FrameReader.length_le_length_frameStream (framed.take writer.frames)
    rw [List.length_append]
    omega
  rw [hheld, hcut, ← hframes, List.length_append, Nat.add_sub_cancel_left]
  unfold FrameReader.readAll
  dsimp only
  rw [Source.bytes_ofBytes]
  exact FrameReader.readUpTo_frameStream hmax
    (fun x hx => hframed x (List.mem_of_mem_take hx)) htorn hlimit

/-- A parcel that holds nothing. -/
def emptyParcel : Instance parcel := ⟨(), .cons (.absent _) (.cons (.absent _) .nil)⟩

/-- The registry of parcels with a low limit. -/
def smallParcels : Registry parcel := { parcels with config := { codec := ⟨20, 1⟩ } }

/-- Two frames, of which the second is cut.  The parcel between them is too long for one. -/
def cutParcels : FrameWriter :=
  writeAll { sink := { capacity? := some 25 }, limits := ⟨20, 1⟩ }
    [emptyParcel, ⟨(), boxedParcel⟩, emptyParcel]

theorem cutParcels_stream_read_of_written :
    cutParcels.frames = 1 ∧
      FrameReader.readAll smallParcels { source := Source.ofBytes cutParcels.sink.held } =
        ([.ok emptyParcel, .error (.truncated .frame)], { source := [], finished := true }) := by
  obtain ⟨-, hheld, hframes, hread⟩ := stream_read_of_written (some 25) .closed false ⟨20, 1⟩
    [emptyParcel, ⟨(), boxedParcel⟩, emptyParcel]
  have hframed : [emptyParcel, ⟨(), boxedParcel⟩, emptyParcel].filter
      (Instance.framable ⟨20, 1⟩) = [emptyParcel, emptyParcel] := by
    rw [List.filter_cons_of_pos (by decide +kernel), List.filter_cons_of_neg (by decide +kernel),
      List.filter_cons_of_pos (by decide +kernel), List.filter_nil]
  rw [hframed] at hheld hframes hread
  have hone := hframes.trans (c := 1) (by decide +kernel)
  have hcovers : ∀ x ∈ [emptyParcel, emptyParcel], smallParcels.Covers x := by
    intro x hx
    have hempty : x = emptyParcel := by simpa using hx
    subst hempty
    exact ⟨rfl, by decide, trivial, trivial, trivial⟩
  have hcut : (cutAt (some 25) (frameStream [emptyParcel, emptyParcel])).length = 25 := by
    decide +kernel
  have hfirst : (frameStream ([emptyParcel, emptyParcel].take 1)).length = 17 := by decide +kernel
  unfold cutParcels
  refine ⟨hone, (hread smallParcels rfl hcovers).trans ?_⟩
  rw [hone, hheld, hcut, hfirst]
  rfl

end FrameWriter

end TagWire
