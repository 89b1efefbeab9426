import Mathlib.Data.List.Induction
import TagWire.Frame.Writer
import TagWire.Proofs.RoundTrip

/-!
# Streams of frames, as they are written

A frame writer may be given records that cannot be encoded, and its sink may
stop taking bytes at any place.  Neither disturbs what was written before:

* `Instance.framable` — which records get as far as the sink, and
  `FrameWriter.write_of_not_framable` — the others leave no trace;
* `FrameWriter.Wrote` — the invariant of a run: the sink holds as much of the
  frames as it takes, and those that it took whole are counted;
* `FrameWriter.Wrote.write`, `FrameWriter.Wrote.writeAll` — one write preserves
  it, so any sequence of writes does;
* `exists_torn` — what the sink holds beyond whole frames is a beginning of one.
-/

namespace TagWire

variable {ι : Type} {S : Schema ι}

namespace Instance

/-- The bytes of a record with its envelope. -/
def layout (x : Instance S) : List UInt8 := envelopeLayout x.tag ++ x.fields.layout

/-- A record's frame: the length of these bytes in front of them. -/
def frameLayout (x : Instance S) : List UInt8 :=
  BigEndian.encode 4 x.layout.length ++ x.layout

/-- Whether a record can be encoded and the limits allow its frame. -/
def framable (limits : Limits) (x : Instance S) : Bool :=
  x.fields.writable limits.writable && x.layout.length ≤ limits.writable

/-- A frame has the four bytes of its length at least. -/
theorem four_le_length_frameLayout (x : Instance S) : 4 ≤ x.frameLayout.length := by
  rw [frameLayout, List.length_append, BigEndian.length_encode]
  omega

/-- A record that can be written is encoded as its layout. -/
theorem encodeWith_of_writable {limits : Limits} {x : Instance S}
    (h : x.fields.writable limits.writable = true) : x.encodeWith limits = .ok x.layout := by
  have hrun : x.write { sink := {}, limits } =
      .ok () { sink := { held := x.layout }, limits } :=
    (x.fields.writes_enveloped x.tag).run_unbounded.mpr ⟨h, rfl⟩
  unfold encodeWith encodeTo
  rw [hrun]

/-- A record that cannot be written is not encoded. -/
theorem encodeWith_of_not_writable {limits : Limits} {x : Instance S}
    (h : ¬ x.fields.writable limits.writable = true) :
    ∃ fault, x.encodeWith limits = .error fault := by
  obtain ⟨failure, w, hfail⟩ :=
    (x.fields.writes_enveloped x.tag).fails h { sink := {}, limits } rfl rfl
  have hrun : x.write { sink := {}, limits } = .error failure w := hfail
  refine ⟨failure.fault, ?_⟩
  unfold encodeWith encodeTo
  rw [hrun]

end Instance

namespace FrameWriter

/-- What a framable record's frame consists of. -/
theorem frame_of_framable {limits : Limits} {x : Instance S} (h : x.framable limits = true) :
    frame limits x = .ok (BigEndian.encode 4 x.layout.length, x.layout) := by
  obtain ⟨hwritable, hlength⟩ := Bool.and_eq_true_iff.mp h
  unfold frame
  rw [Instance.encodeWith_of_writable hwritable]
  exact if_neg (Nat.not_lt.mpr (of_decide_eq_true hlength))

/-- Other records have no frame. -/
theorem frame_of_not_framable {limits : Limits} {x : Instance S}
    (h : x.framable limits = false) : ∃ fault, frame limits x = .error fault := by
  unfold frame
  by_cases hwritable : x.fields.writable limits.writable = true
  · have hlong : limits.writable < x.layout.length := by
      simpa [Instance.framable, hwritable] using h
    rw [Instance.encodeWith_of_writable hwritable]
    exact ⟨_, if_pos hlong⟩
  · obtain ⟨fault, hfault⟩ := Instance.encodeWith_of_not_writable hwritable
    rw [hfault]
    exact ⟨fault, rfl⟩

/-- What cannot be encoded leaves the writer as it is. -/
theorem write_of_not_framable {writer : FrameWriter} {x : Instance S}
    (h : x.framable writer.limits = false) : ∃ fault, writer.write x = (.error fault, writer) := by
  obtain ⟨fault, hfault⟩ := frame_of_not_framable h
  refine ⟨fault, ?_⟩
  unfold write
  rw [hfault]

/-- A framable record is written as far as the sink takes its frame, and counted if that is
all of it. -/
theorem write_of_framable {writer : FrameWriter} {x : Instance S}
    (h : x.framable writer.limits = true) :
    (writer.write x).2 =
      { writer with
        sink := (writer.sink.write x.frameLayout).2
        frames := writer.frames +
          if (writer.sink.fitting x.frameLayout).length = x.frameLayout.length then 1 else 0 } := by
  have hframe := frame_of_framable h
  have happend := writer.sink.write_append (BigEndian.encode 4 x.layout.length) x.layout
  cases hheader : writer.sink.write (BigEndian.encode 4 x.layout.length) with
  | mk outcome sink =>
      rw [hheader] at happend
      cases outcome with
      | error cause =>
          have hwhole : writer.sink.write x.frameLayout = (.error cause, sink) := happend
          simp only [write, hframe, hheader, hwhole,
            if_neg (Sink.not_fits_of_write_error hwhole), Nat.add_zero]
      | ok _ =>
          have hwhole : writer.sink.write x.frameLayout = sink.write x.layout := happend
          cases hbody : sink.write x.layout with
          | mk outcome after =>
              rw [hbody] at hwhole
              cases outcome with
              | error cause =>
                  simp only [write, hframe, hheader, hbody, hwhole,
                    if_neg (Sink.not_fits_of_write_error hwhole), Nat.add_zero]
              | ok _ =>
                  simp only [write, hframe, hheader, hbody, hwhole,
                    if_pos (Sink.fits_of_write_ok hwhole)]

end FrameWriter

/-! ## Streams and how much of them a sink takes -/

/-- The frames of some records, one after the other. -/
def frameStream (xs : List (Instance S)) : List UInt8 := xs.flatMap Instance.frameLayout

/-- How many frames of some records fit whole when they follow each other. -/
def wholeFrames (capacity? : Option Nat) (xs : List (Instance S)) : Nat :=
  (List.range xs.length).countP fun i =>
    hasRoom capacity? (frameStream (xs.take (i + 1))).length

/-- The frames of more records follow those of the ones before. -/
theorem frameStream_append (xs ys : List (Instance S)) :
    frameStream (xs ++ ys) = frameStream xs ++ frameStream ys := List.flatMap_append

/-- A stream is that of the first records and that of the others. -/
theorem frameStream_split (xs : List (Instance S)) (k : Nat) :
    frameStream xs = frameStream (xs.take k) ++ frameStream (xs.drop k) := by
  rw [← frameStream_append, List.take_append_drop]

/-- Up to and with the last record are all of them. -/
theorem take_length_succ (xs : List (Instance S)) (x : Instance S) :
    (xs ++ [x]).take (xs.length + 1) = xs ++ [x] :=
  List.take_of_length_le (Nat.le_of_eq List.length_append)

/-- One more frame is whole when there is room for all of them. -/
theorem wholeFrames_append_singleton (capacity? : Option Nat) (xs : List (Instance S))
    (x : Instance S) :
    wholeFrames capacity? (xs ++ [x]) = wholeFrames capacity? xs +
      if hasRoom capacity? (frameStream (xs ++ [x])).length = true then 1 else 0 := by
  have hrange : (List.range xs.length).countP (fun i =>
      hasRoom capacity? (frameStream ((xs ++ [x]).take (i + 1))).length) =
        wholeFrames capacity? xs := by
    apply List.countP_congr
    intro i hi
    rw [List.take_append_of_le_length (List.mem_range.mp hi)]
  unfold wholeFrames at hrange ⊢
  rw [List.length_append, List.length_singleton, List.range_succ, List.countP_append, hrange,
    List.countP_singleton, take_length_succ]

/-- With room for all frames, all of them are whole. -/
theorem wholeFrames_of_hasRoom {capacity? : Option Nat} {xs : List (Instance S)}
    (h : hasRoom capacity? (frameStream xs).length = true) :
    wholeFrames capacity? xs = xs.length := by
  have hall : ∀ i ∈ List.range xs.length,
      hasRoom capacity? (frameStream (xs.take (i + 1))).length = true := by
    intro i _
    apply hasRoom_mono ?_ h
    rw [frameStream_split xs (i + 1), List.length_append]
    exact Nat.le_add_right _ _
  unfold wholeFrames
  rw [List.countP_eq_length.mpr hall, List.length_range]

/-- The whole frames are the first ones: all of them together fit, and with the next one
they do not. -/
theorem wholeFrames_spec (capacity? : Option Nat) (xs : List (Instance S)) :
    wholeFrames capacity? xs ≤ xs.length ∧
    hasRoom capacity? (frameStream (xs.take (wholeFrames capacity? xs))).length = true ∧
    (wholeFrames capacity? xs < xs.length →
      hasRoom capacity? (frameStream (xs.take (wholeFrames capacity? xs + 1))).length = false) := by
  induction xs using List.reverseRecOn with
  | nil => cases capacity? <;> simp [wholeFrames, hasRoom, frameStream]
  | append_singleton xs x ih =>
      by_cases hall : hasRoom capacity? (frameStream (xs ++ [x])).length = true
      · rw [wholeFrames_of_hasRoom hall, List.take_length]
        exact ⟨Nat.le_refl _, hall, fun hlt => absurd hlt (Nat.lt_irrefl _)⟩
      · obtain ⟨hle, hfits, hnext⟩ := ih
        rw [wholeFrames_append_singleton, if_neg hall, Nat.add_zero,
          List.take_append_of_le_length hle]
        refine ⟨?_, hfits, fun _ => ?_⟩
        · rw [List.length_append]
          omega
        · by_cases hlt : wholeFrames capacity? xs < xs.length
          · rw [List.take_append_of_le_length hlt]
            exact hnext hlt
          · have heq : wholeFrames capacity? xs = xs.length :=
              Nat.le_antisymm hle (Nat.not_lt.mp hlt)
            rw [heq, take_length_succ]
            exact eq_false_of_ne_true hall

/-- What there is room for beyond the whole frames is a beginning of the next one. -/
theorem exists_torn (capacity? : Option Nat) (xs : List (Instance S)) :
    ∃ torn, cutAt capacity? (frameStream xs) =
        frameStream (xs.take (wholeFrames capacity? xs)) ++ torn ∧
      (torn = [] ∨ ∃ x ∈ xs, ∃ n < x.frameLayout.length, torn = x.frameLayout.take n) := by
  obtain ⟨hle, hfits, hnext⟩ := wholeFrames_spec capacity? xs
  have hsplit := frameStream_split xs (wholeFrames capacity? xs)
  generalize hk : wholeFrames capacity? xs = k at *
  cases hdrop : xs.drop k with
  | nil =>
      have hall : frameStream xs = frameStream (xs.take k) ++ [] := by
        rw [hdrop] at hsplit
        exact hsplit
      refine ⟨[], ?_, .inl rfl⟩
      rw [hall]
      cases capacity? with
      | none => rfl
      | some capacity =>
          have hroom : (frameStream (xs.take k)).length ≤ capacity := of_decide_eq_true hfits
          rw [List.append_nil]
          exact List.take_of_length_le hroom
  | cons x rest =>
      have hget : xs[k]? = some x := by rw [← List.head?_drop, hdrop, List.head?_cons]
      obtain ⟨hlt, -⟩ := List.getElem?_eq_some_iff.mp hget
      have hshort := hnext hlt
      have hx : frameStream [x] = x.frameLayout := List.flatMap_singleton ..
      rw [List.take_add_one, hget, Option.toList_some, frameStream_append, hx,
        List.length_append] at hshort
      cases capacity? with
      | none => exact Bool.noConfusion hshort
      | some capacity =>
          have hroom : (frameStream (xs.take k)).length ≤ capacity := of_decide_eq_true hfits
          have hfull := of_decide_eq_false hshort
          have hrest : frameStream (x :: rest) = x.frameLayout ++ frameStream rest :=
            List.flatMap_cons
          have hmem : x ∈ xs := List.mem_of_getElem? hget
          refine ⟨x.frameLayout.take (capacity - (frameStream (xs.take k)).length), ?_,
            .inr ⟨x, hmem, _, by omega, rfl⟩⟩
          rw [hsplit, hdrop, hrest]
          unfold cutAt
          dsimp only
          rw [List.take_append, List.take_of_length_le hroom,
            List.take_append_of_le_length (by omega)]

/-! ## The invariant of a run -/

namespace FrameWriter

/-- What a writer has done after these framable records, from a start with an empty sink. -/
structure Wrote (start : FrameWriter) (xs : List (Instance S)) (writer : FrameWriter) : Prop where
  sink_eq : writer.sink = { start.sink with held := cutAt start.sink.capacity? (frameStream xs) }
  limits_eq : writer.limits = start.limits
  frames_eq : writer.frames = wholeFrames start.sink.capacity? xs

/-- Before any write there is nothing. -/
theorem Wrote.nil {start : FrameWriter} (hempty : start.sink.held = [])
    (hframes : start.frames = 0) : Wrote start ([] : List (Instance S)) start := by
  refine ⟨?_, rfl, hframes⟩
  have hcut : cutAt start.sink.capacity? (frameStream ([] : List (Instance S))) = [] := by
    cases start.sink.capacity? <;> simp [cutAt, frameStream]
  rw [hcut, ← hempty]

/-- **One write.**  A framable record adds its frame. -/
theorem Wrote.write {start writer : FrameWriter} {xs : List (Instance S)} {x : Instance S}
    (h : Wrote start xs writer) (hx : x.framable start.limits = true) :
    Wrote start (xs ++ [x]) (writer.write x).2 := by
  have hnonempty : 0 < x.frameLayout.length :=
    Nat.lt_of_lt_of_le (by decide) x.four_le_length_frameLayout
  have hstream : frameStream (xs ++ [x]) = frameStream xs ++ x.frameLayout := by
    rw [frameStream_append]
    simp [frameStream]
  rw [write_of_framable (by rw [h.limits_eq]; exact hx), Sink.write_snd, h.sink_eq]
  refine ⟨?_, h.limits_eq, ?_⟩
  · dsimp only
    rw [Sink.cutAt_append, hstream]
  · dsimp only
    rw [wholeFrames_append_singleton, h.frames_eq, hstream]
    simp only [Sink.fits_iff_hasRoom start.sink (frameStream xs) hnonempty]

/-- Writes records one after the other, whatever comes of each. -/
def writeAll (writer : FrameWriter) (xs : List (Instance S)) : FrameWriter :=
  xs.foldl (fun writer x => (writer.write x).2) writer

/-- **A run of writes.**  The framable records add their frames, the others nothing. -/
theorem Wrote.writeAll {start writer : FrameWriter} {before : List (Instance S)}
    (h : Wrote start before writer) (xs : List (Instance S)) :
    Wrote start (before ++ xs.filter (Instance.framable start.limits)) (writer.writeAll xs) := by
  induction xs generalizing before writer with
  | nil =>
      rw [List.filter_nil, List.append_nil]
      exact h
  | cons x rest ih =>
      cases hx : x.framable start.limits with
      | true =>
          have hrest := ih (h.write hx)
          rw [List.append_assoc] at hrest
          rw [List.filter_cons_of_pos hx]
          exact hrest
      | false =>
          obtain ⟨fault, hwrite⟩ :=
            write_of_not_framable (h.limits_eq.symm ▸ hx)
          have hsame : (writer.write x).2 = writer := congrArg Prod.snd hwrite
          rw [List.filter_cons_of_neg (by simp [hx])]
          have hrest := ih (h := hsame.symm ▸ h)
          exact hrest

end FrameWriter

end TagWire
