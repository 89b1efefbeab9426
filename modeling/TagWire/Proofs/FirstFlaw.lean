import TagWire.Proofs.Writing

/-!
# What a write leaves in its sink

A record is written as far as its first flaw, and its bytes as far as the sink has room
for them.  Whichever shows first decides how the write fails, and the sink then holds the
bytes of everything in front of it:

* `Piece.Fits` — when a piece has no flaw, part by part;
* `Piece.exists_flatMap_layout_eq` — what is handed over before a flaw is a beginning of the
  layout;
* `Write.run_emit_start` — what a new session makes of a run of bytes;
* `Record.sink_of_write` — success and each failure, with the bytes that they leave.
-/

namespace TagWire

/-- Whether a failure poisons the session that reports it. -/
def Failure.poisons : Failure → Bool
  | session _ => true
  | caller _ => false

namespace Piece

/-- A piece that can be written when no part may be longer than `limit`. -/
def Fits (limit : Nat) : Piece → Prop
  | plain _ => True
  | count _ n => n ≤ limit
  | text v => (Utf8.encode v).length ≤ limit
  | bytes v => v.length ≤ limit
  | decimal v => (-2 ^ 31 ≤ v.scale.toInt ∧ v.scale.toInt < 2 ^ 31) ∧
      (TwosComplement.encode v.unscaled).length ≤ limit
  | dateTime v => v.time.isLeapSecond = false
  | refusal _ => False

/-- A piece fits when it has no flaw. -/
theorem flaw?_eq_none_iff {limit : Nat} {piece : Piece} :
    piece.flaw? limit = none ↔ piece.Fits limit := by
  cases piece with
  | plain run => simp [flaw?, Fits]
  | count kind n => exact Flaw.overlong?_eq_none_iff
  | text v => exact Flaw.overlong?_eq_none_iff
  | bytes v => exact Flaw.overlong?_eq_none_iff
  | decimal v =>
      rw [Decimal.flaw?_eq_none_iff, Fits, Leaf.writable, Bool.and_eq_true, Bool.and_eq_true,
        decide_eq_true_eq, decide_eq_true_eq, decide_eq_true_eq]
  | dateTime v => simp [flaw?, Fits]
  | refusal what => simp [flaw?, Fits]

/-- What is handed over of something overlong is what stands in front of its length. -/
theorem written_of_overlong? {limit n : Nat} {written : List UInt8} {kind : Sized} {flaw : Flaw}
    (h : Flaw.overlong? limit written kind n = some flaw) : flaw.written = written := by
  unfold Flaw.overlong? at h
  split at h
  · exact (congrArg Flaw.written (Option.some.inj h)).symm
  · cases h

/-- What is handed over of a piece with a flaw is a beginning of its bytes. -/
theorem exists_layout_eq {limit : Nat} {piece : Piece} {flaw : Flaw}
    (h : piece.flaw? limit = some flaw) : ∃ rest, piece.layout = flaw.written ++ rest := by
  cases piece with
  | plain run => cases h
  | count kind n => exact ⟨_, by rw [written_of_overlong? h, List.nil_append]⟩
  | text v => exact ⟨_, by rw [written_of_overlong? h, List.nil_append]⟩
  | bytes v =>
      refine ⟨prefixBytes v.length ++ v, ?_⟩
      rw [written_of_overlong? h]
      simp [layout, Leaf.layout]
  | decimal v =>
      rw [flaw?] at h
      split at h
      · refine ⟨prefixBytes (TwosComplement.encode v.unscaled).length ++
          TwosComplement.encode v.unscaled, ?_⟩
        rw [written_of_overlong? h]
        simp [layout, Decimal.layout]
      · cases h
        exact ⟨_, (List.nil_append _).symm⟩
  | dateTime v =>
      rw [flaw?] at h
      split at h
      · cases h
        exact ⟨_, (List.nil_append _).symm⟩
      · cases h
  | refusal what =>
      cases h
      exact ⟨_, (List.nil_append _).symm⟩

/-- What is handed over of some pieces before their first flaw is a beginning of their bytes. -/
theorem exists_flatMap_layout_eq {limit : Nat} {pieces : List Piece} {flaw : Flaw}
    (h : firstFlaw? limit pieces = some flaw) :
    ∃ rest, pieces.flatMap layout = flaw.written ++ rest := by
  induction pieces generalizing flaw with
  | nil => cases h
  | cons piece others ih =>
      rw [firstFlaw?, Option.or_eq_some_iff] at h
      rw [List.flatMap_cons]
      rcases h with hflaw | ⟨-, hlater⟩
      · obtain ⟨rest, hrest⟩ := exists_layout_eq hflaw
        exact ⟨rest ++ others.flatMap layout, by rw [hrest, List.append_assoc]⟩
      · obtain ⟨later, hfirst, rfl⟩ := Option.map_eq_some_iff.mp hlater
        obtain ⟨rest, hrest⟩ := ih hfirst
        exact ⟨rest, by rw [hrest, ← List.append_assoc]; rfl⟩

end Piece

namespace Write

variable (capacity? : Option Nat) (whenFull : TransferFault) (flushFails : Bool) (limits : Limits)

/-- A new session hands a run over as far as its sink has room for it. -/
theorem run_emit_start (bytes : List UInt8) :
    emit bytes { sink := { capacity?, whenFull, flushFails }, limits } =
      if hasRoom capacity? bytes.length = true then
        .ok () { sink := { capacity?, whenFull, flushFails, held := bytes }, limits }
      else
        .error (.session (.transfer whenFull))
          { sink := { capacity?, whenFull, flushFails, held := cutAt capacity? bytes }, limits,
            poisoned := true } := by
  have hsink := Sink.write_of_empty capacity? whenFull flushFails bytes
  split
  · next hroom =>
      rw [if_pos hroom, cutAt_of_hasRoom hroom] at hsink
      exact emit_of_taken rfl hsink
  · next hfull =>
      rw [if_neg hfull] at hsink
      exact emit_of_refused rfl hsink

/-- A session that is not poisoned stays so if the caller fails. -/
theorem run_raise (failure : Failure) {w : Writer} (h : w.poisoned = false) :
    raise failure w = .error failure { w with poisoned := failure.poisons } := by
  cases failure with
  | session fault => rfl
  | caller fault =>
      obtain ⟨sink, limits, poisoned⟩ := w
      cases h
      rfl

/-- A new session fails behind a run, if its sink has room for that. -/
theorem run_emit_raise_start (bytes : List UInt8) (failure : Failure) :
    (do emit bytes; raise failure : Write Unit)
        { sink := { capacity?, whenFull, flushFails }, limits } =
      if hasRoom capacity? bytes.length = true then
        .error failure { sink := { capacity?, whenFull, flushFails, held := bytes }, limits,
                         poisoned := failure.poisons }
      else
        .error (.session (.transfer whenFull))
          { sink := { capacity?, whenFull, flushFails, held := cutAt capacity? bytes }, limits,
            poisoned := true } := by
  have hemit := run_emit_start capacity? whenFull flushFails limits bytes
  split
  · next hroom =>
      rw [if_pos hroom] at hemit
      exact (run_bind_ok hemit).trans (run_raise failure rfl)
  · next hfull =>
      rw [if_neg hfull] at hemit
      exact run_bind_error hemit

end Write

variable {ι : Type} {S : Schema ι}

/-- **What a write leaves.**  A record that is written to a new sink, however many bytes this
has room for, succeeds exactly if all its pieces fit and there is room for its layout; the sink
then holds the layout.  Otherwise its first flaw is reported, and the sink holds the bytes in
front of that, unless there is no room for them: then the sink holds the first bytes of the
layout. -/
theorem Record.sink_of_write {fs : List (Field ι)} (record : Record S fs)
    (capacity? : Option Nat) (whenFull : TransferFault) (flushFails : Bool) (limits : Limits) :
    let holding := fun (held : List UInt8) (poisoned : Bool) =>
      ({ sink := { capacity?, whenFull, flushFails, held }, limits, poisoned } : Writer)
    let run := record.write (holding [] false)
    let full := .error (.session (.transfer whenFull))
      (holding (cutAt capacity? record.layout) true)
    record.layout = record.pieces.flatMap Piece.layout ∧
    ((∃ w, run = .ok () w) ↔ (∀ piece ∈ record.pieces, piece.Fits limits.writable) ∧
      hasRoom capacity? record.layout.length = true) ∧
    run =
      match Piece.firstFlaw? limits.writable record.pieces with
      | none =>
          if hasRoom capacity? record.layout.length = true then
            .ok () (holding record.layout false)
          else full
      | some flaw =>
          if hasRoom capacity? flaw.written.length = true then
            .error flaw.failure (holding flaw.written flaw.failure.poisons)
          else full := by
  intro holding run full
  have hlayout := record.composed.layout_eq
  have hperforms : Write.Performs limits (record.pieces.forM Piece.write) _ _ :=
    Piece.performs_forM record.pieces
  rw [record.composed.write_eq, hlayout] at hperforms
  have hfits : (∀ piece ∈ record.pieces, piece.Fits limits.writable) ↔
      Piece.firstFlaw? limits.writable record.pieces = none := by
    simp only [Piece.firstFlaw?_eq_none_iff, Piece.flaw?_eq_none_iff]
  rw [hfits]
  refine ⟨hlayout.symm, ?_⟩
  cases hfirst : Piece.firstFlaw? limits.writable record.pieces with
  | none =>
      have hrun : run = if _ then .ok () (holding record.layout false) else full :=
        (hperforms.emits hfirst _ rfl rfl).trans
          (Write.run_emit_start capacity? whenFull flushFails limits record.layout)
      refine ⟨?_, hrun⟩
      rw [hrun]
      split
      · next hroom => exact ⟨fun _ => ⟨rfl, hroom⟩, fun _ => ⟨_, rfl⟩⟩
      · next hfull => exact ⟨nofun, fun h => absurd h.2 hfull⟩
  | some flaw =>
      have hrun := (hperforms.stops flaw hfirst _ rfl rfl).trans
        (Write.run_emit_raise_start capacity? whenFull flushFails limits flaw.written flaw.failure)
      -- What the sink is too small for is a beginning of the layout, so it is cut as the layout is.
      have hcut : hasRoom capacity? flaw.written.length ≠ true →
          cutAt capacity? flaw.written = cutAt capacity? record.layout := by
        intro hfull
        obtain ⟨rest, hrest⟩ := Piece.exists_flatMap_layout_eq hfirst
        rw [← hlayout, hrest, cutAt_append_of_not_hasRoom hfull]
      have hstopped : run =
          if hasRoom capacity? flaw.written.length = true then
            .error flaw.failure (holding flaw.written flaw.failure.poisons)
          else full := by
        refine hrun.trans (ite_congr rfl (fun _ => rfl) fun hfull => ?_)
        rw [hcut hfull]
      refine ⟨?_, hstopped⟩
      rw [hstopped]
      split
      · exact ⟨nofun, nofun⟩
      · exact ⟨nofun, nofun⟩

/-- A number and more bytes than a limit of two allows. -/
def longBytes : Record (fun t : Empty => t.elim) [.scalar .i8, .optional (.leaf .bytes)] :=
  .cons (.scalar .i8 5) (.cons (.present _ (.leaf .bytes [7, 8, 9])) .nil)

/-- The bytes are refused behind the number and the mark of their presence, if there is room
for both, and otherwise the sink is full. -/
theorem longBytes_sink_of_write :
    longBytes.write { sink := { capacity? := some 9 }, limits := ⟨2, 0⟩ } =
      .error (.session (.lengthLimitExceeded .bytes 3 2))
        { sink := { capacity? := some 9, held := [5, 1] }, limits := ⟨2, 0⟩, poisoned := true } ∧
    longBytes.write { sink := { capacity? := some 1 }, limits := ⟨2, 0⟩ } =
      .error (.session (.transfer .closed))
        { sink := { capacity? := some 1, held := [5] }, limits := ⟨2, 0⟩, poisoned := true } :=
  ⟨(Record.sink_of_write longBytes (some 9) .closed false ⟨2, 0⟩).2.2,
    (Record.sink_of_write longBytes (some 1) .closed false ⟨2, 0⟩).2.2⟩

end TagWire
