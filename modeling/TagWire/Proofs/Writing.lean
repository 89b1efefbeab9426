import TagWire.Proofs.Pieces
import TagWire.Proofs.Sinks

/-!
# What writing a value does

On a session that is not poisoned, a value that can be written is handed to
the sink as one run of bytes, its layout.  A value that cannot be written is
written up to its first flaw, and then its program fails:

* `Write.Emits`, `Write.Stops`, `Write.Fails` — what a program may come to, and
  how that of a sequence of programs follows from its parts;
* `Piece.performs`, `Piece.performs_forM` — what the calls for one piece and for many do;
* `Value.writes`, `Record.writes` — a value is written when it can be, and else not.
-/

namespace TagWire

namespace Write

variable {limits : Limits} {p q : Write Unit} {a b : List UInt8}

/-- A program that hands over these bytes in one run and does nothing else. -/
def Emits (limits : Limits) (p : Write Unit) (bytes : List UInt8) : Prop :=
  ∀ w : Writer, w.poisoned = false → w.limits = limits → p w = emit bytes w

/-- A program that does not succeed, whatever the sink takes. -/
def Fails (limits : Limits) (p : Write Unit) : Prop :=
  ∀ w : Writer, w.poisoned = false → w.limits = limits → ∃ failure w', p w = .error failure w'

/-- Where the sink takes all bytes, the session goes on. -/
theorem emit_of_taken {bytes : List UInt8} {w : Writer} {sink : Sink} (h : w.poisoned = false)
    (hsink : w.sink.write bytes = (.ok (), sink)) : emit bytes w = .ok () { w with sink } := by
  unfold emit
  rw [h, hsink]
  rfl

/-- Where the sink does not, the session fails and is poisoned. -/
theorem emit_of_refused {bytes : List UInt8} {w : Writer} {cause : TransferFault} {sink : Sink}
    (h : w.poisoned = false) (hsink : w.sink.write bytes = (.error cause, sink)) :
    emit bytes w = .error (.session (.transfer cause)) { w with sink, poisoned := true } := by
  unfold emit
  rw [h, hsink]
  rfl

/-- Handing over two runs is handing over both in one. -/
theorem emit_append (a b : List UInt8) {w : Writer} (h : w.poisoned = false) :
    (do emit a; emit b) w = emit (a ++ b) w := by
  have happend := Sink.write_append w.sink a b
  cases hfirst : w.sink.write a with
  | mk outcome sink =>
      rw [hfirst] at happend
      cases outcome with
      | error cause =>
          rw [run_bind_error (emit_of_refused h hfirst), emit_of_refused h happend]
      | ok _ =>
          rw [run_bind_ok (emit_of_taken h hfirst)]
          cases hsecond : sink.write b with
          | mk outcome after =>
              cases outcome with
              | ok _ =>
                  rw [emit_of_taken h (happend.trans hsecond)]
                  exact emit_of_taken h hsecond
              | error cause =>
                  rw [emit_of_refused h (happend.trans hsecond)]
                  exact emit_of_refused h hsecond

/-- Handing over no bytes does nothing. -/
theorem emit_nil {w : Writer} (h : w.poisoned = false) : emit [] w = .ok () w := by
  obtain ⟨⟨capacity?, whenFull, flushFails, held⟩, limits, poisoned⟩ := w
  have hsink : Sink.write ⟨capacity?, whenFull, flushFails, held⟩ [] =
      (.ok (), ⟨capacity?, whenFull, flushFails, held⟩) := by
    unfold Sink.write Sink.fitting
    cases capacity? <;> simp
  exact emit_of_taken h hsink

/-- After bytes were handed over, the session goes on under its limits. -/
theorem emit_ok {bytes : List UInt8} {w w' : Writer} (h : w.poisoned = false)
    (hok : emit bytes w = .ok () w') : w'.poisoned = false ∧ w'.limits = w.limits := by
  cases hsink : w.sink.write bytes with
  | mk outcome sink =>
      cases outcome with
      | ok _ =>
          cases (emit_of_taken h hsink).symm.trans hok
          exact ⟨h, rfl⟩
      | error cause => cases (emit_of_refused h hsink).symm.trans hok

/-- Handing over bytes is one run of them. -/
theorem emits_emit (bytes : List UInt8) : Emits limits (emit bytes) bytes := fun _ _ _ => rfl

/-- Doing nothing is a run of no bytes. -/
theorem emits_pure : Emits limits (pure ()) [] := fun _ hw _ => (emit_nil hw).symm

/-- One program after another hands over the bytes of both. -/
theorem Emits.bind (hp : Emits limits p a) (hq : Emits limits q b) :
    Emits limits (do p; q) (a ++ b) := by
  intro w hw hlimits
  rw [← emit_append a b hw]
  cases hok : emit a w with
  | error failure w' =>
      rw [run_bind_error ((hp w hw hlimits).trans hok), run_bind_error hok]
  | ok _ w' =>
      obtain ⟨hw', hlimits'⟩ := emit_ok hw hok
      rw [run_bind_ok ((hp w hw hlimits).trans hok), run_bind_ok hok]
      exact hq w' hw' (hlimits'.trans hlimits)

/-- A program that fails ends a sequence. -/
theorem Fails.bind (hp : Fails limits p) : Fails limits (do p; q) := by
  intro w hw hlimits
  obtain ⟨failure, w', hfail⟩ := hp w hw hlimits
  exact ⟨failure, w', run_bind_error hfail⟩

/-- A program that fails behind one that hands over bytes makes the sequence fail. -/
theorem Emits.bind_fails (hp : Emits limits p a) (hq : Fails limits q) :
    Fails limits (do p; q) := by
  intro w hw hlimits
  cases hok : emit a w with
  | error failure w' => exact ⟨failure, w', run_bind_error ((hp w hw hlimits).trans hok)⟩
  | ok _ w' =>
      obtain ⟨hw', hlimits'⟩ := emit_ok hw hok
      obtain ⟨failure, w'', hfail⟩ := hq w' hw' (hlimits'.trans hlimits)
      exact ⟨failure, w'', (run_bind_ok ((hp w hw hlimits).trans hok)).trans hfail⟩

/-- A program that hands over these bytes on a condition, and fails without it. -/
structure Writes (limits : Limits) (p : Write Unit) (c : Prop) (bytes : List UInt8) : Prop where
  emits : c → Emits limits p bytes
  fails : ¬ c → Fails limits p

namespace Writes

variable {c d : Prop}

/-- What is written in any case. -/
theorem of_emits (h : Emits limits p a) : Writes limits p True a :=
  ⟨fun _ => h, fun hnot => absurd trivial hnot⟩

/-- The condition and the bytes may be put differently. -/
theorem congr (h : Writes limits p c a) (hcd : c ↔ d) (hab : a = b) : Writes limits p d b := by
  subst hab
  exact ⟨fun hd => h.emits (hcd.mpr hd), fun hd => h.fails (fun hc => hd (hcd.mp hc))⟩

/-- One program after another writes what both write, on both conditions. -/
theorem bind (hp : Writes limits p c a) (hq : Writes limits q d b) :
    Writes limits (do p; q) (c ∧ d) (a ++ b) := by
  refine ⟨fun h => (hp.emits h.1).bind (hq.emits h.2), fun h => ?_⟩
  by_cases hc : c
  · exact (hp.emits hc).bind_fails (hq.fails fun hd => h ⟨hc, hd⟩)
  · exact (hp.fails hc).bind

/-- On a new session with a sink that takes everything, a program succeeds on its
condition, and the sink holds what was written. -/
theorem run_unbounded (h : Writes limits p c a) {w : Writer} :
    p { sink := {}, limits } = .ok () w ↔ c ∧ w = { sink := { held := a }, limits } := by
  have htaken : emit a { sink := {}, limits } = .ok () { sink := { held := a }, limits } :=
    emit_of_taken rfl (by simp [Sink.write, Sink.fitting])
  by_cases hc : c
  · rw [h.emits hc _ rfl rfl, htaken]
    simp [hc, eq_comm]
  · obtain ⟨failure, w', hfail⟩ := h.fails hc { sink := {}, limits } rfl rfl
    rw [hfail]
    simp [hc]

end Writes

/-! ## Flaws -/

/-- Raises a failure, which poisons a session if it is one of the session's own. -/
def raise : Failure → Write Unit
  | .session fault => fail fault
  | .caller fault => refuse fault

/-- Raising a failure is failing. -/
theorem fails_raise (failure : Failure) : Fails limits (raise failure) := by
  intro w _ _
  cases failure <;> exact ⟨_, _, rfl⟩

/-- A program that hands over the bytes in front of a flaw and then fails with it. -/
def Stops (limits : Limits) (p : Write Unit) (flaw : Flaw) : Prop :=
  ∀ w : Writer, w.poisoned = false → w.limits = limits →
    p w = (do emit flaw.written; raise flaw.failure) w

/-- A failure with nothing in front of it. -/
theorem stops_raise (failure : Failure) : Stops limits (raise failure) { failure } :=
  fun _ hw _ => (run_bind_ok (q := fun _ => raise failure) (emit_nil hw)).symm

namespace Stops

variable {flaw : Flaw}

/-- A program that stops fails. -/
theorem fails (h : Stops limits p flaw) : Fails limits p := by
  intro w hw hlimits
  rw [h w hw hlimits]
  exact (emits_emit flaw.written).bind_fails (fails_raise flaw.failure) w hw hlimits

/-- A program that stops ends a sequence. -/
theorem bind (h : Stops limits p flaw) : Stops limits (do p; q) flaw := by
  intro w hw hlimits
  obtain ⟨failure, w', hfail⟩ := h.fails w hw hlimits
  rw [← h w hw hlimits, hfail]
  exact run_bind_error hfail

end Stops

/-- What is handed over in front of a program that stops is so in front of its flaw. -/
theorem Emits.bind_stops {flaw : Flaw} (hp : Emits limits p a) (hq : Stops limits q flaw) :
    Stops limits (do p; q) (flaw.behind a) := by
  intro w hw hlimits
  have hboth : (do emit (a ++ flaw.written); raise flaw.failure) w =
      (do emit a; emit flaw.written; raise flaw.failure) w := by
    have happend := emit_append a flaw.written hw
    rw [← bind_assoc]
    cases hrun : emit (a ++ flaw.written) w with
    | ok _ w' => rw [run_bind_ok hrun, run_bind_ok (happend.trans hrun)]
    | error failure w' => rw [run_bind_error hrun, run_bind_error (happend.trans hrun)]
  refine Eq.trans ?_ hboth.symm
  cases hok : emit a w with
  | error failure w' => rw [run_bind_error ((hp w hw hlimits).trans hok), run_bind_error hok]
  | ok _ w' =>
      obtain ⟨hw', hlimits'⟩ := emit_ok hw hok
      rw [run_bind_ok ((hp w hw hlimits).trans hok), run_bind_ok hok]
      exact hq w' hw' (hlimits'.trans hlimits)

/-- A program that hands over these bytes, or stops at a flaw if there is one. -/
structure Performs (limits : Limits) (p : Write Unit) (bytes : List UInt8) (flaw? : Option Flaw) :
    Prop where
  emits : flaw? = none → Emits limits p bytes
  stops : ∀ flaw, flaw? = some flaw → Stops limits p flaw

namespace Performs

variable {flaw? : Option Flaw}

/-- What is written in any case. -/
theorem of_emits (h : Emits limits p a) : Performs limits p a none where
  emits _ := h
  stops _ hflaw := by cases hflaw

/-- What is not written in any case. -/
theorem of_stops {flaw : Flaw} (h : Stops limits p flaw) (bytes : List UInt8) :
    Performs limits p bytes (some flaw) where
  emits hnone := by cases hnone
  stops _ hflaw := Option.some.inj hflaw ▸ h

/-- The bytes and the flaw may be put differently. -/
theorem congr {other? : Option Flaw} (h : Performs limits p a flaw?) (hab : a = b)
    (hflaw : flaw? = other?) : Performs limits p b other? := by
  subst hab hflaw
  exact h

/-- One program after another stops at the flaw of the first, and else at that of the second. -/
theorem bind {other? : Option Flaw} (hp : Performs limits p a flaw?)
    (hq : Performs limits q b other?) :
    Performs limits (do p; q) (a ++ b) (flaw?.or (other?.map (.behind a))) := by
  cases flaw? with
  | some flaw => exact .of_stops (hp.stops flaw rfl).bind _
  | none =>
      cases other? with
      | some flaw => exact .of_stops ((hp.emits rfl).bind_stops (hq.stops flaw rfl)) _
      | none => exact .of_emits ((hp.emits rfl).bind (hq.emits rfl))

/-- Bytes in front of a program. -/
theorem emit_then (bytes : List UInt8) (h : Performs limits p a flaw?) :
    Performs limits (do emit bytes; p) (bytes ++ a) (flaw?.map (.behind bytes)) :=
  (of_emits (emits_emit bytes)).bind h

end Performs

/-- The limits are looked at first. -/
theorem run_length (kind : Sized) (n : Nat) (w : Writer) :
    length kind n w =
      if w.limits.writable < n then fail (.lengthLimitExceeded kind n w.limits.writable) w
      else i32 (Int32.ofNat n) w := by
  unfold length
  rw [run_get_bind]
  split <;> rfl

/-- A length or a count is written when the limits allow it. -/
theorem performs_length (kind : Sized) (n : Nat) :
    Performs limits (length kind n) (prefixBytes n) (Flaw.overlong? limits.writable [] kind n) := by
  unfold Flaw.overlong?
  split
  · next hlong =>
      refine .of_stops (fun w hw hlimits => ?_) _
      rw [run_length, hlimits, if_pos hlong]
      exact stops_raise (.session (.lengthLimitExceeded kind n limits.writable)) w hw hlimits
  · next hfits =>
      refine .of_emits fun w hw hlimits => ?_
      rw [run_length, hlimits, if_neg hfits]
      rfl

/-- Bytes behind their number are written when the limits allow the number. -/
theorem performs_sized (kind : Sized) (bytes : List UInt8) :
    Performs limits (do length kind bytes.length; emit bytes) (prefixBytes bytes.length ++ bytes)
      (Flaw.overlong? limits.writable [] kind bytes.length) :=
  ((performs_length kind bytes.length).bind (.of_emits (emits_emit bytes))).congr rfl
    Option.or_none

end Write

/-! ## Pieces -/

open Write

variable {limits : Limits}

/-- A length in front of which some bytes are handed over. -/
theorem Flaw.map_overlong? (limit : Nat) (a b : List UInt8) (kind : Sized) (n : Nat) :
    (overlong? limit b kind n).map (behind a) = overlong? limit (a ++ b) kind n := by
  unfold overlong?
  split <;> rfl

/-- A decimal with a scale of 32 bits is written part by part. -/
theorem Write.decimal_of_fits {d : Decimal}
    (h : -2 ^ 31 ≤ d.scale.toInt ∧ d.scale.toInt < 2 ^ 31) :
    Write.decimal (some d) = (do
      emit [1]
      emit (word32 d.scale.toInt32)
      length .decimalMagnitude (TwosComplement.encode d.unscaled).length
      emit (TwosComplement.encode d.unscaled)) := by
  have hparts : d.toParts = .ok (d.scale.toInt32, TwosComplement.encode d.unscaled) :=
    if_pos (Decimal.toInt64_toInt32_eq_iff.mpr h)
  simp only [Write.decimal, hparts]
  rfl

/-- A decimal with any other scale is refused. -/
theorem Write.decimal_of_wide {d : Decimal}
    (h : ¬ (-2 ^ 31 ≤ d.scale.toInt ∧ d.scale.toInt < 2 ^ 31)) :
    Write.decimal (some d) = fail (.decimalOutOfRange (.wideScale d.scale)) := by
  have hparts : d.toParts = .error (.wideScale d.scale) :=
    if_neg fun hscale => h (Decimal.toInt64_toInt32_eq_iff.mp hscale)
  simp only [Write.decimal, hparts]
  rfl

/-- A decimal is written when its scale and its bytes have a place. -/
theorem Decimal.performs (d : Decimal) :
    Performs limits (Write.decimal (some d)) d.layout
      ((Piece.decimal d).flaw? limits.writable) := by
  rw [Piece.flaw?]
  split
  · next hscale =>
      rw [decimal_of_fits hscale]
      refine (((performs_sized _ _).emit_then _).emit_then _).congr ?_ ?_
      · simp [layout]
      · rw [Flaw.map_overlong?, Flaw.map_overlong?]
        simp
  · next hscale =>
      rw [decimal_of_wide hscale]
      exact .of_stops (stops_raise (.session _)) _

/-- A date-time within a leap second is refused, as it has no place in the day. -/
theorem Write.dateTime_of_leapSecond {t : DateTime} (h : t.time.isLeapSecond = true) :
    Write.dateTime (some t) = fail (.timestampOutOfRange (.leapSecond t)) := by
  have hparts : t.toDayAndNano = .error (.timestampOutOfRange (.leapSecond t)) := by
    unfold DateTime.toDayAndNano
    rw [h]
    rfl
  simp only [Write.dateTime, hparts]
  rfl

/-- Any other date-time is written part by part. -/
theorem Write.dateTime_of_regular {t : DateTime} (h : ¬ t.time.isLeapSecond = true) :
    Write.dateTime (some t) = (do
      emit [1]
      emit (word64 t.date.day64)
      emit (word64 t.time.nanoOfDay)) := by
  have hparts : t.toDayAndNano = .ok (t.date.day64, t.time.nanoOfDay) := by
    unfold DateTime.toDayAndNano
    rw [if_neg h]
    rfl
  simp only [Write.dateTime, hparts]
  rfl

/-- A date-time is written unless it lies within a leap second. -/
theorem DateTime.performs (t : DateTime) :
    Performs limits (Write.dateTime (some t)) (Leaf.dateTime.layout t)
      ((Piece.dateTime t).flaw? limits.writable) := by
  rw [Piece.flaw?]
  split
  · next hleap =>
      rw [dateTime_of_leapSecond hleap]
      exact .of_stops (stops_raise (.session _)) _
  · next hleap =>
      rw [dateTime_of_regular hleap]
      refine (((Performs.of_emits (emits_emit _)).emit_then _).emit_then _).congr ?_ rfl
      simp [Leaf.layout]

namespace Piece

/-- **One piece.**  A piece is written as its layout, or up to its flaw. -/
theorem performs (piece : Piece) :
    Performs limits piece.write piece.layout (piece.flaw? limits.writable) := by
  cases piece with
  | plain run => exact .of_emits (emits_emit run)
  | count kind n => exact performs_length kind n
  | text v => exact performs_sized .text (Utf8.encode v)
  | bytes v =>
      refine ((performs_sized .bytes v).emit_then [1]).congr ?_ (Flaw.map_overlong? ..)
      simp [layout, Leaf.layout]
  | decimal v => exact v.performs
  | dateTime v => exact v.performs
  | refusal what => exact .of_stops (stops_raise (.caller (.missingValue what))) _

/-- **Piece by piece.**  Pieces are written as their layouts, or up to their first flaw. -/
theorem performs_forM (pieces : List Piece) :
    Performs limits (pieces.forM write) (pieces.flatMap layout)
      (firstFlaw? limits.writable pieces) := by
  induction pieces with
  | nil => exact .of_emits emits_pure
  | cons piece rest ih => exact piece.performs.bind ih

/-- What is made of pieces is written when they are all without a flaw. -/
theorem Compose.writes {pieces : List Piece} {p : Write Unit} {bytes : List UInt8} {c : Nat → Prop}
    (h : Compose pieces p bytes c) : Writes limits p (c limits.writable) bytes := by
  rw [← h.write_eq, ← h.layout_eq]
  constructor
  · intro hc
    exact (performs_forM pieces).emits (firstFlaw?_eq_none_iff.mpr ((h.flawless_iff _).mpr hc))
  · intro hc
    cases hfirst : firstFlaw? limits.writable pieces with
    | none => exact absurd ((h.flawless_iff _).mp (firstFlaw?_eq_none_iff.mp hfirst)) hc
    | some flaw => exact ((performs_forM pieces).stops flaw hfirst).fails

end Piece

/-! ## Values and records -/

variable {ι : Type} {S : Schema ι}

/-- **Writing a value.**  A value is written as its layout when it can be written, and its
program fails when it cannot. -/
theorem Value.writes {f : Field ι} (v : Value S f) :
    Writes limits v.write (v.writable limits.writable = true) v.layout :=
  v.composed.writes

/-- **Writing a record.**  The fields of a record are written as their layouts when all of
them can be written, and otherwise the record's program fails. -/
theorem Record.writes {fs : List (Field ι)} (record : Record S fs) :
    Writes limits record.write (record.writable limits.writable = true) record.layout :=
  record.composed.writes

end TagWire
