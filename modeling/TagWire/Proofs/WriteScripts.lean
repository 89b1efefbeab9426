import TagWire.Proofs.Histories
import TagWire.Proofs.Writing

/-!
# Whatever a caller does with a writer

A script says what calls a caller makes on a write session: one after the other, where a failure
is passed on or caught.  The code that writes the fields of a nested or dynamic value or an item
of a collection is a script as well:

* `Write.Call`, `Write.Script` — the calls, and what is put together from them;
* `Write.Script.run`, `Write.Script.recorded` — a script is run through the calls of the session,
  and run with a history;
* `Write.Plain.pieces` — the pieces that a call without code of the caller's hands over;
* `Write.Call.faultAhead?`, `Write.Call.run_of_poisoned` — a poisoned session answers every call
  with the fault that shows before its first byte, or else that it is poisoned;
* `Write.Call.refused` — in any case it raises a fault, and does nothing else;
* `Write.Script.writes_nothing_once_faulted` — from the first fault that a session raises, it is
  poisoned and its sink is left alone.

A limit may be checked and a value converted before a session looks whether it is poisoned.
So the fault that a poisoned session raises may be about the value, but none of the bytes is
handed over.
-/

namespace TagWire

variable {α β : Type}

namespace Write

/-! ## Scripts -/

/-- Calls inside of which no code of the caller's runs. -/
inductive Plain where
  | envelope (tag : TypeTag)
  | scalar (s : Scalar) (v : s.Carrier)
  | string (v : String)
  | leaf (l : Leaf) (v? : Option l.Carrier)
  /-- Any kind of value that is absent. -/
  | absent (k : Kind Unit)

mutual

/-- Calls on a write session.  Each item of a collection has a script of its own. -/
inductive Call where
  | plain (c : Plain)
  | nested (fields : Script)
  | dynamic (tag : TypeTag) (fields : Script)
  | seq (n : Nat) (items : Nat → Script)
  | map (n : Nat) (keys values : Nat → Script)

/-- What a caller does with a write session. -/
inductive Script where
  | done
  /-- Fails with a fault of the caller's own. -/
  | refuse (fault : Fault)
  /-- Asks the session whether it is poisoned. -/
  | look (next : Bool → Script)
  /-- Makes a call and passes its failure on. -/
  | call (c : Call) (next : Script)
  /-- Makes a call and goes on even if it fails. -/
  | attempt (c : Call) (next : Except Failure Unit → Script)

end

/-- The call of a session. -/
def Plain.run : Plain → Write Unit
  | envelope tag => Write.envelope tag
  | scalar s v => s.write v
  | string v => Write.string v
  | leaf l v? => l.write v?
  | absent k => k.writeAbsent

mutual

/-- Makes a call. -/
def Call.run : Call → Write Unit
  | .plain c => c.run
  | .nested fields => Write.nested (some fields.run)
  | .dynamic tag fields => Write.dynamic (some (tag, fields.run))
  | .seq n items => Write.seq (some ((List.range n).map fun i => (items i).run))
  | .map n keys values =>
      Write.map (some ((List.range n).map fun i => ((keys i).run, (values i).run)))

/-- Runs a script. -/
def Script.run : Script → Write Unit
  | .done => return
  | .refuse fault => Write.refuse fault
  | .look next => do (next (← get).poisoned).run
  | .call c next => do
      c.run
      next.run
  | .attempt c next => do (next (← TagWire.attempt c.run)).run

end

/-! ## Scripts with a history -/

mutual

/-- Makes a call, with the history of what is done inside of it. -/
def Call.recorded : Call → Recorded Writer Unit
  | .plain c => .silent c.run
  | .nested fields => do
      Recorded.silent (Write.bool true)
      fields.recorded
  | .dynamic tag fields => do
      Recorded.silent (Write.bool true)
      Recorded.silent (Write.i32 tag.value)
      fields.recorded
  | .seq n items => do
      Recorded.silent (Write.length .sequence n)
      (List.range n).forM fun i => (items i).recorded
  | .map n keys values => do
      Recorded.silent (Write.length .mapping n)
      (List.range n).forM fun i => do
        (keys i).recorded
        (values i).recorded

/-- Runs a script with its history. -/
def Script.recorded : Script → Recorded Writer Unit
  | .done => return
  | .refuse fault => .silent (Write.refuse fault)
  | .look next => do (next (← get).session.poisoned).recorded
  | .call c next => do
      c.recorded.call
      next.recorded
  | .attempt c next => do (next (← TagWire.attempt c.recorded.call)).recorded

end

/-- The items of a sequence behind their number. -/
theorem seq_range (n : Nat) (items : Nat → Write Unit) :
    seq (some ((List.range n).map items)) = (do
      length .sequence n
      (List.range n).forM items) := by
  simp [seq]

/-- The pairs of a mapping behind their number. -/
theorem map_range (n : Nat) (keys values : Nat → Write Unit) :
    map (some ((List.range n).map fun i => (keys i, values i))) = (do
      length .mapping n
      (List.range n).forM fun i => do
        keys i
        values i) := by
  simp [map]

mutual

/-- The history does not change what a call comes to. -/
theorem Call.recorded_forgets : ∀ c : Call, Forgets c.recorded c.run
  | .plain c => .silent c.run
  | .nested fields => (Forgets.silent _).bind fun _ => fields.recorded_forgets
  | .dynamic tag fields =>
      (Forgets.silent _).bind fun _ => (Forgets.silent _).bind fun _ => fields.recorded_forgets
  | .seq n items => by
      unfold Call.recorded Call.run
      rw [seq_range]
      exact (Forgets.silent _).bind fun _ => .forM (fun i => (items i).recorded_forgets) _
  | .map n keys values => by
      unfold Call.recorded Call.run
      rw [map_range]
      exact (Forgets.silent _).bind fun _ => .forM (fun i =>
        (keys i).recorded_forgets.bind fun _ => (values i).recorded_forgets) _

/-- The history does not change what a script comes to. -/
theorem Script.recorded_forgets : ∀ script : Script, Forgets script.recorded script.run
  | .done => .pure ()
  | .refuse fault => .silent (Write.refuse fault)
  | .look next => .inspect Writer.poisoned fun poisoned => (next poisoned).recorded_forgets
  | .call c next => c.recorded_forgets.call.bind fun _ => next.recorded_forgets
  | .attempt c next => c.recorded_forgets.call.attempt.bind fun e => (next e).recorded_forgets

end

end Write

/-! ## Poisoned sessions -/

/-- A write session is watched for its sink. -/
def Writer.watch : Watch Writer where
  poisoned := Writer.poisoned
  Part := Sink
  part := Writer.sink

namespace Write

/-- A fault poisons the session and does not touch the sink. -/
theorem fail_heeded (fault : Fault) : Writer.watch.HeededBy (fail fault : Write α) :=
  .fail (fun _ => rfl) fun _ => rfl

/-- A session that is poisoned already is left as it is. -/
theorem fail_of_poisoned (fault : Fault) {w : Writer} (hw : w.poisoned = true) :
    (fail fault : Write α) w = .error (.session fault) w := by
  obtain ⟨sink, limits, poisoned⟩ := w
  cases hw
  rfl

theorem emit_of_poisoned (bytes : List UInt8) {w : Writer} (hw : w.poisoned = true) :
    emit bytes w = .error (.session .poisoned) w := by
  unfold emit
  rw [hw]
  rfl

/-- No bytes are handed over in a poisoned session, and a sink that does not take them poisons
it. -/
theorem emit_heeded (bytes : List UInt8) : Writer.watch.HeededBy (emit bytes) := by
  intro w
  cases hw : w.poisoned with
  | true =>
      rw [emit_of_poisoned bytes hw]
      exact ⟨.refl w, Watch.poisons_error_iff.mpr fun _ _ => hw⟩
  | false =>
      have hlive : ∀ w', Writer.watch.Frozen w w' := fun w' h => absurd (hw.symm.trans h) nofun
      cases hsink : w.sink.write bytes with
      | mk outcome sink =>
          cases outcome with
          | ok _ =>
              rw [emit_of_taken hw hsink]
              exact ⟨hlive _, .ok () _⟩
          | error cause =>
              rw [emit_of_refused hw hsink]
              exact ⟨hlive _, Watch.poisons_error_iff.mpr fun _ _ => rfl⟩

theorem length_heeded (kind : Sized) (n : Nat) : Writer.watch.HeededBy (length kind n) := by
  refine .inspect fun w => ?_
  dsimp only
  split
  · exact fail_heeded _
  · exact emit_heeded _

theorem converted_heeded (e : Except Fault α) : Writer.watch.HeededBy (converted e) := by
  cases e with
  | ok a => exact .pure a
  | error fault => exact fail_heeded fault

end Write

/-- A piece is only handed over in a session that is not poisoned. -/
theorem Piece.heeded (piece : Piece) : Writer.watch.HeededBy piece.write := by
  have hsized : ∀ (kind : Sized) (bytes : List UInt8), Writer.watch.HeededBy
      (do Write.length kind bytes.length; Write.emit bytes) := fun kind bytes =>
    (Write.length_heeded kind _).bind fun _ => Write.emit_heeded _
  cases piece with
  | plain run => exact Write.emit_heeded run
  | count kind n => exact Write.length_heeded kind n
  | text v => exact hsized .text (Utf8.encode v)
  | bytes v => exact (Write.emit_heeded _).bind fun _ => hsized .bytes v
  | decimal v =>
      exact (Write.converted_heeded _).bind fun _ => (Write.emit_heeded _).bind fun _ =>
        (Write.emit_heeded _).bind fun _ => hsized .decimalMagnitude _
  | dateTime v =>
      exact (Write.converted_heeded _).bind fun _ => (Write.emit_heeded _).bind fun _ =>
        (Write.emit_heeded _).bind fun _ => Write.emit_heeded _
  | refusal what => exact .refuse _

/-- The fault of a flaw that shows before its first byte. -/
def Flaw.ahead? : Flaw → Option Fault
  | ⟨[], .session fault⟩ => some fault
  | _ => none

/-- Nothing shows ahead of what stands behind a byte. -/
theorem Flaw.ahead?_overlong? (limit : Nat) (byte : UInt8) (bytes : List UInt8) (kind : Sized)
    (n : Nat) : (overlong? limit (byte :: bytes) kind n).bind ahead? = none := by
  unfold overlong?
  split <;> rfl

/-- The fault that shows in a piece before its first byte: that it is too long, that its scale
is too wide or that it lies within a leap second.  The length of bytes and that of a decimal's
magnitude do not count, as they stand behind bytes of their own. -/
def Piece.faultAhead? (limit : Nat) (piece : Piece) : Option Fault :=
  (piece.flaw? limit).bind Flaw.ahead?

/-- Whether a piece is refused by the caller's own code. -/
def Piece.isRefusal : Piece → Bool
  | refusal _ => true
  | _ => false

section Poisoned

open Write

variable {w : Writer} (hw : w.poisoned = true)
include hw

/-- Of a length, the limit is looked at before the session. -/
theorem Write.length_of_poisoned (kind : Sized) (n : Nat) :
    length kind n w =
      .error (.session (((Piece.count kind n).faultAhead? w.limits.writable).getD .poisoned)) w := by
  rw [run_length, Piece.faultAhead?, Piece.flaw?, Flaw.overlong?]
  split
  · exact fail_of_poisoned _ hw
  · exact emit_of_poisoned _ hw

/-- A poisoned session answers a piece with the fault that shows before its first byte, or else
that it is poisoned, unless the caller refuses the piece. -/
theorem Piece.write_of_poisoned {piece : Piece} (hpiece : piece.isRefusal = false) :
    piece.write w =
      .error (.session ((piece.faultAhead? w.limits.writable).getD .poisoned)) w := by
  cases piece with
  | plain run => exact emit_of_poisoned run hw
  | count kind n => exact length_of_poisoned hw kind n
  | text v => exact run_bind_error (length_of_poisoned hw .text _)
  | bytes v =>
      rw [faultAhead?, flaw?, Flaw.ahead?_overlong?]
      exact run_bind_error (emit_of_poisoned [1] hw)
  | decimal v =>
      by_cases hscale : -2 ^ 31 ≤ v.scale.toInt ∧ v.scale.toInt < 2 ^ 31
      · rw [faultAhead?, flaw?, if_pos hscale, Flaw.ahead?_overlong?, write, decimal_of_fits hscale]
        exact run_bind_error (emit_of_poisoned [1] hw)
      · rw [faultAhead?, flaw?, if_neg hscale, write, decimal_of_wide hscale]
        exact fail_of_poisoned _ hw
  | dateTime v =>
      by_cases hleap : v.time.isLeapSecond = true
      · rw [faultAhead?, flaw?, if_pos hleap, write, dateTime_of_leapSecond hleap]
        exact fail_of_poisoned _ hw
      · rw [faultAhead?, flaw?, if_neg hleap, write, dateTime_of_regular hleap]
        exact run_bind_error (emit_of_poisoned [1] hw)
  | refusal what => cases hpiece

end Poisoned

namespace Write

/-- The pieces that a call hands over. -/
def Plain.pieces : Plain → List Piece
  | envelope tag => [.plain (BigEndian.encode 4 magicNumber.toNat), .plain (word32 tag.value)]
  | scalar s v => [.plain (s.layout v)]
  | string v => [.text v]
  | leaf l (some v) => l.pieces v
  | leaf l none => [.plain (Kind.leaf (ι := Unit) l).absence]
  | absent k => [.plain k.absence]

theorem Plain.write_pieces (c : Plain) : c.pieces.forM Piece.write = c.run := by
  cases c with
  | envelope tag =>
      have hpieces := (Piece.Compose.single (.plain (word32 tag.value))).plain_cons
        (BigEndian.encode 4 magicNumber.toNat)
      exact hpieces.write_eq
  | scalar s v =>
      have hvalue := Value.composed (S := fun t : Empty => t.elim) (.scalar s v)
      exact hvalue.write_eq
  | string v => exact (Piece.Compose.single (.text v)).write_eq
  | leaf l v? =>
      cases v? with
      | none => exact (Kind.leaf l).composed_absence.write_eq
      | some v => exact (l.composed v).write_eq
  | absent k => exact k.composed_absence.write_eq

/-- There is a first piece, and the caller does not refuse it. -/
theorem Plain.exists_pieces_eq_cons (c : Plain) :
    ∃ piece rest, c.pieces = piece :: rest ∧ piece.isRefusal = false := by
  cases c with
  | envelope tag => exact ⟨_, _, rfl, rfl⟩
  | scalar s v => exact ⟨_, _, rfl, rfl⟩
  | string v => exact ⟨_, _, rfl, rfl⟩
  | leaf l v? =>
      cases v? with
      | none => exact ⟨_, _, rfl, rfl⟩
      | some v => cases l <;> exact ⟨_, _, rfl, rfl⟩
  | absent k => exact ⟨_, _, rfl, rfl⟩

theorem Plain.heeded (c : Plain) : Writer.watch.HeededBy c.run := by
  rw [← c.write_pieces]
  exact .forM Piece.heeded _

mutual

/-- What is done inside of a call keeps histories settled. -/
theorem Call.recorded_settles : ∀ c : Call, Writer.watch.Settles c.recorded
  | .plain c => .silent c.heeded
  | .nested fields => (Watch.Settles.silent (emit_heeded _)).bind fun _ => fields.recorded_settles
  | .dynamic _ fields =>
      (Watch.Settles.silent (emit_heeded _)).bind fun _ =>
        (Watch.Settles.silent (emit_heeded _)).bind fun _ => fields.recorded_settles
  | .seq n items =>
      (Watch.Settles.silent (length_heeded .sequence n)).bind fun _ =>
        .forM (fun i => (items i).recorded_settles) _
  | .map n keys values =>
      (Watch.Settles.silent (length_heeded .mapping n)).bind fun _ =>
        .forM (fun i => (keys i).recorded_settles.bind fun _ => (values i).recorded_settles) _

/-- What a script does keeps histories settled. -/
theorem Script.recorded_settles : ∀ script : Script, Writer.watch.Settles script.recorded
  | .done => .pure ()
  | .refuse fault => .silent (.refuse fault)
  | .look next => .inspect Writer.poisoned fun poisoned => (next poisoned).recorded_settles
  | .call c next => c.recorded_settles.call.bind fun _ => next.recorded_settles
  | .attempt c next => c.recorded_settles.call.attempt.bind fun e => (next e).recorded_settles

end

/-- The piece that a call begins with. -/
def Call.head? : Call → Option Piece
  | .plain c => c.pieces.head?
  | .nested _ => some (.plain [1])
  | .dynamic _ _ => some (.plain [1])
  | .seq n _ => some (.count .sequence n)
  | .map n _ _ => some (.count .mapping n)

/-- Every call hands over a piece of its own before anything else is done. -/
theorem Call.exists_head?_eq_some (c : Call) :
    ∃ piece, c.head? = some piece ∧ piece.isRefusal = false ∧
      ∃ rest : Write Unit, c.run = (do piece.write; rest) := by
  cases c with
  | plain c =>
      obtain ⟨piece, rest, hpieces, hpiece⟩ := c.exists_pieces_eq_cons
      refine ⟨piece, congrArg List.head? hpieces, hpiece, rest.forM Piece.write, ?_⟩
      exact c.write_pieces.symm.trans (congrArg (fun pieces => pieces.forM Piece.write) hpieces)
  | nested fields => exact ⟨_, rfl, rfl, fields.run, rfl⟩
  | dynamic tag fields =>
      exact ⟨_, rfl, rfl, (do Write.i32 tag.value; fields.run), rfl⟩
  | seq n items =>
      exact ⟨_, rfl, rfl, (List.range n).forM (fun i => (items i).run), seq_range n _⟩
  | map n keys values =>
      exact ⟨_, rfl, rfl, _, map_range n _ _⟩

/-- The fault that shows in the argument of a call before its first byte. -/
def Call.faultAhead? (limit : Nat) (c : Call) : Option Fault :=
  c.head?.bind (Piece.faultAhead? limit)

/-- A poisoned session answers a call with the fault that shows before its first byte, or else
that it is poisoned, and stays as it is. -/
theorem Call.run_of_poisoned (c : Call) {w : Writer} (hw : w.poisoned = true) :
    c.run w = .error (.session ((c.faultAhead? w.limits.writable).getD .poisoned)) w := by
  obtain ⟨piece, hhead, hpiece, rest, hrun⟩ := c.exists_head?_eq_some
  rw [hrun, faultAhead?, hhead]
  exact run_bind_error (Piece.write_of_poisoned hw hpiece)

/-- A poisoned session raises a fault at every call and stays as it is. -/
theorem Call.refused (c : Call) {w : Writer} (hw : w.poisoned = true) :
    ∃ fault, c.run w = .error (.session fault) w :=
  ⟨_, c.run_of_poisoned hw⟩

/-- **A writer that has raised a fault never touches its sink again.**  Whatever a script does with
a session in any state, its run has a history in which the session is poisoned whenever a call has
returned a fault of the session, stays so at all later moments, and hands nothing more over to its
sink.  Any call on a poisoned session raises a fault and leaves the session as it is. -/
theorem Script.writes_nothing_once_faulted (script : Script) (w : Writer) :
    let history := script.recorded { session := w }
    forget history = script.run w ∧ Writer.watch.Settled (endOf history) ∧
      ∀ (c : Call) (w' : Writer), w'.poisoned = true →
        ∃ fault, c.run w' = .error (.session fault) w' :=
  ⟨script.recorded_forgets _, (script.recorded_settles _ (.start w)).1, fun c _ hw => c.refused hw⟩

/-- Writes a sequence of three numbers, and goes on whatever fails. -/
def threeNumbers : Script :=
  .call (.seq 3 fun i => .attempt (.plain (.scalar .i8 (Int8.ofNat i))) fun _ => .done) .done

/-- The sink has room for the first number alone.  The sequence is written all the same, but the
other numbers are not, nor is anything that follows. -/
theorem threeNumbers_write_nothing_once_faulted :
    let session : Writer := { sink := { capacity? := some 5 } }
    let dead : Writer :=
      { sink := { capacity? := some 5, held := [0, 0, 0, 3, 0] }, poisoned := true }
    threeNumbers.run session = .ok () dead ∧
      Writer.watch.Settled (endOf (threeNumbers.recorded { session })) ∧
      ∃ fault, (Call.plain (.string "more")).run dead = .error (.session fault) dead := by
  intro session dead
  have hrun : threeNumbers.run session = .ok () dead := rfl
  obtain ⟨-, hsettled, hrefused⟩ := threeNumbers.writes_nothing_once_faulted session
  exact ⟨hrun, hsettled, hrefused (.plain (.string "more")) dead rfl⟩

end Write

end TagWire
