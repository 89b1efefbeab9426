import TagWire.Proofs.WriteScripts

/-!
# What poisons a writer, and what it answers then

The first write that fails is to poison its session, and a poisoned session is to answer nothing
but that it is poisoned.  Neither is so without exception:

* `Write.Call.poisoned_iff_faulted` — a call poisons its session exactly if the session raises a
  fault within it.  Where code of the caller's refuses the rest of a value, the call fails as well,
  but the session stays live behind what was written of the value;
* `Write.Call.answer_of_poisoned` — a poisoned session answers a call with the fault that its
  argument shows before the first byte, as a live session would, and only else that it is poisoned.

That nothing but a fault poisons a session is shown for its programs (`Watch.SparedBy`), and then
for scripts with a history (`Watch.Explains`), one way to put them together after the other.
-/

namespace TagWire

variable {σ α β γ : Type}

namespace Watch

variable (W : Watch σ)

/-- A program that leaves a live session live, unless it ends with a fault of the session. -/
def SparedBy (p : EStateM Failure σ α) : Prop :=
  ∀ s, W.poisoned s = false →
    W.poisoned (endOf (p s)) = false ∨ ∃ fault s', p s = .error (.session fault) s'

/-- A history that explains why the session is poisoned: it was so at the start, or a call has
returned a fault of the session. -/
def Explained (start : σ) (l : Logged σ) : Prop :=
  W.poisoned l.session = true → W.poisoned start = true ∨ ∃ moment ∈ l.log, moment.Faulted

/-- A program that keeps histories explained, unless it ends with a fault of the session.  That
one is in the history as soon as the call returns which the program is a part of. -/
def Explains (p : Recorded σ α) : Prop :=
  ∀ start l, W.Explained start l →
    W.Explained start (endOf (p l)) ∨ ∃ fault l', p l = .error (.session fault) l'

variable {W}

theorem SparedBy.bind {p : EStateM Failure σ α} {q : α → EStateM Failure σ β}
    (hp : W.SparedBy p) (hq : ∀ a, W.SparedBy (q a)) : W.SparedBy (p >>= q) := by
  intro s hs
  rcases hp s hs with hlive | ⟨fault, s', hrun⟩
  · cases hrun : p s with
    | ok a s' =>
        rw [hrun] at hlive
        rw [run_bind_ok hrun]
        exact hq a s' hlive
    | error failure s' =>
        rw [hrun] at hlive
        rw [run_bind_error hrun]
        exact .inl hlive
  · exact .inr ⟨fault, s', run_bind_error hrun⟩

/-- The present moment may be noted. -/
theorem Explained.note {start : σ} {l : Logged σ} (h : W.Explained start l)
    (moment : σ → Moment σ) : W.Explained start (l.note moment) := by
  intro hpoisoned
  rcases h hpoisoned with hstart | ⟨m, hm, hfaulted⟩
  · exact .inl hstart
  · exact .inr ⟨m, List.mem_append_left _ hm, hfaulted⟩

namespace Explains

variable {p : Recorded σ α}

theorem pure (a : α) : W.Explains (pure a) := fun _ _ h => .inl h

theorem silent {p : EStateM Failure σ α} (hp : W.SparedBy p) : W.Explains (.silent p) := by
  intro start l h
  cases hpoisoned : W.poisoned l.session with
  | true =>
      -- The history explains it already.
      rw [Recorded.endOf_silent]
      exact .inl fun _ => h hpoisoned
  | false =>
      rcases hp l.session hpoisoned with hlive | ⟨fault, s, hrun⟩
      · rw [Recorded.endOf_silent]
        exact .inl fun hdead => absurd (hlive.symm.trans hdead) nofun
      · unfold Recorded.silent
        rw [hrun]
        exact .inr ⟨fault, _, rfl⟩

theorem bind {q : α → Recorded σ β} (hp : W.Explains p) (hq : ∀ a, W.Explains (q a)) :
    W.Explains (p >>= q) := by
  intro start l h
  rcases hp start l h with hexplained | ⟨fault, l', hrun⟩
  · cases hrun : p l with
    | ok a l' =>
        rw [hrun] at hexplained
        rw [run_bind_ok hrun]
        exact hq a start l' hexplained
    | error failure l' =>
        rw [hrun] at hexplained
        rw [run_bind_error hrun]
        exact .inl hexplained
  · exact .inr ⟨fault, l', run_bind_error hrun⟩

/-- What is decided by a look at the session. -/
theorem inspect (view : σ → γ) {q : γ → Recorded σ β} (hq : ∀ c, W.Explains (q c)) :
    W.Explains (do q (view (← get).session)) :=
  fun start l h => hq (view l.session) start l h

/-- When a call has returned, the history explains everything. -/
theorem of_call (hp : W.Explains p) {start : σ} {l : Logged σ} (h : W.Explained start l) :
    W.Explained start (endOf (p.call l)) := by
  unfold Recorded.call
  rcases hp start _ (h.note .started) with hexplained | ⟨fault, l', hrun⟩
  · cases hrun : p (l.note .started) with
    | ok a l' =>
        rw [hrun] at hexplained
        exact hexplained.note _
    | error failure l' =>
        rw [hrun] at hexplained
        exact hexplained.note _
  · rw [hrun]
    refine fun _ => .inr ⟨.returned (some (.session fault)) l'.session, ?_, fault, _, rfl⟩
    exact List.mem_append_right _ (List.mem_singleton.mpr rfl)

theorem call (hp : W.Explains p) : W.Explains p.call := fun _ _ h => .inl (hp.of_call h)

theorem attempt (hp : W.Explains p) : W.Explains (attempt p.call) := by
  intro start l h
  rw [endOf_attempt]
  exact .inl (hp.of_call h)

theorem forM {p : γ → Recorded σ PUnit} (hp : ∀ c, W.Explains (p c)) (items : List γ) :
    W.Explains (items.forM p) := by
  induction items with
  | nil => exact .pure PUnit.unit
  | cons item items ih => exact (hp item).bind fun _ => ih

end Explains

end Watch

namespace Write

/-! ## What poisons a writer -/

/-- Bytes that the sink takes leave the session live, and others raise a fault. -/
theorem emit_spared (bytes : List UInt8) : Writer.watch.SparedBy (emit bytes) := by
  intro w hw
  cases hsink : w.sink.write bytes with
  | mk outcome sink =>
      cases outcome with
      | ok _ =>
          rw [emit_of_taken hw hsink]
          exact .inl hw
      | error cause =>
          rw [emit_of_refused hw hsink]
          exact .inr ⟨_, _, rfl⟩

/-- A failure of the caller's does not poison a session. -/
theorem raise_spared (failure : Failure) : Writer.watch.SparedBy (raise failure) := by
  intro w hw
  cases failure with
  | session fault => exact .inr ⟨fault, _, rfl⟩
  | caller fault => exact .inl hw

/-- Nor does a program that hands over bytes or stops at a flaw, without a fault. -/
theorem spared_of_performs {p : Write Unit} {bytes : List UInt8} {flaw? : Limits → Option Flaw}
    (h : ∀ limits, Performs limits p bytes (flaw? limits)) : Writer.watch.SparedBy p := by
  intro w hw
  cases hflaw : flaw? w.limits with
  | none =>
      rw [(h w.limits).emits hflaw w hw rfl]
      exact emit_spared bytes w hw
  | some flaw =>
      rw [(h w.limits).stops flaw hflaw w hw rfl]
      exact ((emit_spared _).bind fun _ => raise_spared _) w hw

theorem length_spared (kind : Sized) (n : Nat) : Writer.watch.SparedBy (length kind n) :=
  spared_of_performs fun _ => performs_length kind n

theorem Plain.spared (c : Plain) : Writer.watch.SparedBy c.run := by
  rw [← c.write_pieces]
  exact spared_of_performs fun _ => Piece.performs_forM c.pieces

mutual

/-- What is done inside of a call keeps histories explained. -/
theorem Call.recorded_explains : ∀ c : Call, Writer.watch.Explains c.recorded
  | .plain c => .silent c.spared
  | .nested fields => (Watch.Explains.silent (emit_spared _)).bind fun _ => fields.recorded_explains
  | .dynamic _ fields =>
      (Watch.Explains.silent (emit_spared _)).bind fun _ =>
        (Watch.Explains.silent (emit_spared _)).bind fun _ => fields.recorded_explains
  | .seq n items =>
      (Watch.Explains.silent (length_spared .sequence n)).bind fun _ =>
        .forM (fun i => (items i).recorded_explains) _
  | .map n keys values =>
      (Watch.Explains.silent (length_spared .mapping n)).bind fun _ =>
        .forM (fun i => (keys i).recorded_explains.bind fun _ => (values i).recorded_explains) _

/-- What a script does keeps histories explained. -/
theorem Script.recorded_explains : ∀ script : Script, Writer.watch.Explains script.recorded
  | .done => .pure ()
  | .refuse fault => .silent (raise_spared (.caller fault))
  | .look next => .inspect Writer.poisoned fun poisoned => (next poisoned).recorded_explains
  | .call c next => c.recorded_explains.call.bind fun _ => next.recorded_explains
  | .attempt c next => c.recorded_explains.attempt.bind fun e => (next e).recorded_explains

end

/-- **A call poisons its session exactly if the session raises a fault within it.**  Whatever is
done inside of a call, its run has a history, and the session is poisoned afterwards if and only if
it was so before or some call in this history has returned a fault of the session.  So it is
poisoned whenever the call itself fails with such a fault, and no later call touches it.  Where
the call fails with a fault of the caller's, the session was live before, and it still is unless it
has raised a fault that the caller did not pass on. -/
theorem Call.poisoned_iff_faulted (c : Call) (w : Writer) :
    let history := c.recorded.call { session := w }
    forget history = c.run w ∧
    ((endOf (c.run w)).poisoned = true ↔
      w.poisoned = true ∨ ∃ moment ∈ (endOf history).log, moment.Faulted) ∧
    (∀ fault w', c.run w = .error (.session fault) w' →
      w'.poisoned = true ∧ ∀ later : Call, ∃ fault', later.run w' = .error (.session fault') w') ∧
    ∀ fault w', c.run w = .error (.caller fault) w' → w.poisoned = false := by
  intro history
  have hforget : forget history = c.run w := c.recorded_forgets.call { session := w }
  have hsession : (endOf history).session = endOf (c.run w) := by
    rw [← hforget, endOf_forget]
  obtain ⟨hsettled, hpoisons⟩ := c.recorded_settles.call { session := w } (.start w)
  have hexplained : Writer.watch.Explained w (endOf history) := c.recorded_explains.of_call .inl
  refine ⟨hforget, ⟨fun h => hexplained (hsession ▸ h), ?_⟩, fun fault w' hrun => ?_, ?_⟩
  · rintro (hw | ⟨moment, hmoment, hfaulted⟩)
    · obtain ⟨fault, hrun⟩ := c.refused hw
      rw [hrun]
      exact hw
    · have hstill := hsettled.still moment hmoment (hsettled.faulted moment hmoment hfaulted)
      exact hsession ▸ hstill.1
  · have hdead : w'.poisoned = true := hpoisons fault w' (hforget.trans hrun)
    exact ⟨hdead, fun later => later.refused hdead⟩
  · intro fault w' hrun
    cases hw : w.poisoned with
    | false => rfl
    | true =>
        obtain ⟨_, hrefused⟩ := c.refused hw
        cases hrefused.symm.trans hrun

/-- A nested value that is refused after an attempt to write a text. -/
def unnamed : Call :=
  .nested (.attempt (.plain (.string "abc")) fun _ => .refuse (.missingValue "name"))

/-- The text is too long.  So the session is poisoned, although all that the call reports is the
refusal. -/
theorem unnamed_poisoned_iff_faulted :
    let session : Writer := { sink := {}, limits := { maxLength := 2 } }
    unnamed.run session = .error (.caller (.missingValue "name"))
        { session with sink := { held := [1] }, poisoned := true } ∧
      ∃ moment ∈ (endOf (unnamed.recorded.call { session })).log, moment.Faulted := by
  intro session
  obtain ⟨-, hfaulted, -⟩ := unnamed.poisoned_iff_faulted session
  exact ⟨rfl, (hfaulted.mp rfl).resolve_left nofun⟩

/-- A nested value that is refused behind its first number. -/
def halfWritten : Call :=
  .nested (.call (.plain (.scalar .i32 1)) (.refuse (.missingValue "value")))

/-- The write has failed, but the session is not poisoned.  The next byte is handed over behind
half a value. -/
theorem halfWritten_leaves_session_live :
    let session : Writer := { sink := { held := [1, 0, 0, 0, 1] } }
    halfWritten.run { sink := {} } = .error (.caller (.missingValue "value")) session ∧
      session.poisoned = false ∧
      (Call.plain (.scalar .i8 9)).run session =
        .ok () { sink := { held := [1, 0, 0, 0, 1, 9] } } :=
  ⟨rfl, rfl, rfl⟩

end Write

/-! ## What a poisoned writer answers -/

theorem Flaw.ahead?_eq_some_iff {flaw : Flaw} {fault : Fault} :
    flaw.ahead? = some fault ↔ flaw = { failure := .session fault } := by
  obtain ⟨written, failure⟩ := flaw
  cases written <;> cases failure <;> simp [Flaw.ahead?]

namespace Piece

variable {limit : Nat} {piece : Piece} {fault : Fault}

/-- A fault that shows before the first byte is a flaw of the piece. -/
theorem faultAhead?_eq_some_iff :
    piece.faultAhead? limit = some fault ↔
      piece.flaw? limit = some { failure := .session fault } := by
  simp only [faultAhead?, Option.bind_eq_some_iff, Flaw.ahead?_eq_some_iff, exists_eq_right]

/-- It is never that the session is poisoned. -/
theorem ne_poisoned_of_faultAhead? (h : piece.faultAhead? limit = some fault) :
    fault ≠ .poisoned := by
  have hflaw := faultAhead?_eq_some_iff.mp h
  rintro rfl
  unfold flaw? Flaw.overlong? at hflaw
  cases piece with
  | decimal v =>
      dsimp only at hflaw
      split at hflaw <;> simp at hflaw
  | _ => simp at hflaw

/-- A live session raises it and is poisoned by it. -/
theorem write_of_faultAhead? {w : Writer} (hw : w.poisoned = false)
    (h : piece.faultAhead? w.limits.writable = some fault) :
    piece.write w = .error (.session fault) { w with poisoned := true } := by
  have hperforms : Write.Performs w.limits piece.write piece.layout
      (piece.flaw? w.limits.writable) := piece.performs
  rw [hperforms.stops _ (faultAhead?_eq_some_iff.mp h) w hw rfl]
  exact run_bind_ok (Write.emit_nil hw)

end Piece

namespace Write

/-- **A poisoned session answers with the fault that shows first.**  A fault that shows in the
argument of a call before its first byte is raised as it would be by a live session of the same
limits.  Only where there is none, the answer is that the session is poisoned.  In any case the
session stays as it is. -/
theorem Call.answer_of_poisoned (c : Call) {w : Writer} (hw : w.poisoned = true) :
    let fault? := c.faultAhead? w.limits.writable
    c.run w = .error (.session (fault?.getD .poisoned)) w ∧
    (c.run w = .error (.session .poisoned) w ↔ fault? = none) ∧
    ∀ fault, fault? = some fault → ∀ live : Writer, live.poisoned = false →
      live.limits = w.limits →
        c.run live = .error (.session fault) { live with poisoned := true } := by
  intro fault?
  have hanswer : c.run w = .error (.session (fault?.getD .poisoned)) w := c.run_of_poisoned hw
  obtain ⟨piece, hhead, -, rest, hrun⟩ := c.exists_head?_eq_some
  have hpiece : fault? = piece.faultAhead? w.limits.writable :=
    congrArg (Option.bind · (Piece.faultAhead? w.limits.writable)) hhead
  refine ⟨hanswer, ?_, fun fault hfault live hlive hlimits => ?_⟩
  · rw [hanswer]
    cases hfault : fault? with
    | none => exact iff_of_true rfl rfl
    | some fault =>
        have hother := Piece.ne_poisoned_of_faultAhead? (hpiece.symm.trans hfault)
        simpa using hother
  · rw [hpiece, ← hlimits] at hfault
    rw [hrun]
    exact run_bind_error (Piece.write_of_faultAhead? hlive hfault)

/-- Bytes that are too long are not looked at, as their presence is written first, but the number
of the items of a sequence is. -/
theorem poisoned_answers_bytes_and_sequence :
    let dead : Writer := { sink := {}, limits := { maxLength := 2 }, poisoned := true }
    (Call.plain (.leaf .bytes (some [1, 2, 3]))).run dead = .error (.session .poisoned) dead ∧
      (Call.seq 3 fun _ => .done).run dead =
        .error (.session (.lengthLimitExceeded .sequence 3 2)) dead := by
  intro dead
  obtain ⟨-, hbytes, -⟩ :=
    (Call.plain (.leaf .bytes (some [1, 2, 3]))).answer_of_poisoned (w := dead) rfl
  obtain ⟨hsequence, -⟩ := (Call.seq 3 fun _ => .done).answer_of_poisoned (w := dead) rfl
  exact ⟨hbytes.mpr rfl, hsequence⟩

/-- The answer of a poisoned session may look like a fault of what it was given. -/
theorem poisoned_answers_otherwise :
    let dead : Writer := { sink := {}, limits := { maxLength := 2 }, poisoned := true }
    (Call.plain (.string "abc")).run dead =
        .error (.session (.lengthLimitExceeded .text 3 2)) dead ∧
      (Call.plain (.leaf .decimal (some ⟨1, 2147483648⟩))).run dead =
        .error (.session (.decimalOutOfRange (.wideScale 2147483648))) dead :=
  ⟨rfl, rfl⟩

end Write

end TagWire
