import TagWire.Proofs.Histories
import TagWire.Proofs.Lockstep

/-!
# Whatever a caller does with a reader

A script says what calls a caller makes on a read session: one after the other, each with an
eye to the results of the earlier ones, where a failure is passed on or caught.  The code that
reads the fields of a nested or dynamic value or an item of a collection is a script as well:

* `Read.Call`, `Read.Script` — the calls, and what is put together from them;
* `Read.Script.run`, `Read.Script.recorded` — a script is run through the calls of the session,
  and run with a history;
* `Read.Call.refused` — a poisoned session answers every call with the fault that it is poisoned
  and does nothing else;
* `Read.Script.reads_nothing_once_faulted` — from the first fault that a session raises, it is
  poisoned and its source is left alone.

What the code of a caller keeps in mind of its own has no place here: on a given session it makes
certain calls, and there is a script that makes these.  A failure that is caught and passed on
later is a refusal of the caller's own by then.
-/

namespace TagWire

variable {ι α β : Type}

namespace Read

/-! ## Scripts -/

/-- Calls inside of which no code of the caller's runs. -/
inductive Plain : Type → Type where
  | envelope : Plain TypeTag
  | expectEnvelope (expected : TypeTag) : Plain Unit
  | scalar (s : Scalar) : Plain s.Carrier
  | string : Plain String
  | leaf (l : Leaf) : Plain (Option l.Carrier)

mutual

/-- Calls on a read session.  Each item of a collection has a script of its own. -/
inductive Call (ι : Type) : Type → Type 1 where
  | plain {α : Type} (c : Plain α) : Call ι α
  | nested {α : Type} (fields : Script ι α) : Call ι (Option α)
  | dynamic {α : Type} (fields : ι → Script ι α) : Call ι (Option α)
  | seq {α : Type} (items : Nat → Script ι α) : Call ι (Option (List α))
  | map {α β : Type} (keys : Nat → Script ι α) (values : Nat → Script ι β) :
      Call ι (Option (List (α × β)))

/-- What a caller does with a read session. -/
inductive Script (ι : Type) : Type → Type 1 where
  | done {α : Type} (a : α) : Script ι α
  /-- Fails with a fault of the caller's own. -/
  | refuse {α : Type} (fault : Fault) : Script ι α
  /-- Asks the session whether it is poisoned. -/
  | look {α : Type} (next : Bool → Script ι α) : Script ι α
  /-- Makes a call and passes its failure on. -/
  | call {α β : Type} (c : Call ι β) (next : β → Script ι α) : Script ι α
  /-- Makes a call and goes on even if it fails. -/
  | attempt {α β : Type} (c : Call ι β) (next : Except Failure β → Script ι α) : Script ι α

end

/-- What follows a count, unless that is the mark of absence. -/
def counted (kind : Sized) (items : Nat → Read ι α) : Read ι (Option α) := do
  match ← length? kind with
  | none => return none
  | some n => return some (← items n)

/-- The call of a session. -/
def Plain.run : Plain α → Read ι α
  | envelope => Read.envelope
  | expectEnvelope expected => Read.expectEnvelope expected
  | scalar s => s.read
  | string => Read.string
  | leaf l => l.read

mutual

/-- Makes a call. -/
def Call.run {α : Type} : Call ι α → Read ι α
  | .plain c => c.run
  | .nested fields => Read.nested fields.run
  | .dynamic fields => Read.dynamic fun t => (fields t).run
  | .seq items => counted .sequence (timesOf fun i => (items i).run)
  | .map keys values => counted .mapping (timesOf fun i => do
      let k ← (keys i).run
      return (k, ← (values i).run))

/-- Runs a script. -/
def Script.run {α : Type} : Script ι α → Read ι α
  | .done a => return a
  | .refuse fault => Read.refuse fault
  | .look next => do (next (← get).poisoned).run
  | .call c next => do (next (← c.run)).run
  | .attempt c next => do (next (← TagWire.attempt c.run)).run

end

/-- A sequence whose items have one script is read by the call for sequences. -/
theorem Call.run_seq_const (item : Script ι α) : (seq fun _ => item).run = Read.seq item.run :=
  congrArg (counted .sequence) (funext (timesOf_const item.run))

/-- A mapping whose keys have one script and whose values have one is read by the call for
mappings. -/
theorem Call.run_map_const (key : Script ι α) (value : Script ι β) :
    (map (fun _ => key) fun _ => value).run = Read.map key.run value.run :=
  congrArg (counted .mapping) (funext (timesOf_const _))

/-! ## Scripts with a history -/

/-- Enters a value, unless too many are open already. -/
def enter : Read ι Unit := fun r =>
  if r.limits.maxDepth ≤ r.depth then fail (.depthExceeded r.limits.maxDepth) r
  else .ok () { r with depth := r.depth + 1 }

/-- The session with one value less open. -/
def leave (r : Reader ι) : Reader ι := { r with depth := r.depth - 1 }

/-- The type of a dynamic value, found by its tag. -/
def dynamicType : Read ι ι := do Lockstep.lookUp ⟨← i32⟩

/-- A value is entered, its fields are read, and it is left. -/
theorem within_eq (fields : Read ι α) : within fields = (do enter; thereafter leave fields) := by
  funext r
  by_cases hfull : r.limits.maxDepth ≤ r.depth
  · have henter : enter r = fail (.depthExceeded r.limits.maxDepth) r := by
      unfold enter
      rw [if_pos hfull]
    rw [run_within_full hfull, run_bind_error henter]
  · have henter : enter r = .ok () { r with depth := r.depth + 1 } := by
      unfold enter
      rw [if_neg hfull]
    rw [run_bind_ok henter]
    unfold thereafter
    cases hrun : fields { r with depth := r.depth + 1 } with
    | ok a s => exact run_within_ok hfull hrun
    | error failure s => exact run_within_error hfull hrun

/-- A dynamic value is one of a type that is found. -/
theorem dynamic_eq (fields : ι → Read ι α) :
    dynamic fields = whenPresent (do within (fields (← dynamicType))) := by
  have hfound := fun value : Int32 =>
    Lockstep.bind_lookUp (fun t => within (fields t)) ⟨value⟩
  unfold dynamic dynamicType
  rw [bind_assoc]
  exact congrArg (fun rest => whenPresent (i32 >>= rest)) (funext hfound)

end Read

namespace Recorded

/-- What follows the byte that says whether it is present. -/
def whenPresent (rest : Recorded (Reader ι) α) : Recorded (Reader ι) (Option α) := do
  if ← silent Read.bool then return some (← rest) else return none

/-- Reads fields with one more value open, unless too many are open already. -/
def within (fields : Recorded (Reader ι) α) : Recorded (Reader ι) α := do
  silent Read.enter
  fields.thereafter Read.leave

/-- What follows a count, unless that is the mark of absence. -/
def counted (kind : Sized) (items : Nat → Recorded (Reader ι) α) :
    Recorded (Reader ι) (Option α) := do
  match ← silent (Read.length? kind) with
  | none => return none
  | some n => return some (← items n)

end Recorded

namespace Forgets

theorem whenPresent {p : Recorded (Reader ι) α} {q : Read ι α} (h : Forgets p q) :
    Forgets p.whenPresent (Read.whenPresent q) :=
  (silent Read.bool).bind fun
    | true => h.map some
    | false => .pure none

theorem within {p : Recorded (Reader ι) α} {q : Read ι α} (h : Forgets p q) :
    Forgets p.within (Read.within q) := by
  rw [Read.within_eq]
  exact (silent Read.enter).bind fun _ => h.thereafter Read.leave

theorem counted (kind : Sized) {p : Nat → Recorded (Reader ι) α} {q : Nat → Read ι α}
    (h : ∀ n, Forgets (p n) (q n)) : Forgets (.counted kind p) (Read.counted kind q) :=
  (silent (Read.length? kind)).bind fun
    | none => .pure none
    | some n => (h n).map some

end Forgets

namespace Read

mutual

/-- Makes a call, with the history of what is done inside of it. -/
def Call.recorded {α : Type} : Call ι α → Recorded (Reader ι) α
  | .plain c => .silent c.run
  | .nested fields => fields.recorded.within.whenPresent
  | .dynamic fields => .whenPresent do
      let t ← Recorded.silent dynamicType
      (fields t).recorded.within
  | .seq items => .counted .sequence (timesOf fun i => (items i).recorded)
  | .map keys values => .counted .mapping (timesOf fun i => do
      let k ← (keys i).recorded
      return (k, ← (values i).recorded))

/-- Runs a script with its history. -/
def Script.recorded {α : Type} : Script ι α → Recorded (Reader ι) α
  | .done a => return a
  | .refuse fault => .silent (Read.refuse fault)
  | .look next => do (next (← get).session.poisoned).recorded
  | .call c next => do (next (← c.recorded.call)).recorded
  | .attempt c next => do (next (← TagWire.attempt c.recorded.call)).recorded

end

mutual

/-- The history does not change what a call comes to. -/
theorem Call.recorded_forgets {α : Type} : ∀ c : Call ι α, Forgets c.recorded c.run
  | .plain c => .silent c.run
  | .nested fields => fields.recorded_forgets.within.whenPresent
  | .dynamic fields => by
      unfold Call.recorded Call.run
      rw [dynamic_eq]
      exact ((Forgets.silent dynamicType).bind fun t =>
        (fields t).recorded_forgets.within).whenPresent
  | .seq items => .counted .sequence (.timesOf fun i => (items i).recorded_forgets)
  | .map keys values => .counted .mapping (.timesOf fun i =>
      (keys i).recorded_forgets.bind fun k => (values i).recorded_forgets.map (k, ·))

/-- The history does not change what a script comes to. -/
theorem Script.recorded_forgets {α : Type} : ∀ script : Script ι α,
    Forgets script.recorded script.run
  | .done a => .pure a
  | .refuse fault => .silent (Read.refuse fault)
  | .look next => .inspect Reader.poisoned fun poisoned => (next poisoned).recorded_forgets
  | .call c next => c.recorded_forgets.call.bind fun b => (next b).recorded_forgets
  | .attempt c next => c.recorded_forgets.call.attempt.bind fun e => (next e).recorded_forgets

end

end Read

/-! ## Poisoned sessions -/

/-- A read session is watched for its source. -/
def Reader.watch : Watch (Reader ι) where
  poisoned := Reader.poisoned
  Part := Source
  part := Reader.source

namespace Read

/-- A fault poisons the session and does not touch the source. -/
theorem fail_heeded (fault : Fault) : Reader.watch.HeededBy (fail fault : Read ι α) :=
  .fail (fun _ => rfl) fun _ => rfl

/-- No bytes are taken from a poisoned session, and a source that falls short poisons it. -/
theorem take_heeded (part : Part) (n : Nat) :
    Reader.watch.HeededBy (take part n : Read ι (List UInt8)) := by
  intro r
  cases hr : r.poisoned with
  | true =>
      have hrun : take part n r = .error (.session .poisoned) r := by
        unfold take
        rw [hr]
        rfl
      rw [hrun]
      exact ⟨.refl r, Watch.poisons_error_iff.mpr fun _ _ => hr⟩
  | false =>
      have hlive : ∀ s, Reader.watch.Frozen r s := fun s h => absurd (hr.symm.trans h) nofun
      cases hdemand : r.source.demand n with
      | mk outcome source =>
          cases outcome with
          | ok bytes =>
              rw [run_take_ok hr part hdemand]
              exact ⟨hlive _, .ok bytes _⟩
          | error shortfall =>
              rw [run_take_error hr part hdemand]
              exact ⟨hlive _, Watch.poisons_error_iff.mpr fun _ _ => rfl⟩

/-- All steps leave the source of a poisoned session alone. -/
theorem Stepwise.heeded {p : Read ι α} (h : p.Stepwise) : Reader.watch.HeededBy p := by
  induction h with
  | take part n => exact take_heeded part n
  | length? kind =>
      refine .bind (.bind (.bind (take_heeded .i32 4) fun _ => .pure _) fun _ => .pure _) fun n =>
        .inspect fun r => ?_
      split
      · exact .pure none
      · split
        · exact fail_heeded _
        · dsimp only
          split
          · exact fail_heeded _
          · exact .pure _
  | lookUp tag =>
      refine .inspect fun r => ?_
      cases r.resolver? with
      | none => exact fail_heeded _
      | some resolve =>
          dsimp only
          cases resolve tag with
          | ok t => exact .pure t
          | error fault => exact fail_heeded fault
  | fail h => exact fail_heeded _
  | pure a => exact .pure a
  | bind _ _ hp hq => exact hp.bind hq

/-- A session that is full stays as it was but for its poison. -/
theorem enter_heeded : Reader.watch.HeededBy (enter : Read ι Unit) := by
  intro r
  unfold enter
  split
  · exact fail_heeded _ r
  · exact ⟨.of_eq rfl rfl, .ok () _⟩

/-- Calls that run no code of the caller's are made in steps. -/
theorem Plain.stepwise (c : Plain α) : (c.run : Read ι α).Stepwise := by
  cases c with
  | envelope => exact .envelope
  | expectEnvelope expected => exact .expectEnvelope expected
  | scalar s => exact s.stepwise
  | string => exact .string
  | leaf l => exact l.stepwise

/-- The type of a dynamic value is found in steps. -/
theorem dynamicType_stepwise : (dynamicType : Read ι ι).Stepwise :=
  Stepwise.i32.bind fun value => .lookUp ⟨value⟩

end Read

namespace Watch.Settles

theorem whenPresent {p : Recorded (Reader ι) α} (h : Reader.watch.Settles p) :
    Reader.watch.Settles p.whenPresent :=
  (silent Read.Stepwise.bool.heeded).bind fun
    | true => h.map some
    | false => .pure none

theorem within {p : Recorded (Reader ι) α} (h : Reader.watch.Settles p) :
    Reader.watch.Settles p.within :=
  (silent Read.enter_heeded).bind fun _ => h.thereafter (fun _ => rfl) fun _ => rfl

theorem counted (kind : Sized) {p : Nat → Recorded (Reader ι) α}
    (h : ∀ n, Reader.watch.Settles (p n)) : Reader.watch.Settles (.counted kind p) :=
  (silent (Read.Stepwise.length? kind).heeded).bind fun
    | none => .pure none
    | some n => (h n).map some

end Watch.Settles

namespace Read

mutual

/-- What is done inside of a call keeps histories settled. -/
theorem Call.recorded_settles {α : Type} : ∀ c : Call ι α, Reader.watch.Settles c.recorded
  | .plain c => .silent c.stepwise.heeded
  | .nested fields => fields.recorded_settles.within.whenPresent
  | .dynamic fields =>
      .whenPresent <| (Watch.Settles.silent dynamicType_stepwise.heeded).bind fun t =>
        (fields t).recorded_settles.within
  | .seq items => .counted .sequence (.timesOf fun i => (items i).recorded_settles)
  | .map keys values => .counted .mapping (.timesOf fun i =>
      (keys i).recorded_settles.bind fun k => (values i).recorded_settles.map (k, ·))

/-- What a script does keeps histories settled. -/
theorem Script.recorded_settles {α : Type} : ∀ script : Script ι α,
    Reader.watch.Settles script.recorded
  | .done a => .pure a
  | .refuse fault => .silent (.refuse fault)
  | .look next => .inspect Reader.poisoned fun poisoned => (next poisoned).recorded_settles
  | .call c next => c.recorded_settles.call.bind fun b => (next b).recorded_settles
  | .attempt c next => c.recorded_settles.call.attempt.bind fun e => (next e).recorded_settles

end

/-! ## Calls on poisoned sessions -/

/-- A program that does nothing on a poisoned session but to say that it is poisoned. -/
abbrev Refused (p : Read ι α) : Prop := Reader.watch.RefusedBy (· = .poisoned) p

theorem take_refused (part : Part) (n : Nat) : Refused (ι := ι) (take part n) := by
  intro r hr
  refine ⟨_, rfl, ?_⟩
  have hpoisoned : r.poisoned = true := hr
  unfold take
  rw [hpoisoned]
  rfl

theorem word_refused (part : Part) (width : Nat) : Refused (ι := ι) (word part width) :=
  (take_refused part width).bind _

theorem i32_refused : Refused (ι := ι) i32 := (word_refused .i32 4).bind _

theorem bool_refused : Refused (ι := ι) bool := (word_refused .bool 1).bind _

theorem length?_refused (kind : Sized) : Refused (ι := ι) (length? kind) := i32_refused.bind _

theorem whenPresent_refused (rest : Read ι α) : Refused (whenPresent rest) := bool_refused.bind _

theorem text_refused : Refused (ι := ι) text := (length?_refused .text).bind _

/-- Every call that runs no code of the caller's begins with taking bytes. -/
theorem Plain.refused (c : Plain α) : Refused (ι := ι) c.run := by
  cases c with
  | envelope => exact (word_refused .magicNumber 4).bind _
  | expectEnvelope expected => exact ((word_refused .magicNumber 4).bind _).bind _
  | string => exact text_refused.bind _
  | scalar s => cases s <;> exact (word_refused _ _).bind _
  | leaf l =>
      cases l with
      | text => exact text_refused
      | fixed => exact (whenPresent_refused _).bind _
      | enumName e => exact text_refused.bind _
      | enumOrdinal e => exact i32_refused.bind _
      | decimal => exact whenPresent_refused _
      | date => exact whenPresent_refused _
      | timestamp => exact whenPresent_refused _
      | dateTime => exact whenPresent_refused _
      | bytes => exact whenPresent_refused _

/-- A poisoned session says so at every call and stays as it is. -/
theorem Call.refused (c : Call ι α) {r : Reader ι} (hr : r.poisoned = true) :
    c.run r = .error (.session .poisoned) r := by
  have hrefused : Refused c.run := by
    cases c with
    | plain c => exact c.refused
    | nested fields => exact whenPresent_refused _
    | dynamic fields => exact whenPresent_refused _
    | seq items => exact (length?_refused .sequence).bind _
    | map keys values => exact (length?_refused .mapping).bind _
  obtain ⟨_, rfl, hrun⟩ := hrefused r hr
  exact hrun

/-- **A reader that has raised a fault is dead.**  Whatever a script does with a session in any
state, its run has a history in which the session is poisoned whenever a call has returned a fault
of the session, stays so at all later moments, and has no more bytes taken from its source.  Any
call on a poisoned session is answered with the fault that it is poisoned, and leaves it as it is. -/
theorem Script.reads_nothing_once_faulted (script : Script ι α) (r : Reader ι) :
    let history := script.recorded { session := r }
    forget history = script.run r ∧ Reader.watch.Settled (endOf history) ∧
      ∀ {β : Type} (c : Call ι β) (s : Reader ι), s.poisoned = true →
        c.run s = .error (.session .poisoned) s :=
  ⟨script.recorded_forgets _, (script.recorded_settles _ (.start r)).1, fun c _ hs => c.refused hs⟩

/-- Reads a nested value with a text and a number, and goes on whatever fails. -/
def heedless : Script Unit (Option Unit) :=
  .call (.nested (.attempt (.plain (.leaf .text)) fun _ =>
    .attempt (.plain (.scalar .i8)) fun _ => .done ())) .done

/-- The length of the text is negative.  The nested value is read all the same, but its number is
not, nor is anything that follows. -/
theorem heedless_reads_nothing_once_faulted :
    let session : Reader Unit := { source := Source.ofBytes [1, 0xFF, 0xFF, 0xFF, 0xFE, 7] }
    let dead : Reader Unit := { source := Source.ofBytes [7], poisoned := true }
    heedless.run session = .ok (some ()) dead ∧
      Reader.watch.Settled (endOf (heedless.recorded { session })) ∧
      (Call.plain (.scalar .i8)).run dead = .error (.session .poisoned) dead := by
  intro session dead
  have hrun : heedless.run session = .ok (some ()) dead := rfl
  obtain ⟨-, hsettled, hrefused⟩ := heedless.reads_nothing_once_faulted session
  exact ⟨hrun, hsettled, hrefused (.plain (.scalar .i8)) dead rfl⟩

end Read

end TagWire
