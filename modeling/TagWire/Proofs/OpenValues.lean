import TagWire.Proofs.Recursion
import TagWire.Proofs.RoundTrip

/-!
# How many values are open

A session counts the nested and dynamic values that are open.  Here the scenes of a run are
watched from outside: calls are made and return, values are opened and closed.  Each scene says
how many values are being read around it, as the code of the callers is nested, and what the
session is like at that time:

* `Read.Step.traced`, `Read.Routine.traced`, `Read.Code.traced` — runs with their scenes;
* `Read.Scene.Accounted` — the session has counted right, and refuses to open a value just if
  as many are being read as may be;
* `Read.Routine.traced_alike` — a run with its scenes is the run, and all scenes are accounted for;
* `Read.Code.depth_accounted` — this holds of whatever code does on a new session, however
  deep the input would have it go.
-/

namespace TagWire

variable {ι α β : Type}

namespace Read

/-! ## Scenes -/

/-- What happens at some time in a run. -/
inductive Event where
  /-- A call is made. -/
  | call
  /-- A call returns, possibly with a failure. -/
  | answer (failure? : Option Failure)
  /-- A value is to be opened, which is possibly refused. -/
  | opening (refusal? : Option Failure)
  /-- A value has been read and is to be closed. -/
  | closing

/-- What can be seen of a run at some time. -/
structure Scene (ι : Type) where
  event : Event
  /-- How many nested and dynamic values are being read. -/
  around : Nat
  session : Reader ι

/-- A session and the scenes so far. -/
structure Trace (ι : Type) where
  session : Reader ι
  scenes : List (Scene ι) := []

/-- Adds the present scene. -/
def Trace.note (trace : Trace ι) (event : Event) (around : Nat) : Trace ι :=
  { trace with scenes := trace.scenes ++ [⟨event, around, trace.session⟩] }

/-- A run without its scenes. -/
def withoutScenes : EStateM.Result Failure (Trace ι) α → EStateM.Result Failure (Reader ι) α
  | .ok a trace => .ok a trace.session
  | .error failure trace => .error failure trace.session

end Read

/-- Programs whose scenes are kept. -/
abbrev Traced (ι α : Type) := EStateM Failure (Read.Trace ι) α

namespace Traced

/-- A program in which there is nothing to be seen. -/
def silent (p : Read ι α) : Traced ι α := fun trace =>
  match p trace.session with
  | .ok a session => .ok a { trace with session }
  | .error failure session => .error failure { trace with session }

/-- A program that is one call for its caller. -/
def call (around : Nat) (p : Traced ι α) : Traced ι α := fun trace =>
  match p (trace.note .call around) with
  | .ok a trace => .ok a (trace.note (.answer none) around)
  | .error failure trace => .error failure (trace.note (.answer (some failure)) around)

/-- Enters a value, unless too many are open already. -/
def enter (around : Nat) : Traced ι Unit := fun trace =>
  match Read.enter trace.session with
  | .ok () session => .ok () { trace.note (.opening none) around with session }
  | .error failure session =>
      .error failure { trace.note (.opening (some failure)) around with session }

/-- The session with one value less open. -/
def leave (around : Nat) (trace : Read.Trace ι) : Read.Trace ι :=
  { trace.note .closing around with session := Read.leave trace.session }

/-- Reads fields within one more value, unless too many are open already. -/
def within (around : Nat) (fields : Traced ι α) : Traced ι α := do
  enter around
  thereafter (leave (around + 1)) fields

/-- What follows the byte that says whether it is present. -/
def whenPresent (rest : Traced ι α) : Traced ι (Option α) := do
  if ← silent Read.bool then return some (← rest) else return none

/-- What follows a count, unless that is the mark of absence. -/
def counted (kind : Sized) (items : Nat → Traced ι α) : Traced ι (Option α) := do
  match ← silent (Read.length? kind) with
  | none => return none
  | some n => return some (← items n)

end Traced

namespace Read

section Code

variable {A : ι → Type}

mutual

/-- Makes a call with this many values being read around it. -/
def Step.traced {α : Type} (inner : Nat → (t : ι) → Traced ι (A t)) (around : Nat) :
    Step ι A α → Traced ι α
  | .plain c => .silent c.run
  | .nested t => .whenPresent (.within around (inner (around + 1) t))
  | .dynamic => .whenPresent do
      let t ← Traced.silent dynamicType
      Traced.within around do return ⟨t, ← inner (around + 1) t⟩
  | .seq items => .counted .sequence (timesOf fun i => (items i).traced inner around)
  | .map keys values => .counted .mapping (timesOf fun i => do
      let k ← (keys i).traced inner around
      return (k, ← (values i).traced inner around))

/-- Runs a routine with this many values being read around it. -/
def Routine.traced {α : Type} (inner : Nat → (t : ι) → Traced ι (A t)) (around : Nat) :
    Routine ι A α → Traced ι α
  | .done a => return a
  | .refuse fault => .silent (Read.refuse fault)
  | .look next => do (next (← get).session.poisoned).traced inner around
  | .call c next => do (next (← (c.traced inner around).call around)).traced inner around
  | .attempt c next => do
      (next (← TagWire.attempt ((c.traced inner around).call around))).traced inner around

end

/-- Runs code in some levels, with its scenes. -/
def Code.unrolledTraced (code : Code ι A) : Nat → Nat → (t : ι) → Traced ι (A t)
  | 0, _ => fun _ => .silent exhausted
  | levels + 1, around => fun t => (code t).traced (code.unrolledTraced levels) around

/-- Runs code with its scenes. -/
def Code.traced (code : Code ι A) (around : Nat) (t : ι) : Traced ι (A t) := do
  code.unrolledTraced ((← get).session.limits.maxDepth + 1) around t

end Code

/-! ## Scenes that are accounted for -/

/-- What may happen while this many values are being read: one more is refused just if these are
as many as may be, and one can be closed only if there is one. -/
def Event.Due (maxDepth around : Nat) : Event → Prop
  | opening refusal? => refusal? =
      if around = maxDepth then some (.session (.depthExceeded maxDepth)) else none
  | closing => 0 < around
  | call | answer _ => True

/-- A scene in which the session has counted the values that are being read. -/
structure Scene.Accounted (maxDepth : Nat) (scene : Scene ι) : Prop where
  depth_eq : scene.session.depth = scene.around
  depth_le : scene.session.depth ≤ maxDepth
  due : scene.event.Due maxDepth scene.around

/-- A session with as many open values as are being read, and scenes that are accounted for. -/
structure Trace.Tells (around : Nat) (limits : Limits) (trace : Trace ι) (r : Reader ι) : Prop where
  session_eq : trace.session = r
  held : Open around limits r
  around_le : around ≤ limits.maxDepth
  accounted : ∀ scene ∈ trace.scenes, scene.Accounted limits.maxDepth

variable {around : Nat} {limits : Limits} {trace : Trace ι} {r : Reader ι}

namespace Trace.Tells

/-- Nothing has been seen yet. -/
theorem start (source : Source) (limits : Limits)
    (resolver? : Option (TypeTag → Except Fault ι)) :
    Tells 0 limits { session := { source, limits, resolver? } } { source, limits, resolver? } where
  session_eq := rfl
  held := ⟨rfl, rfl⟩
  around_le := Nat.zero_le _
  accounted := by simp

/-- The session goes on with as many values open. -/
theorem advance (h : trace.Tells around limits r) {around' : Nat} {r' : Reader ι}
    (hheld : Open around' limits r') (hle : around' ≤ limits.maxDepth) :
    Tells around' limits { trace with session := r' } r' where
  session_eq := rfl
  held := hheld
  around_le := hle
  accounted := h.accounted

/-- What is due may be noted. -/
theorem note (h : trace.Tells around limits r) {event : Event}
    (hdue : event.Due limits.maxDepth around) :
    (trace.note event around).Tells around limits r where
  session_eq := h.session_eq
  held := h.held
  around_le := h.around_le
  accounted := by
    have hdepth : trace.session.depth = around := by
      rw [h.session_eq]
      exact h.held.depth_eq
    intro scene hscene
    rcases List.mem_append.mp hscene with hscene | hscene
    · exact h.accounted scene hscene
    · rw [List.mem_singleton.mp hscene]
      exact ⟨hdepth, Nat.le_trans (Nat.le_of_eq hdepth) h.around_le, hdue⟩

end Trace.Tells

end Read

namespace Traced

open Read

variable {around : Nat} {limits : Limits} {trace : Trace ι} {r : Reader ι}
variable {p : Traced ι α} {q : Read ι α}

/-- A program that leaves as many values open as it found may go unseen. -/
theorem silent_alike (h : AlikeOn (Open around limits) q q) :
    Alike (Trace.Tells around limits) (silent q) q := by
  intro trace r htells
  obtain rfl := htells.session_eq
  unfold silent
  rcases h _ _ ⟨rfl, htells.held⟩ with ⟨a, s, _, hrun, -, rfl, hs⟩ | ⟨e, s, _, hrun, -, rfl, hs⟩
  · rw [hrun]
    exact .inl ⟨a, _, s, rfl, rfl, htells.advance hs htells.around_le⟩
  · rw [hrun]
    exact .inr ⟨e, _, s, rfl, rfl, htells.advance hs htells.around_le⟩

theorem call_alike (h : Alike (Trace.Tells around limits) p q) :
    Alike (Trace.Tells around limits) (p.call around) q := by
  intro trace r htells
  have hcalled : (trace.note .call around).Tells around limits r := htells.note trivial
  unfold call
  rcases h _ _ hcalled with ⟨a, trace', s, hp, hq, htells'⟩ | ⟨e, trace', s, hp, hq, htells'⟩
  · rw [hp]
    exact .inl ⟨a, _, s, rfl, hq, htells'.note trivial⟩
  · rw [hp]
    exact .inr ⟨e, _, s, rfl, hq, htells'.note trivial⟩

/-- No value is entered when as many are being read as may be. -/
theorem enter_full (htells : trace.Tells around limits r) (hfull : around = limits.maxDepth) :
    ∃ trace', enter around trace = .error (.session (.depthExceeded r.limits.maxDepth)) trace' ∧
      trace'.Tells around limits { r with poisoned := true } := by
  obtain rfl := htells.session_eq
  have hdepth := htells.held.depth_eq
  have hlimits := congrArg Limits.maxDepth htells.held.limits_eq
  have hrefused : Read.enter trace.session =
      fail (.depthExceeded trace.session.limits.maxDepth) trace.session := by
    unfold Read.enter
    rw [if_pos (by omega)]
  have hnoted := htells.note
    (show Event.Due _ around (.opening (some (.session (.depthExceeded limits.maxDepth)))) from
      (if_pos hfull).symm)
  refine ⟨_, ?_, hnoted.advance ⟨hdepth, htells.held.limits_eq⟩ htells.around_le⟩
  unfold enter
  rw [hrefused, ← hlimits]
  rfl

/-- A value is entered when fewer are being read than may be. -/
theorem enter_room (htells : trace.Tells around limits r) (hroom : around < limits.maxDepth) :
    ∃ trace', enter around trace = .ok () trace' ∧
      trace'.Tells (around + 1) limits { r with depth := r.depth + 1 } := by
  obtain rfl := htells.session_eq
  have hdepth := htells.held.depth_eq
  have hlimits := congrArg Limits.maxDepth htells.held.limits_eq
  have hentered : Read.enter trace.session =
      .ok () { trace.session with depth := trace.session.depth + 1 } := by
    unfold Read.enter
    rw [if_neg (by omega)]
  have hnoted := htells.note (show Event.Due _ around (.opening none) from
    (if_neg (Nat.ne_of_lt hroom)).symm)
  refine ⟨_, ?_, hnoted.advance ⟨congrArg (· + 1) hdepth, htells.held.limits_eq⟩ hroom⟩
  unfold enter
  rw [hentered]

/-- A value is closed when it is open. -/
theorem leave_tells (htells : trace.Tells (around + 1) limits r) :
    (leave (around + 1) trace).Tells around limits { r with depth := r.depth - 1 } := by
  obtain rfl := htells.session_eq
  have hnoted := htells.note (show Event.Due _ (around + 1) .closing from Nat.succ_pos around)
  exact hnoted.advance ⟨congrArg (· - 1) htells.held.depth_eq, htells.held.limits_eq⟩
    (Nat.le_of_lt htells.around_le)

/-- A value is refused, or entered and closed. -/
theorem within_alike
    (h : around < limits.maxDepth → Alike (Trace.Tells (around + 1) limits) p q) :
    Alike (Trace.Tells around limits) (p.within around) (Read.within q) := by
  intro trace r htells
  have hdepth := htells.held.depth_eq
  have hlimits := congrArg Limits.maxDepth htells.held.limits_eq
  unfold within
  rcases Nat.eq_or_lt_of_le htells.around_le with hfull | hroom
  · obtain ⟨trace', henter, htells'⟩ := enter_full htells hfull
    exact .inr ⟨_, _, _, run_bind_error henter, run_within_full (by omega), htells'⟩
  · have hbelow : ¬ r.limits.maxDepth ≤ r.depth := by omega
    obtain ⟨entered, henter, hentered⟩ := enter_room htells hroom
    rw [run_bind_ok henter]
    unfold thereafter
    rcases h hroom _ _ hentered with
      ⟨a, trace', s, hp, hq, htells'⟩ | ⟨e, trace', s, hp, hq, htells'⟩
    · rw [hp]
      exact .inl ⟨a, _, _, rfl, run_within_ok hbelow hq, leave_tells htells'⟩
    · rw [hp]
      exact .inr ⟨e, _, _, rfl, run_within_error hbelow hq, leave_tells htells'⟩

theorem whenPresent_alike (h : Alike (Trace.Tells around limits) p q) :
    Alike (Trace.Tells around limits) p.whenPresent (Read.whenPresent q) :=
  (silent_alike Stepwise.bool.alike).bind fun
    | true => h.map some
    | false => .pure none

theorem counted_alike (kind : Sized) {p : Nat → Traced ι α} {q : Nat → Read ι α}
    (h : ∀ n, Alike (Trace.Tells around limits) (p n) (q n)) :
    Alike (Trace.Tells around limits) (counted kind p) (Read.counted kind q) :=
  (silent_alike (Stepwise.length? kind).alike).bind fun
    | none => .pure none
    | some n => (h n).map some

/-- A run with its scenes is the run without them, and all scenes are accounted for. -/
theorem run_of_tells (h : Alike (Trace.Tells around limits) p q)
    (htells : trace.Tells around limits r) :
    withoutScenes (p trace) = q r ∧
      ∀ scene ∈ (endOf (p trace)).scenes, scene.Accounted limits.maxDepth := by
  rcases h trace r htells with ⟨a, trace', s, hp, hq, htells'⟩ | ⟨e, trace', s, hp, hq, htells'⟩
  · rw [hp, hq]
    exact ⟨congrArg _ htells'.session_eq, htells'.accounted⟩
  · rw [hp, hq]
    exact ⟨congrArg _ htells'.session_eq, htells'.accounted⟩

end Traced

namespace Read

variable {around : Nat} {limits : Limits} {A : ι → Type}
variable {traced : Nat → (t : ι) → Traced ι (A t)} {inner : (t : ι) → Read ι (A t)}

mutual

/-- With its scenes, a call is the call, and all scenes are accounted for. -/
theorem Step.traced_alike {α : Type}
    (h : ∀ t, around < limits.maxDepth →
      Alike (Trace.Tells (around + 1) limits) (traced (around + 1) t) (inner t)) :
    ∀ c : Step ι A α, Alike (Trace.Tells around limits) (c.traced traced around) (c.run inner)
  | .plain c => Traced.silent_alike c.stepwise.alike
  | .nested t => Traced.whenPresent_alike (Traced.within_alike (h t))
  | .dynamic => by
      unfold Step.traced Step.run
      rw [dynamic_eq]
      exact Traced.whenPresent_alike ((Traced.silent_alike dynamicType_stepwise.alike).bind fun t =>
        Traced.within_alike fun hroom => (h t hroom).map (Sigma.mk t))
  | .seq items => Traced.counted_alike .sequence (.timesOf fun i => (items i).traced_alike h)
  | .map keys values => Traced.counted_alike .mapping (.timesOf fun i =>
      ((keys i).traced_alike h).bind fun k => ((values i).traced_alike h).map (k, ·))

/-- With its scenes, a routine is the routine, and all scenes are accounted for. -/
theorem Routine.traced_alike {α : Type}
    (h : ∀ t, around < limits.maxDepth →
      Alike (Trace.Tells (around + 1) limits) (traced (around + 1) t) (inner t)) :
    ∀ routine : Routine ι A α,
      Alike (Trace.Tells around limits) (routine.traced traced around) (routine.run inner)
  | .done a => .pure a
  | .refuse fault => Traced.silent_alike (.of_kept fun _ hr => hr)
  | .look next => .inspect fun trace r htells => by
      rw [htells.session_eq]
      exact (next r.poisoned).traced_alike h
  | .call c next => (Traced.call_alike (c.traced_alike h)).bind fun b => (next b).traced_alike h
  | .attempt c next =>
      (Traced.call_alike (c.traced_alike h)).attempt.bind fun e => (next e).traced_alike h

end

variable (code : Code ι A)

/-- The levels of code with their scenes. -/
theorem Code.unrolledTraced_alike (levels : Nat) (hlevels : limits.maxDepth < around + levels)
    (t : ι) :
    Alike (Trace.Tells around limits) (code.unrolledTraced levels around t)
      (code.unrolled (fun _ => exhausted) levels t) := by
  induction levels generalizing around t with
  | zero =>
      -- More values would be read than may be.
      exact fun trace r htells => absurd htells.around_le (by omega)
  | succ levels ih => exact (code t).traced_alike fun u _ => ih (by omega) u

/-- With its scenes, code is the code, and all scenes are accounted for. -/
theorem Code.traced_alike (t : ι) :
    Alike (Trace.Tells around limits) (code.traced around t) (code.read t) := by
  refine .inspect fun trace r htells => ?_
  have hlimits := congrArg Limits.maxDepth htells.held.limits_eq
  rw [htells.session_eq]
  exact code.unrolledTraced_alike _ (by omega) t

/-- A call that is about to open a value: behind the byte that says it is present and, if it is
dynamic, behind the tag of a type that is found. -/
def Step.Opens {α : Type} : Step ι A α → (r s : Reader ι) → Prop
  | .nested _, r, s => Read.bool r = .ok true s
  | .dynamic, r, s => ∃ s' t, Read.bool r = .ok true s' ∧ dynamicType s' = .ok t s
  | _, _, _ => False

/-- A call that would open a value too many fails. -/
theorem Step.run_of_opens {α : Type} {c : Step ι A α} {r s : Reader ι} (h : c.Opens r s)
    (hfull : s.limits.maxDepth ≤ s.depth) :
    c.run inner r =
      .error (.session (.depthExceeded s.limits.maxDepth)) { s with poisoned := true } := by
  cases c with
  | nested t => exact (run_bind_ok h).trans (run_bind_error (run_within_full hfull))
  | dynamic =>
      obtain ⟨s', t, hpresent, htype⟩ := h
      unfold Step.run
      rw [dynamic_eq]
      refine (run_bind_ok hpresent).trans (run_bind_error ?_)
      exact (run_bind_ok htype).trans (run_within_full hfull)
  | plain c => exact h.elim
  | seq items => exact h.elim
  | map keys values => exact h.elim

/-- **Open values are counted right, and bound how deep code goes.**  Whatever a routine does with a
new session, and the code of the values that it opens, which may call itself, pass failures on or
catch them: its run has scenes in each of which the session counts as open what is being read
around it, no more than the limit.  One more value is refused just if the limit is reached, however
many were read before, with which the call fails, and none is closed that is not open.  Any call on
any session leaves as many values open as it found.  So code ends: what lies more levels below than
the limit is never reached, and there is one program that calls itself as the code does. -/
theorem Code.depth_accounted (code : Code ι A) :
    (∀ {α : Type} (routine : Routine ι A α) (source : Source) (limits : Limits)
        (resolver? : Option (TypeTag → Except Fault ι)),
      let session : Reader ι := { source, limits, resolver? }
      let told := routine.traced code.traced 0 { session }
      withoutScenes told = routine.run code.read session ∧
        ∀ scene ∈ (endOf told).scenes, scene.Accounted limits.maxDepth) ∧
    (∀ {α : Type} (c : Step ι A α) (r s : Reader ι), c.Opens r s → s.limits.maxDepth ≤ s.depth →
      c.run code.read r =
        .error (.session (.depthExceeded s.limits.maxDepth)) { s with poisoned := true }) ∧
    (∀ {α : Type} (c : Step ι A α) (r : Reader ι),
      (endOf (c.run code.read r)).depth = r.depth) ∧
    (∀ (below : (t : ι) → Read ι (A t)) (levels : Nat) (t : ι) (r : Reader ι),
      r.limits.maxDepth < levels → code.unrolled below levels t r = code.read t r) ∧
    ∀ f : (t : ι) → Read ι (A t), (∀ t, f t = (code t).run f) ↔ f = code.read := by
  refine ⟨fun {α} routine source limits resolver? => ?_,
    fun {α} c r s hopens hfull => c.run_of_opens hopens hfull, fun {α} c r => ?_,
    fun below levels t r h => code.unrolled_eq_read h t, fun f => ⟨code.read_unique, ?_⟩⟩
  · exact Traced.run_of_tells (routine.traced_alike fun t _ => code.traced_alike t)
      (.start source limits resolver?)
  · have hopen : Open r.depth r.limits r := ⟨rfl, rfl⟩
    exact (AlikeOn.kept (c.run_alike fun t _ => code.read_alike t) hopen).depth_eq
  · rintro rfl
    exact code.read_eq

end Read

/-- A parcel with another one in it, read by a session in which no value may be opened. -/
theorem parcel_depth_accounted :
    let session : Reader Unit :=
      { source := Source.ofBytes [0xFF, 0xFF, 0xFF, 0xFF, 1, 0, 0, 0, 7, 0xFF, 0xFF, 0xFF, 0xFF, 0]
        limits := ⟨64, 0⟩
        resolver? := some parcels.resolve }
    let told := (parcel.code ()).traced parcel.code.traced 0 { session }
    (∃ scene ∈ (endOf told).scenes, scene.Accounted 0 ∧
      scene.event = .opening (some (.session (.depthExceeded 0)))) ∧
    ∀ below, parcel.code.unrolled below 1 () session = parcel.read () session := by
  intro session told
  obtain ⟨hscenes, -, -, hlevels, -⟩ := parcel.code.depth_accounted
  have hopening : (endOf told).scenes[3]?.map Read.Scene.event =
      some (.opening (some (.session (.depthExceeded 0)))) := rfl
  obtain ⟨scene, hscene, hevent⟩ := Option.map_eq_some_iff.mp hopening
  have hmem := List.mem_of_getElem? hscene
  refine ⟨⟨scene, hmem, (hscenes _ _ _ _).2 scene hmem, hevent⟩, fun below => ?_⟩
  exact (hlevels below 1 () session Nat.one_pos).trans
    (congrFun (parcel.read_eq_code_read ()) session).symm

end TagWire
