import TagWire.Proofs.Programs

/-!
# Histories of sessions

A caller makes calls on a session one after the other, goes on after a failure or
passes it on, and some calls run code of the caller's, which makes calls in turn.  A history
holds every moment at which a call is made or returns, however deep inside of
other calls, with the session as it is then:

* `Alike` — two programs that come to the same value or failure;
* `Recorded` — programs that keep such a history, and how they are put together;
* `Forgets` — without its history, a recorded program is the one that it records;
* `Watch`, `Watch.HeededBy` — what is watched of a session, and programs which leave
  it alone once the session has raised a fault;
* `Watch.Settled`, `Watch.Settles` — what this means for a history, and that each way to put
  recorded programs together keeps to it.
-/

namespace TagWire

variable {ε σ τ α β γ : Type}

/-! ## Ways to put programs together -/

/-- What a program comes to, for a caller who goes on in either case. -/
def attempt (p : EStateM ε σ α) : EStateM ε σ (Except ε α) := fun s =>
  match p s with
  | .ok a s => .ok (.ok a) s
  | .error e s => .ok (.error e) s

/-- Changes the state after a program, whether it fails or not. -/
def thereafter (f : σ → σ) (p : EStateM ε σ α) : EStateM ε σ α := fun s =>
  match p s with
  | .ok a s => .ok a (f s)
  | .error e s => .error e (f s)

/-- A number of items, each of which has a program of its own. -/
def timesOf (item : Nat → EStateM ε σ α) : Nat → EStateM ε σ (List α)
  | 0 => return []
  | n + 1 => do
      let first ← item 0
      return first :: (← timesOf (fun i => item (i + 1)) n)

/-- The state in which a run ends. -/
def endOf : EStateM.Result ε σ α → σ
  | .ok _ s => s
  | .error _ s => s

/-- A caught failure ends a run in the state in which it was raised. -/
theorem endOf_attempt (p : EStateM ε σ α) (s : σ) : endOf (attempt p s) = endOf (p s) := by
  unfold attempt
  cases p s <;> rfl

/-- Items that have one program are read by it. -/
theorem timesOf_const {ι : Type} (item : Read ι α) (n : Nat) :
    timesOf (fun _ => item) n = Read.times item n := by
  induction n with
  | zero => rfl
  | succ n ih =>
      unfold timesOf Read.times
      rw [ih]

/-! ## Programs that come to the same -/

/-- Two programs which, from states that stand together, come to the same value or the same
failure in states that stand together. -/
def Alike (Together : σ → τ → Prop) (p : EStateM ε σ α) (q : EStateM ε τ α) : Prop :=
  ∀ s t, Together s t →
    (∃ a s' t', p s = .ok a s' ∧ q t = .ok a t' ∧ Together s' t') ∨
    ∃ e s' t', p s = .error e s' ∧ q t = .error e t' ∧ Together s' t'

namespace Alike

variable {Together : σ → τ → Prop} {p : EStateM ε σ α} {q : EStateM ε τ α}

theorem pure (a : α) : Alike Together (pure a : EStateM ε σ α) (pure a) :=
  fun s t h => .inl ⟨a, s, t, rfl, rfl, h⟩

theorem bind (h : Alike Together p q) {p' : α → EStateM ε σ β} {q' : α → EStateM ε τ β}
    (h' : ∀ a, Alike Together (p' a) (q' a)) : Alike Together (p >>= p') (q >>= q') := by
  intro s t hst
  rcases h s t hst with ⟨a, s', t', hp, hq, hst'⟩ | ⟨e, s', t', hp, hq, hst'⟩
  · rw [run_bind_ok hp, run_bind_ok hq]
    exact h' a s' t' hst'
  · exact .inr ⟨e, s', t', run_bind_error hp, run_bind_error hq, hst'⟩

theorem map (h : Alike Together p q) (f : α → β) :
    Alike Together (do return f (← p)) (do return f (← q)) :=
  h.bind fun a => .pure (f a)

/-- What is decided by a look at the state. -/
theorem inspect {p' : σ → EStateM ε σ β} {q' : τ → EStateM ε τ β}
    (h : ∀ s t, Together s t → Alike Together (p' s) (q' t)) :
    Alike Together (get >>= p') (get >>= q') :=
  fun s t hst => h s t hst s t hst

theorem attempt (h : Alike Together p q) : Alike Together (attempt p) (attempt q) := by
  intro s t hst
  unfold TagWire.attempt
  rcases h s t hst with ⟨a, s', t', hp, hq, hst'⟩ | ⟨e, s', t', hp, hq, hst'⟩
  · rw [hp, hq]
    exact .inl ⟨.ok a, s', t', rfl, rfl, hst'⟩
  · rw [hp, hq]
    exact .inl ⟨.error e, s', t', rfl, rfl, hst'⟩

theorem timesOf {p : Nat → EStateM ε σ α} {q : Nat → EStateM ε τ α}
    (h : ∀ i, Alike Together (p i) (q i)) (n : Nat) :
    Alike Together (timesOf p n) (timesOf q n) := by
  induction n generalizing p q with
  | zero => exact .pure []
  | succ n ih => exact (h 0).bind fun first => (ih fun i => h (i + 1)).map (first :: ·)

theorem forM {p : γ → EStateM ε σ PUnit} {q : γ → EStateM ε τ PUnit}
    (h : ∀ c, Alike Together (p c) (q c)) (items : List γ) :
    Alike Together (items.forM p) (items.forM q) := by
  induction items with
  | nil => exact .pure PUnit.unit
  | cons item items ih => exact (h item).bind fun _ => ih

end Alike

/-! ## Recorded programs -/

/-- A moment of a history. -/
inductive Moment (σ : Type) where
  /-- A call is made on the session. -/
  | started (session : σ)
  /-- A call returns, possibly with a failure. -/
  | returned (failure? : Option Failure) (session : σ)

/-- The session at a moment. -/
def Moment.session : Moment σ → σ
  | started session => session
  | returned _ session => session

/-- A call returns a failure that the session has raised. -/
def Moment.Faulted (moment : Moment σ) : Prop :=
  ∃ fault session, moment = .returned (some (.session fault)) session

theorem Moment.not_faulted_started (session : σ) : ¬ (started session).Faulted := by
  rintro ⟨_, _, ⟨⟩⟩

theorem Moment.faulted_returned_iff {failure? : Option Failure} {session : σ} :
    (returned failure? session).Faulted ↔ ∃ fault, failure? = some (.session fault) := by
  constructor
  · rintro ⟨fault, _, ⟨⟩⟩
    exact ⟨fault, rfl⟩
  · rintro ⟨fault, rfl⟩
    exact ⟨fault, session, rfl⟩

/-- A session and its history. -/
structure Logged (σ : Type) where
  session : σ
  log : List (Moment σ) := []

/-- Adds the present moment to the history. -/
def Logged.note (l : Logged σ) (moment : σ → Moment σ) : Logged σ :=
  { l with log := l.log ++ [moment l.session] }

/-- Programs that keep a history. -/
abbrev Recorded (σ α : Type) := EStateM Failure (Logged σ) α

namespace Recorded

/-- A program of which only the effect on the session is kept. -/
def silent (p : EStateM Failure σ α) : Recorded σ α := fun l =>
  match p l.session with
  | .ok a session => .ok a { l with session }
  | .error failure session => .error failure { l with session }

theorem endOf_silent (p : EStateM Failure σ α) (l : Logged σ) :
    endOf (silent p l) = { l with session := endOf (p l.session) } := by
  unfold silent
  cases p l.session <;> rfl

/-- A program that is one call for its caller. -/
def call (p : Recorded σ α) : Recorded σ α := fun l =>
  match p (l.note .started) with
  | .ok a l => .ok a (l.note (.returned none))
  | .error failure l => .error failure (l.note (.returned (some failure)))

/-- Changes the session after a program, whether it fails or not. -/
def thereafter (f : σ → σ) (p : Recorded σ α) : Recorded σ α :=
  TagWire.thereafter (fun l => { l with session := f l.session }) p

end Recorded

/-- A run without its history. -/
def forget : EStateM.Result Failure (Logged σ) α → EStateM.Result Failure σ α
  | .ok a l => .ok a l.session
  | .error failure l => .error failure l.session

theorem endOf_forget (run : EStateM.Result Failure (Logged σ) α) :
    endOf (forget run) = (endOf run).session := by
  cases run <;> rfl

/-- A recorded program that runs as another one does, whatever has been recorded before. -/
def Forgets (p : Recorded σ α) (q : EStateM Failure σ α) : Prop :=
  ∀ l, forget (p l) = q l.session

namespace Forgets

variable {p : Recorded σ α} {q : EStateM Failure σ α}

/-- The two runs come to the same. -/
theorem alike (h : Forgets p q) : Alike (fun l s => l.session = s) p q := by
  rintro l _ rfl
  have hl := h l
  cases hp : p l with
  | ok a l' => exact .inl ⟨a, l', _, rfl, hl.symm.trans (congrArg forget hp), rfl⟩
  | error failure l' => exact .inr ⟨failure, l', _, rfl, hl.symm.trans (congrArg forget hp), rfl⟩

theorem of_alike (h : Alike (fun l s => l.session = s) p q) : Forgets p q := by
  intro l
  rcases h l _ rfl with ⟨a, l', _, hp, hq, rfl⟩ | ⟨failure, l', _, hp, hq, rfl⟩
  · rw [hp, hq]
    rfl
  · rw [hp, hq]
    rfl

theorem pure (a : α) : Forgets (pure a : Recorded σ α) (pure a) := fun _ => rfl

theorem silent (q : EStateM Failure σ α) : Forgets (.silent q) q := by
  intro l
  unfold Recorded.silent
  cases q l.session <;> rfl

theorem bind (h : Forgets p q) {p' : α → Recorded σ β} {q' : α → EStateM Failure σ β}
    (h' : ∀ a, Forgets (p' a) (q' a)) : Forgets (p >>= p') (q >>= q') :=
  .of_alike (h.alike.bind fun a => (h' a).alike)

theorem map (h : Forgets p q) (f : α → β) :
    Forgets (do return f (← p)) (do return f (← q)) :=
  .of_alike (h.alike.map f)

/-- What is decided by a look at the session. -/
theorem inspect (view : σ → γ) {p' : γ → Recorded σ β} {q' : γ → EStateM Failure σ β}
    (h : ∀ c, Forgets (p' c) (q' c)) :
    Forgets (do p' (view (← get).session)) (do q' (view (← get))) :=
  fun l => h (view l.session) l

theorem call (h : Forgets p q) : Forgets p.call q := by
  intro l
  unfold Recorded.call
  rcases h.alike (l.note .started) _ rfl with
    ⟨a, l', _, hp, hq, rfl⟩ | ⟨failure, l', _, hp, hq, rfl⟩
  · rw [hp]
    exact hq.symm
  · rw [hp]
    exact hq.symm

theorem attempt (h : Forgets p q) : Forgets (attempt p) (TagWire.attempt q) :=
  .of_alike h.alike.attempt

theorem thereafter (f : σ → σ) (h : Forgets p q) :
    Forgets (p.thereafter f) (TagWire.thereafter f q) := by
  intro l
  unfold Recorded.thereafter TagWire.thereafter
  rcases h.alike l _ rfl with ⟨a, l', _, hp, hq, rfl⟩ | ⟨failure, l', _, hp, hq, rfl⟩
  · rw [hp, hq]
    rfl
  · rw [hp, hq]
    rfl

theorem timesOf {p : Nat → Recorded σ α} {q : Nat → EStateM Failure σ α}
    (h : ∀ i, Forgets (p i) (q i)) (n : Nat) :
    Forgets (timesOf p n) (TagWire.timesOf q n) :=
  .of_alike (.timesOf (fun i => (h i).alike) n)

theorem forM {p : γ → Recorded σ PUnit} {q : γ → EStateM Failure σ PUnit}
    (h : ∀ c, Forgets (p c) (q c)) (items : List γ) : Forgets (items.forM p) (items.forM q) :=
  .of_alike (.forM (fun c => (h c).alike) items)

end Forgets

/-! ## What is watched -/

/-- What is watched of a session. -/
structure Watch (σ : Type) where
  /-- Whether it has raised a fault. -/
  poisoned : σ → Bool
  /-- The part which is then left alone. -/
  Part : Type
  part : σ → Part

namespace Watch

variable (W : Watch σ)

/-- If the session was poisoned before, it still is, and the watched part is the same. -/
def Frozen (before after : σ) : Prop :=
  W.poisoned before = true → W.poisoned after = true ∧ W.part after = W.part before

variable {W}

theorem Frozen.refl (s : σ) : W.Frozen s s := fun h => ⟨h, rfl⟩

theorem Frozen.trans {s s' s'' : σ} (h : W.Frozen s s') (h' : W.Frozen s' s'') :
    W.Frozen s s'' := by
  intro hs
  obtain ⟨hs', hpart⟩ := h hs
  obtain ⟨hs'', hpart'⟩ := h' hs'
  exact ⟨hs'', hpart'.trans hpart⟩

/-- A session that changes in nothing that is watched. -/
theorem Frozen.of_eq {s s' : σ} (hpoisoned : W.poisoned s' = W.poisoned s)
    (hpart : W.part s' = W.part s) : W.Frozen s s' :=
  fun hs => ⟨hpoisoned.trans hs, hpart⟩

variable (W)

/-- A run that has not failed with a fault of the session, or has poisoned it. -/
def Poisons (run : EStateM.Result Failure σ α) : Prop :=
  ∀ fault s, run = .error (.session fault) s → W.poisoned s = true

/-- A program that leaves a poisoned session poisoned and its watched part alone, and that
raises no fault of the session without poisoning it. -/
def HeededBy (p : EStateM Failure σ α) : Prop :=
  ∀ s, W.Frozen s (endOf (p s)) ∧ W.Poisons (p s)

/-- A program that does nothing on a poisoned session but to answer with one of some faults. -/
def RefusedBy (Answer : Fault → Prop) (p : EStateM Failure σ α) : Prop :=
  ∀ s, W.poisoned s = true → ∃ fault, Answer fault ∧ p s = .error (.session fault) s

/-- A history in which the session is poisoned by the first fault that it raises, and from there
on and to the present. -/
structure Settled (l : Logged σ) : Prop where
  faulted : ∀ moment ∈ l.log, moment.Faulted → W.poisoned moment.session = true
  for_good : l.log.Pairwise fun earlier later => W.Frozen earlier.session later.session
  still : ∀ moment ∈ l.log, W.Frozen moment.session l.session

/-- A program that keeps histories settled, and that raises no fault of the session without
poisoning it. -/
def Settles (p : Recorded σ α) : Prop :=
  ∀ l, W.Settled l → W.Settled (endOf (p l)) ∧ W.Poisons (forget (p l))

variable {W}

theorem Poisons.ok (a : α) (s : σ) : W.Poisons (.ok a s) := by
  rintro fault s ⟨⟩

theorem poisons_error_iff {failure : Failure} {s : σ} :
    W.Poisons (.error failure s : EStateM.Result Failure σ α) ↔
      ∀ fault, failure = .session fault → W.poisoned s = true := by
  constructor
  · rintro h fault rfl
    exact h fault s rfl
  · rintro h fault _ ⟨⟩
    exact h fault rfl

section Heeded

variable {p : EStateM Failure σ α}

theorem HeededBy.pure (a : α) : W.HeededBy (pure a) := fun s => ⟨.refl s, .ok a s⟩

/-- Faults of the session poison it, as long as its watched part stays the same. -/
theorem HeededBy.fail {fault : Fault} {f : σ → σ} (hpoisoned : ∀ s, W.poisoned (f s) = true)
    (hpart : ∀ s, W.part (f s) = W.part s) :
    W.HeededBy (fun s => .error (.session fault) (f s) : EStateM Failure σ α) :=
  fun s => ⟨fun _ => ⟨hpoisoned s, hpart s⟩, poisons_error_iff.mpr fun _ _ => hpoisoned s⟩

/-- Faults of the caller leave the session as it is. -/
theorem HeededBy.refuse (fault : Fault) :
    W.HeededBy (fun s => .error (.caller fault) s : EStateM Failure σ α) :=
  fun s => ⟨.refl s, poisons_error_iff.mpr fun _ h => Failure.noConfusion h⟩

theorem HeededBy.bind {q : α → EStateM Failure σ β} (hp : W.HeededBy p)
    (hq : ∀ a, W.HeededBy (q a)) : W.HeededBy (p >>= q) := by
  intro s
  obtain ⟨hfrozen, hpoisons⟩ := hp s
  cases hrun : p s with
  | ok a s' =>
      rw [hrun] at hfrozen
      rw [run_bind_ok hrun]
      obtain ⟨hfrozen', hpoisons'⟩ := hq a s'
      exact ⟨hfrozen.trans hfrozen', hpoisons'⟩
  | error failure s' =>
      rw [hrun] at hfrozen hpoisons
      rw [run_bind_error hrun]
      exact ⟨hfrozen, poisons_error_iff.mpr (poisons_error_iff.mp hpoisons)⟩

/-- What is decided by a look at the session. -/
theorem HeededBy.inspect {q : σ → EStateM Failure σ α} (hq : ∀ s, W.HeededBy (q s)) :
    W.HeededBy (get >>= q) :=
  fun s => hq s s

theorem HeededBy.forM {p : γ → EStateM Failure σ PUnit} (hp : ∀ c, W.HeededBy (p c))
    (items : List γ) : W.HeededBy (items.forM p) := by
  induction items with
  | nil => exact .pure PUnit.unit
  | cons item items ih => exact (hp item).bind fun _ => ih

/-- A program of which the first part is refused is refused. -/
theorem RefusedBy.bind {Answer : Fault → Prop} (h : W.RefusedBy Answer p)
    (q : α → EStateM Failure σ β) : W.RefusedBy Answer (p >>= q) := by
  intro s hs
  obtain ⟨fault, hfault, hrun⟩ := h s hs
  exact ⟨fault, hfault, run_bind_error hrun⟩

end Heeded

/-! ## Settled histories -/

/-- Nothing has happened yet. -/
theorem Settled.start (s : σ) : W.Settled { session := s } where
  faulted := by simp
  for_good := .nil
  still := by simp

/-- The session may go on to where it stays frozen. -/
theorem Settled.advance {l : Logged σ} (h : W.Settled l) {session : σ}
    (hfrozen : W.Frozen l.session session) : W.Settled { l with session } where
  faulted := h.faulted
  for_good := h.for_good
  still := fun moment hmoment => (h.still moment hmoment).trans hfrozen

/-- The present moment may be noted, if it is no fault that has left the session live. -/
theorem Settled.note {l : Logged σ} (h : W.Settled l) {moment : σ → Moment σ}
    (hsession : (moment l.session).session = l.session)
    (hfaulted : (moment l.session).Faulted → W.poisoned l.session = true) :
    W.Settled (l.note moment) where
  faulted := by
    intro m hm
    rcases List.mem_append.mp hm with hm | hm
    · exact h.faulted m hm
    · rw [List.mem_singleton.mp hm, hsession]
      exact hfaulted
  for_good := by
    refine List.pairwise_append.mpr ⟨h.for_good, List.pairwise_singleton _ _, ?_⟩
    intro earlier hearlier later hlater
    rw [List.mem_singleton.mp hlater, hsession]
    exact h.still earlier hearlier
  still := by
    intro m hm
    rcases List.mem_append.mp hm with hm | hm
    · exact h.still m hm
    · rw [List.mem_singleton.mp hm, hsession]
      exact .refl _

namespace Settles

variable {p : Recorded σ α}

theorem pure (a : α) : W.Settles (pure a) := fun l h => ⟨h, .ok a l.session⟩

theorem silent {p : EStateM Failure σ α} (hp : W.HeededBy p) : W.Settles (.silent p) := by
  intro l h
  obtain ⟨hfrozen, hpoisons⟩ := hp l.session
  rw [Forgets.silent p l, Recorded.endOf_silent]
  exact ⟨h.advance hfrozen, hpoisons⟩

theorem bind {q : α → Recorded σ β} (hp : W.Settles p) (hq : ∀ a, W.Settles (q a)) :
    W.Settles (p >>= q) := by
  intro l h
  obtain ⟨hsettled, hpoisons⟩ := hp l h
  cases hrun : p l with
  | ok a l' =>
      rw [hrun] at hsettled
      rw [run_bind_ok hrun]
      exact hq a l' hsettled
  | error failure l' =>
      rw [hrun] at hsettled hpoisons
      rw [run_bind_error hrun]
      exact ⟨hsettled, poisons_error_iff.mpr (poisons_error_iff.mp hpoisons)⟩

theorem map (hp : W.Settles p) (f : α → β) : W.Settles (do return f (← p)) :=
  hp.bind fun a => .pure (f a)

/-- What is decided by a look at the session. -/
theorem inspect (view : σ → γ) {q : γ → Recorded σ β} (hq : ∀ c, W.Settles (q c)) :
    W.Settles (do q (view (← get).session)) :=
  fun l h => hq (view l.session) l h

theorem call (hp : W.Settles p) : W.Settles p.call := by
  intro l h
  obtain ⟨hsettled, hpoisons⟩ := hp (l.note .started)
    (h.note rfl fun hstarted => absurd hstarted (Moment.not_faulted_started _))
  unfold Recorded.call
  cases hrun : p (l.note .started) with
  | ok a l' =>
      rw [hrun] at hsettled
      refine ⟨hsettled.note rfl fun hreturned => ?_, .ok a l'.session⟩
      obtain ⟨_, hnone⟩ := Moment.faulted_returned_iff.mp hreturned
      cases hnone
  | error failure l' =>
      rw [hrun] at hsettled hpoisons
      refine ⟨hsettled.note rfl fun hreturned => ?_, hpoisons⟩
      obtain ⟨fault, hfailure⟩ := Moment.faulted_returned_iff.mp hreturned
      exact poisons_error_iff.mp hpoisons fault (Option.some.inj hfailure)

theorem attempt (hp : W.Settles p) : W.Settles (attempt p) := by
  intro l h
  obtain ⟨hsettled, -⟩ := hp l h
  rw [endOf_attempt]
  refine ⟨hsettled, ?_⟩
  unfold TagWire.attempt
  cases p l <;> exact .ok _ _

/-- The session may be changed afterwards in what is not watched. -/
theorem thereafter {f : σ → σ} (hpoisoned : ∀ s, W.poisoned (f s) = W.poisoned s)
    (hpart : ∀ s, W.part (f s) = W.part s) (hp : W.Settles p) : W.Settles (p.thereafter f) := by
  intro l h
  obtain ⟨hsettled, hpoisons⟩ := hp l h
  unfold Recorded.thereafter TagWire.thereafter
  cases hrun : p l with
  | ok a l' =>
      rw [hrun] at hsettled
      exact ⟨hsettled.advance (.of_eq (hpoisoned _) (hpart _)), .ok a (f l'.session)⟩
  | error failure l' =>
      rw [hrun] at hsettled hpoisons
      refine ⟨hsettled.advance (.of_eq (hpoisoned _) (hpart _)), poisons_error_iff.mpr ?_⟩
      intro fault hfault
      exact (hpoisoned _).trans (poisons_error_iff.mp hpoisons fault hfault)

theorem timesOf {p : Nat → Recorded σ α} (hp : ∀ i, W.Settles (p i)) (n : Nat) :
    W.Settles (timesOf p n) := by
  induction n generalizing p with
  | zero => exact .pure []
  | succ n ih => exact (hp 0).bind fun first => (ih fun i => hp (i + 1)).map (first :: ·)

theorem forM {p : γ → Recorded σ PUnit} (hp : ∀ c, W.Settles (p c)) (items : List γ) :
    W.Settles (items.forM p) := by
  induction items with
  | nil => exact .pure PUnit.unit
  | cons item items ih => exact (hp item).bind fun _ => ih

end Settles

end Watch

end TagWire
