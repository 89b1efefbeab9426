import TagWire.Proofs.ReadScripts

/-!
# Code that calls itself

The code that reads the fields of a value may open values of its own type, directly or by way
of others, and a dynamic value has whatever type the input says.  So such code has no end that
can be seen from its text.  It is called by name here, and code that is written in place has a
name as well:

* `Read.Step`, `Read.Routine`, `Read.Code` — what code does between two openings, and one such
  routine for each name;
* `Read.Code.unrolled`, `Read.Code.read` — code is run in levels, as many as the session has;
* `AlikeOn`, `Read.Routine.run_alike` — two runs of a routine come to the same, and leave as many
  values open as they found, if what they open does;
* `Read.Code.unrolled_eq_read`, `Read.Code.read_unique` — what lies below those levels is never
  reached, and code that calls itself has one meaning;
* `Schema.read_eq_code_read` — records of a schema are read by such code.
-/

namespace TagWire

variable {ε σ ι α β : Type}

/-! ## Programs that keep a property -/

/-- Two programs that are the same on the states with a property, and keep it. -/
abbrev AlikeOn (P : σ → Prop) (p q : EStateM ε σ α) : Prop :=
  Alike (fun s t => s = t ∧ P s) p q

namespace AlikeOn

variable {P : σ → Prop} {p q : EStateM ε σ α} {s : σ}

/-- A program that keeps a property. -/
theorem of_kept (h : ∀ s, P s → P (endOf (p s))) : AlikeOn P p p := by
  rintro s _ ⟨rfl, hs⟩
  have hend := h s hs
  cases hrun : p s with
  | ok a s' =>
      rw [hrun] at hend
      exact .inl ⟨a, s', s', rfl, rfl, rfl, hend⟩
  | error e s' =>
      rw [hrun] at hend
      exact .inr ⟨e, s', s', rfl, rfl, rfl, hend⟩

theorem eq (h : AlikeOn P p q) (hs : P s) : p s = q s := by
  rcases h s s ⟨rfl, hs⟩ with ⟨_, _, _, hp, hq, rfl, -⟩ | ⟨_, _, _, hp, hq, rfl, -⟩
  · rw [hp, hq]
  · rw [hp, hq]

theorem kept (h : AlikeOn P p q) (hs : P s) : P (endOf (p s)) := by
  rcases h s s ⟨rfl, hs⟩ with ⟨_, _, _, hp, -, -, hend⟩ | ⟨_, _, _, hp, -, -, hend⟩
  · rw [hp]
    exact hend
  · rw [hp]
    exact hend

end AlikeOn

namespace Read

/-! ## Code by name -/

section Code

variable {A : ι → Type}

mutual

/-- Calls on a read session.  Values are opened by the name of the code that reads their
fields; that of a dynamic value is the name of its type. -/
inductive Step (ι : Type) (A : ι → Type) : Type → Type 1 where
  | plain {α : Type} (c : Plain α) : Step ι A α
  | nested (t : ι) : Step ι A (Option (A t))
  | dynamic : Step ι A (Option (Sigma A))
  | seq {α : Type} (items : Nat → Routine ι A α) : Step ι A (Option (List α))
  | map {α β : Type} (keys : Nat → Routine ι A α) (values : Nat → Routine ι A β) :
      Step ι A (Option (List (α × β)))

/-- What is done with a read session, but for the fields of the values that are opened. -/
inductive Routine (ι : Type) (A : ι → Type) : Type → Type 1 where
  | done {α : Type} (a : α) : Routine ι A α
  /-- Fails with a fault of the caller's own. -/
  | refuse {α : Type} (fault : Fault) : Routine ι A α
  /-- Asks the session whether it is poisoned. -/
  | look {α : Type} (next : Bool → Routine ι A α) : Routine ι A α
  /-- Makes a call and passes its failure on. -/
  | call {α β : Type} (c : Step ι A β) (next : β → Routine ι A α) : Routine ι A α
  /-- Makes a call and goes on even if it fails. -/
  | attempt {α β : Type} (c : Step ι A β) (next : Except Failure β → Routine ι A α) :
      Routine ι A α

end

/-- A routine for each name, which reads the fields of a value of that type. -/
abbrev Code (ι : Type) (A : ι → Type) : Type 1 := (t : ι) → Routine ι A (A t)

mutual

/-- Makes a call, given the programs that read the fields of values. -/
def Step.run {α : Type} (inner : (t : ι) → Read ι (A t)) : Step ι A α → Read ι α
  | .plain c => c.run
  | .nested t => Read.nested (inner t)
  | .dynamic => Read.dynamic fun t => return ⟨t, ← inner t⟩
  | .seq items => counted .sequence (timesOf fun i => (items i).run inner)
  | .map keys values => counted .mapping (timesOf fun i => do
      let k ← (keys i).run inner
      return (k, ← (values i).run inner))

/-- Runs a routine, given the programs that read the fields of values. -/
def Routine.run {α : Type} (inner : (t : ι) → Read ι (A t)) : Routine ι A α → Read ι α
  | .done a => return a
  | .refuse fault => Read.refuse fault
  | .look next => do (next (← get).poisoned).run inner
  | .call c next => do (next (← c.run inner)).run inner
  | .attempt c next => do (next (← TagWire.attempt (c.run inner))).run inner

end

/-- Runs code in some levels.  A value that is opened below the last of them is read by another
program. -/
def Code.unrolled (code : Code ι A) (below : (t : ι) → Read ι (A t)) :
    Nat → (t : ι) → Read ι (A t)
  | 0 => below
  | levels + 1 => fun t => (code t).run (code.unrolled below levels)

/-- The fault of a session in which no more values may be opened. -/
def exhausted : Read ι α := do fail (.depthExceeded (← get).limits.maxDepth)

/-- Runs code in one level more than the session allows values to be open. -/
def Code.read (code : Code ι A) (t : ι) : Read ι (A t) := do
  code.unrolled (fun _ => exhausted) ((← get).limits.maxDepth + 1) t

end Code

/-! ## Runs that leave as many values open as they found -/

/-- A session with this many values open, under these limits. -/
structure Open (depth : Nat) (limits : Limits) (r : Reader ι) : Prop where
  depth_eq : r.depth = depth
  limits_eq : r.limits = limits

variable {depth : Nat} {limits : Limits}

theorem take_alike (part : Part) (n : Nat) :
    AlikeOn (Open depth limits) (take part n : Read ι (List UInt8)) (take part n) := by
  refine .of_kept fun r h => ?_
  unfold take
  split
  · exact h
  · split
    · exact ⟨h.depth_eq, h.limits_eq⟩
    · exact ⟨h.depth_eq, h.limits_eq⟩

theorem fail_alike (fault : Fault) :
    AlikeOn (Open depth limits) (fail fault : Read ι α) (fail fault) :=
  .of_kept fun _ h => ⟨h.depth_eq, h.limits_eq⟩

theorem Stepwise.alike {p : Read ι α} (h : p.Stepwise) : AlikeOn (Open depth limits) p p := by
  induction h with
  | take part n => exact take_alike part n
  | length? kind =>
      refine .bind (.bind (.bind (take_alike .i32 4) fun _ => .pure _) fun _ => .pure _) fun n =>
        .inspect ?_
      rintro r _ ⟨rfl, -⟩
      split
      · exact .pure none
      · split
        · exact fail_alike _
        · dsimp only
          split
          · exact fail_alike _
          · exact .pure _
  | lookUp tag =>
      refine .inspect ?_
      rintro r _ ⟨rfl, -⟩
      cases r.resolver? with
      | none => exact fail_alike _
      | some resolve =>
          dsimp only
          cases resolve tag with
          | ok t => exact .pure t
          | error fault => exact fail_alike fault
  | fail _ => exact fail_alike _
  | pure a => exact .pure a
  | bind _ _ hp hq => exact hp.bind hq

/-- A value is refused or left again. -/
theorem within_alike {p q : Read ι α}
    (h : depth < limits.maxDepth → AlikeOn (Open (depth + 1) limits) p q) :
    AlikeOn (Open depth limits) (within p) (within q) := by
  rintro r _ ⟨rfl, hr⟩
  by_cases hfull : r.limits.maxDepth ≤ r.depth
  · exact .inr ⟨_, _, _, run_within_full hfull, run_within_full hfull, rfl, hr.depth_eq,
      hr.limits_eq⟩
  · have hroom : depth < limits.maxDepth := by
      rw [← hr.depth_eq, ← hr.limits_eq]
      exact Nat.not_le.mp hfull
    have hentered : Open (depth + 1) limits { r with depth := r.depth + 1 } :=
      ⟨congrArg (· + 1) hr.depth_eq, hr.limits_eq⟩
    rcases h hroom _ _ ⟨rfl, hentered⟩ with ⟨a, s, _, hp, hq, rfl, hs⟩ | ⟨e, s, _, hp, hq, rfl, hs⟩
    · exact .inl ⟨a, _, _, run_within_ok hfull hp, run_within_ok hfull hq, rfl,
        congrArg (· - 1) hs.depth_eq, hs.limits_eq⟩
    · exact .inr ⟨e, _, _, run_within_error hfull hp, run_within_error hfull hq, rfl,
        congrArg (· - 1) hs.depth_eq, hs.limits_eq⟩

theorem whenPresent_alike {p q : Read ι α} (h : AlikeOn (Open depth limits) p q) :
    AlikeOn (Open depth limits) (whenPresent p) (whenPresent q) :=
  Stepwise.bool.alike.bind fun
    | true => h.map some
    | false => .pure none

theorem counted_alike (kind : Sized) {p q : Nat → Read ι α}
    (h : ∀ n, AlikeOn (Open depth limits) (p n) (q n)) :
    AlikeOn (Open depth limits) (counted kind p) (counted kind q) :=
  (Stepwise.length? kind).alike.bind fun
    | none => .pure none
    | some n => (h n).map some

section Code

variable {A : ι → Type} {inner inner' : (t : ι) → Read ι (A t)}

mutual

/-- Runs of a call are the same if the values that it opens are read in the same way, and leave as
many values open as they found. -/
theorem Step.run_alike {α : Type}
    (h : ∀ t, depth < limits.maxDepth → AlikeOn (Open (depth + 1) limits) (inner t) (inner' t)) :
    ∀ c : Step ι A α, AlikeOn (Open depth limits) (c.run inner) (c.run inner')
  | .plain c => c.stepwise.alike
  | .nested t => whenPresent_alike (within_alike (h t))
  | .dynamic => by
      unfold Step.run
      rw [dynamic_eq, dynamic_eq]
      exact whenPresent_alike (dynamicType_stepwise.alike.bind fun t =>
        within_alike fun hroom => (h t hroom).map (Sigma.mk t))
  | .seq items => counted_alike .sequence (.timesOf fun i => (items i).run_alike h)
  | .map keys values => counted_alike .mapping (.timesOf fun i =>
      ((keys i).run_alike h).bind fun k => ((values i).run_alike h).map (k, ·))

/-- Runs of a routine are the same if the values that it opens are read in the same way, and leave
as many values open as they found. -/
theorem Routine.run_alike {α : Type}
    (h : ∀ t, depth < limits.maxDepth → AlikeOn (Open (depth + 1) limits) (inner t) (inner' t)) :
    ∀ routine : Routine ι A α,
      AlikeOn (Open depth limits) (routine.run inner) (routine.run inner')
  | .done a => .pure a
  | .refuse fault => .of_kept fun _ hr => hr
  | .look next => .inspect fun r s hrs => by
      rw [hrs.1]
      exact (next s.poisoned).run_alike h
  | .call c next => (c.run_alike h).bind fun b => (next b).run_alike h
  | .attempt c next => (c.run_alike h).attempt.bind fun e => (next e).run_alike h

end

/-! ## What lies below the levels -/

variable (code : Code ι A) {below below' : (t : ι) → Read ι (A t)}

/-- It makes no difference in how many levels code is run, nor what lies below them, as long as
there is a level for each value that may be opened. -/
theorem Code.unrolled_alike {levels levels' : Nat} (hpos : 0 < levels) (hpos' : 0 < levels')
    (hlevels : limits.maxDepth < depth + levels) (hlevels' : limits.maxDepth < depth + levels')
    (t : ι) :
    AlikeOn (Open depth limits) (code.unrolled below levels t)
      (code.unrolled below' levels' t) := by
  induction levels generalizing levels' depth t with
  | zero => omega
  | succ levels ih =>
      -- A value is opened only if there is room for it, and then each run has a level left.
      obtain ⟨levels', rfl⟩ := Nat.exists_eq_add_of_lt hpos'
      rw [Nat.zero_add] at hlevels' ⊢
      exact (code t).run_alike fun u hroom =>
        ih (by omega) (by omega) (by omega) (by omega) u

/-- Enough levels of code are as good as those of the session. -/
theorem Code.unrolled_alike_read {levels : Nat} (hpos : 0 < levels)
    (hlevels : limits.maxDepth < depth + levels) (t : ι) :
    AlikeOn (Open depth limits) (code.unrolled below levels t) (code.read t) := by
  rintro r _ ⟨rfl, hr⟩
  have hlimits := congrArg Limits.maxDepth hr.limits_eq
  exact code.unrolled_alike hpos (by omega) hlevels (by omega) t r r ⟨rfl, hr⟩

/-- Code leaves as many values open as it found. -/
theorem Code.read_alike (t : ι) : AlikeOn (Open depth limits) (code.read t) (code.read t) := by
  refine .of_kept fun r hr => ?_
  have h : AlikeOn (Open depth limits) (code.unrolled (fun _ => exhausted) (limits.maxDepth + 1) t)
      (code.read t) := code.unrolled_alike_read (by omega) (by omega) t
  rw [← h.eq hr]
  exact h.kept hr

/-- **What lies below is never reached.**  With more levels than values may be open, code is run to
its end in every session. -/
theorem Code.unrolled_eq_read {levels : Nat} {r : Reader ι} (h : r.limits.maxDepth < levels)
    (t : ι) : code.unrolled below levels t r = code.read t r :=
  (code.unrolled_alike_read (by omega) (by omega) t).eq ⟨rfl, rfl⟩

/-- Code calls itself. -/
theorem Code.read_eq (t : ι) : code.read t = (code t).run code.read := by
  funext r
  have hlevels : code.unrolled (fun _ => exhausted) (r.limits.maxDepth + 2) t r = code.read t r :=
    code.unrolled_eq_read (by omega) t
  have hopen : Open r.depth r.limits r := ⟨rfl, rfl⟩
  rw [← hlevels]
  refine AlikeOn.eq ((code t).run_alike fun u _ => ?_) hopen
  exact code.unrolled_alike_read (by omega) (by omega) u

/-- Nothing else calls itself as code does. -/
theorem Code.read_unique {f : (t : ι) → Read ι (A t)} (hf : ∀ t, f t = (code t).run f) :
    f = code.read := by
  -- With such a program below its levels, code is that program in any number of levels.
  have hunrolled : ∀ levels t, code.unrolled f levels t = f t := by
    intro levels
    induction levels with
    | zero => exact fun t => rfl
    | succ levels ih =>
        intro t
        rw [hf t]
        exact congrArg (fun inner => (code t).run inner) (funext ih)
  funext t r
  rw [← hunrolled (r.limits.maxDepth + 1) t, code.unrolled_eq_read (Nat.lt_succ_self _)]

end Code

/-! ## Schemas -/

/-- What is done with a dynamic value may be done after it is read. -/
theorem dynamic_map (p : ι → Read ι α) (f : α → β) :
    (dynamic fun t => return f (← p t)) = (do return (← dynamic p).map f) := by
  rw [dynamic_eq, dynamic_eq]
  simp only [within_map]
  unfold whenPresent
  simp only [bind_assoc]
  refine congrArg _ (funext fun present => ?_)
  cases present with
  | true => simp only [if_true, bind_assoc, pure_bind, Option.map_some]
  | false => rfl

section

variable {A : ι → Type} (inner : (t : ι) → Read ι (A t))

/-- A dynamic value of which something is made. -/
theorem Step.map_run_dynamic (f : Sigma A → β) :
    (Read.dynamic fun t => return f ⟨t, ← inner t⟩) =
      (do return ((← (Step.dynamic : Step ι A (Option (Sigma A))).run inner).map f)) := by
  have hmap := dynamic_map (fun t => return (⟨t, ← inner t⟩ : Sigma A)) f
  simp only [bind_assoc, pure_bind] at hmap
  exact hmap

/-- A sequence whose items have one routine is read by the call for sequences. -/
theorem Step.run_seq_const (item : Routine ι A α) :
    (Step.seq fun _ => item).run inner = Read.seq (item.run inner) :=
  congrArg (counted .sequence) (funext (timesOf_const (item.run inner)))

/-- A mapping whose keys have one routine and whose values have one is read by the call for
mappings. -/
theorem Step.run_map_const (key : Routine ι A α) (value : Routine ι A β) :
    (Step.map (fun _ => key) fun _ => value).run inner =
      Read.map (key.run inner) (value.run inner) :=
  congrArg (counted .mapping) (funext (timesOf_const _))

end

end Read

open Read

variable {S : Schema ι}

/-- A routine that opens records of a schema. -/
abbrev Schema.Routine (S : Schema ι) (α : Type) : Type 1 :=
  Read.Routine ι (fun t => Record S (S t).fields) α

mutual

/-- Reads the value of a field and goes on with it. -/
def Field.routine {α : Type} : (f : Field ι) → (Value S f → S.Routine α) → S.Routine α
  | .scalar s, next => .call (.plain (.scalar s)) fun v => next (.scalar s v)
  | .string, next => .call (.plain .string) fun v => next (.string v)
  | .optional k, next => k.routine fun
      | none => next (.absent k)
      | some item => next (.present k item)
  | .required what k, next => k.routine fun
      | none => .refuse (.missingValue what)
      | some item => next (.required what k item)
  | .guard what, next => next (.guard what false)

/-- Reads a value that may be absent and goes on with it. -/
def Kind.routine {α : Type} : (k : Kind ι) → (Option (Item S k) → S.Routine α) → S.Routine α
  | .leaf l, next => .call (.plain (.leaf l)) fun v => next (v.map (.leaf l))
  | .nested t, next => .call (.nested t) fun fields => next (fields.map (.nested t))
  | .dynamic, next => .call .dynamic fun fields =>
      next (fields.map fun x => .dynamic x.1 x.2)
  | .seq f, next => .call (.seq fun _ => f.routine .done) fun items => next (items.map Item.ofList)
  | .map f, next => .call (.map (fun _ => .call (.plain .string) .done) fun _ => f.routine .done)
      fun pairs => next (pairs.map Item.ofPairs)

end

/-- Reads the fields of a record and goes on with it. -/
def fieldsRoutine {α : Type} : (fs : List (Field ι)) → (Record S fs → S.Routine α) → S.Routine α
  | [], next => next .nil
  | f :: fs, next => f.routine fun v => fieldsRoutine fs fun rest => next (.cons v rest)

/-- The code that reads records of a schema. -/
def Schema.code (S : Schema ι) : Code ι fun t => Record S (S t).fields :=
  fun t => fieldsRoutine (S t).fields .done

mutual

/-- A field is read by its routine. -/
theorem Field.run_routine {α : Type} (inner : (t : ι) → Read ι (Record S (S t).fields)) :
    ∀ (f : Field ι) (next : Value S f → S.Routine α),
      (f.routine next).run inner = f.read inner >>= fun v => (next v).run inner
  | .scalar s, next => by
      rw [Field.routine, Field.read, bind_assoc]
      rfl
  | .string, next => by
      rw [Field.routine, Field.read, bind_assoc]
      rfl
  | .optional k, next => by
      unfold Field.routine Field.read
      rw [k.run_routine inner, bind_assoc]
      refine congrArg _ (funext fun item => ?_)
      cases item <;> rfl
  | .required what k, next => by
      unfold Field.routine Field.read
      rw [k.run_routine inner, bind_assoc]
      refine congrArg _ (funext fun item => ?_)
      cases item <;> rfl
  | .guard what, next => rfl

/-- A value that may be absent is read by its routine. -/
theorem Kind.run_routine {α : Type} (inner : (t : ι) → Read ι (Record S (S t).fields)) :
    ∀ (k : Kind ι) (next : Option (Item S k) → S.Routine α),
      (k.routine next).run inner = k.read inner >>= fun item => (next item).run inner
  | .leaf l, next => by
      rw [Kind.routine, Kind.read, bind_assoc]
      rfl
  | .nested t, next => by
      rw [Kind.routine, Kind.read, bind_assoc]
      rfl
  | .dynamic, next => by
      have hmap := Step.map_run_dynamic inner fun x => Item.dynamic (S := S) x.1 x.2
      rw [Kind.routine, Kind.read, hmap, bind_assoc]
      rfl
  | .seq f, next => by
      have hitem := (f.run_routine inner .done).trans (bind_pure _)
      rw [Kind.routine, Kind.read, bind_assoc, Routine.run, Step.run_seq_const, hitem]
      rfl
  | .map f, next => by
      have hkey : (Routine.call (.plain .string) .done : S.Routine String).run inner =
          Read.string := bind_pure _
      have hvalue := (f.run_routine inner .done).trans (bind_pure _)
      rw [Kind.routine, Kind.read, bind_assoc, Routine.run, Step.run_map_const, hkey, hvalue]
      rfl

end

/-- Fields are read by their routine. -/
theorem run_fieldsRoutine {α : Type} (inner : (t : ι) → Read ι (Record S (S t).fields))
    (fs : List (Field ι)) (next : Record S fs → S.Routine α) :
    (fieldsRoutine fs next).run inner =
      readFields inner fs >>= fun record => (next record).run inner := by
  induction fs with
  | nil => rfl
  | cons f fs ih =>
      unfold fieldsRoutine readFields
      rw [f.run_routine inner, bind_assoc]
      refine congrArg _ (funext fun v => ?_)
      rw [ih, bind_assoc]
      rfl

/-- Records are read by the code of their schema, in any number of levels. -/
theorem readRecord_eq_unrolled (levels : Nat) (t : ι) :
    readRecord levels t = S.code.unrolled (fun _ => exhausted) levels t := by
  induction levels generalizing t with
  | zero => rfl
  | succ levels ih =>
      have hrun :=
        run_fieldsRoutine (S.code.unrolled (fun _ => exhausted) levels) (S t).fields .done
      unfold readRecord
      rw [funext ih]
      exact (hrun.trans (bind_pure _)).symm

/-- Records are read by the code of their schema. -/
theorem Schema.read_eq_code_read (S : Schema ι) (t : ι) : S.read t = S.code.read t := by
  funext r
  exact congrFun (readRecord_eq_unrolled _ t) r

end TagWire
