import TagWire.Proofs.Recognition

/-!
# Two sessions in lockstep

Two read sessions may differ in what a program hardly notices: where their
bytes come from, or what they know of types.  Run on both, a program then takes
the same steps, unless the first session drops out with a failure of its own.

* `Lockstep` — which sessions stand together, and how runs may fail;
* `Lockstep.Keeps` — two programs that go on together, fail at the same place,
  or of which the first drops out;
* `Read.Stepwise` — programs that take a few kinds of steps, as all calls do that run no code of
  their caller's;
* `Lockstep.Sound` — what has to be shown of these steps, which are all that looks at a source,
  a limit or a resolver;
* `Field.keeps`, `Kind.keeps`, `readFields_keeps`, `readRecord_keeps` — that it
  carries over to everything that a session reads.
-/

namespace TagWire

variable {ι α β : Type} {S : Schema ι}

/-- Whether a fault concerns what a session knows of the types of dynamic values. -/
def Fault.aboutTypes : Fault → Bool
  | .unknownType _ | .noResolver _ => true
  | _ => false

/-- Pairs of sessions that are run side by side. -/
structure Lockstep (ι : Type) where
  /-- The sessions that stand together. -/
  Together : Reader ι → Reader ι → Prop
  /-- The failures with which the first session may drop out. -/
  Drops : Failure → Prop
  /-- The failures with which both sessions may end at the same place. -/
  Fails : Failure → Failure → Prop

namespace Lockstep

/-- Two programs that yield the same value on sessions that stand together and leave them so,
or fail both, or of which the first drops out. -/
def Keeps (L : Lockstep ι) (p q : Read ι α) : Prop :=
  ∀ r s, L.Together r s →
    (∃ a r' s', p r = .ok a r' ∧ q s = .ok a s' ∧ L.Together r' s') ∨
    (∃ failure other r' s', p r = .error failure r' ∧ q s = .error other s' ∧
      L.Fails failure other) ∨
    ∃ failure r', p r = .error failure r' ∧ L.Drops failure

variable {L : Lockstep ι}

namespace Keeps

variable {p q : Read ι α} {p' q' : α → Read ι β}

/-- Programs without calls. -/
theorem pure (a : α) : L.Keeps (pure a) (pure a) :=
  fun r s h => .inl ⟨a, r, s, rfl, rfl, h⟩

/-- Programs one after the other. -/
theorem bind (hp : L.Keeps p q) (hq : ∀ a, L.Keeps (p' a) (q' a)) :
    L.Keeps (p >>= p') (q >>= q') := by
  intro r s h
  rcases hp r s h with ⟨a, r', s', hr, hs, h'⟩ | ⟨failure, other, r', s', hr, hs, hf⟩ |
    ⟨failure, r', hr, hf⟩
  · rw [run_bind_ok hr, run_bind_ok hs]
    exact hq a r' s' h'
  · exact .inr (.inl ⟨failure, other, r', s', run_bind_error hr, run_bind_error hs, hf⟩)
  · exact .inr (.inr ⟨failure, r', run_bind_error hr, hf⟩)

/-- Programs whose results are changed afterwards. -/
theorem map (hp : L.Keeps p q) (f : α → β) :
    L.Keeps (do return f (← p)) (do return f (← q)) :=
  hp.bind fun a => .pure (f a)

/-- Faults with which both sessions may end. -/
theorem fail {fault : Fault} (h : L.Fails (.session fault) (.session fault)) :
    L.Keeps (Read.fail fault : Read ι α) (Read.fail fault) :=
  fun _ _ _ => .inr (.inl ⟨_, _, _, _, rfl, rfl, h⟩)

/-- Faults of the caller. -/
theorem refuse {fault : Fault} (h : L.Fails (.caller fault) (.caller fault)) :
    L.Keeps (Read.refuse fault : Read ι α) (Read.refuse fault) :=
  fun _ _ _ => .inr (.inl ⟨_, _, _, _, rfl, rfl, h⟩)

/-- Conversions, which look at no session. -/
theorem converted {e : Except Fault α}
    (h : ∀ fault, e = .error fault → L.Fails (.session fault) (.session fault)) :
    L.Keeps (Read.converted e) (Read.converted e) := by
  cases e with
  | ok a => exact .pure a
  | error fault => exact .fail (h fault rfl)

/-- A number of items. -/
theorem times (hp : L.Keeps p q) (n : Nat) : L.Keeps (Read.times p n) (Read.times q n) := by
  induction n with
  | zero => exact .pure []
  | succ n ih => exact hp.bind fun first => ih.map (first :: ·)

end Keeps

/-- Sessions on one source take the same bytes. -/
theorem keeps_take
    (hsame : ∀ {r s}, L.Together r s → r.poisoned = false ∧ s.poisoned = false ∧ s.source = r.source)
    (htogether : ∀ {r s} (source : Source), L.Together r s →
      L.Together { r with source } { s with source })
    (hfails : ∀ (shortfall : Source.Shortfall) (part : Part),
      L.Fails (.session (shortfall.fault part)) (.session (shortfall.fault part)))
    (part : Part) (n : Nat) : L.Keeps (Read.take part n) (Read.take part n) := by
  intro r s h
  obtain ⟨hr, hs, hsource⟩ := hsame h
  cases hdemand : r.source.demand n with
  | mk outcome source =>
      have hdemand' := hsource ▸ hdemand
      cases outcome with
      | ok bytes =>
          exact .inl ⟨_, _, _, Read.run_take_ok hr part hdemand, Read.run_take_ok hs part hdemand',
            htogether source h⟩
      | error shortfall =>
          exact .inr (.inl ⟨_, _, _, _, Read.run_take_error hr part hdemand,
            Read.run_take_error hs part hdemand', hfails shortfall part⟩)

/-- The resolver's answer for a tag. -/
def lookUp (tag : TypeTag) : Read ι ι := do
  match (← get).resolver? with
  | none => Read.fail (.noResolver tag)
  | some resolve => Read.converted (resolve tag)

theorem lookUp_of_none {r : Reader ι} (h : r.resolver? = none) (tag : TypeTag) :
    lookUp tag r = Read.fail (.noResolver tag) r := by
  unfold lookUp
  rw [run_get_bind, h]

theorem lookUp_of_some {r : Reader ι} {resolve : TypeTag → Except Fault ι}
    (h : r.resolver? = some resolve) (tag : TypeTag) :
    lookUp tag r = Read.converted (resolve tag) r := by
  unfold lookUp
  rw [run_get_bind, h]

/-- Sessions with the same resolver find the same types. -/
theorem keeps_lookUp (hresolver : ∀ {r s}, L.Together r s → r.resolver? = s.resolver?)
    (hfails : ∀ fault : Fault, L.Fails (.session fault) (.session fault)) (tag : TypeTag) :
    L.Keeps (lookUp tag) (lookUp tag) := by
  intro r s h
  cases hr : r.resolver? with
  | none =>
      rw [lookUp_of_none hr, lookUp_of_none ((hresolver h).symm.trans hr)]
      exact Keeps.fail (hfails _) r s h
  | some resolve =>
      rw [lookUp_of_some hr, lookUp_of_some ((hresolver h).symm.trans hr)]
      exact Keeps.converted (fun fault _ => hfails fault) r s h

/-- Looking up a type and going on with it. -/
theorem bind_lookUp (p : ι → Read ι α) (tag : TypeTag) :
    (do
      match (← get).resolver? with
      | none => Read.fail (.noResolver tag)
      | some resolve =>
          let type ← Read.converted (resolve tag)
          p type) = lookUp tag >>= p := by
  funext r
  unfold lookUp
  rw [bind_assoc, run_get_bind, run_get_bind]
  cases r.resolver? <;> rfl

end Lockstep

/-! ## Programs in steps -/

/-- Programs that are put together from a few steps: taking bytes, reading a length, looking up a
type, and failing for a reason that does not concern types. -/
inductive Read.Stepwise : {α : Type} → Read ι α → Prop
  | take (part : Part) (n : Nat) : Stepwise (Read.take part n)
  | length? (kind : Sized) : Stepwise (Read.length? kind)
  | lookUp (tag : TypeTag) : Stepwise (Lockstep.lookUp tag)
  | fail {α : Type} {fault : Fault} (h : fault.aboutTypes = false) :
      Stepwise (Read.fail fault : Read ι α)
  | pure {α : Type} (a : α) : Stepwise (pure a)
  | bind {α β : Type} {p : Read ι α} {q : α → Read ι β} (hp : Stepwise p)
      (hq : ∀ a, Stepwise (q a)) : Stepwise (p >>= q)

namespace Read.Stepwise

theorem map {p : Read ι α} (hp : Stepwise p) (f : α → β) : Stepwise (do return f (← p)) :=
  hp.bind fun a => .pure (f a)

theorem word (part : Part) (width : Nat) : Stepwise (Read.word part width : Read ι Nat) :=
  (take part width).map _

theorem i32 : Stepwise (Read.i32 : Read ι Int32) := (word .i32 4).map _

theorem i64 : Stepwise (Read.i64 : Read ι Int64) := (word .i64 8).map _

theorem bool : Stepwise (Read.bool : Read ι Bool) := (word .bool 1).map _

/-- A conversion whose faults do not concern types. -/
theorem converted {e : Except Fault α} (h : ∀ fault, e = .error fault → fault.aboutTypes = false) :
    Stepwise (Read.converted e : Read ι α) := by
  cases e with
  | ok a => exact .pure a
  | error fault => exact .fail (h fault rfl)

/-- A conversion with faults of its own. -/
theorem converted_mapError {ε : Type} {e : Except ε α} {f : ε → Fault}
    (h : ∀ cause, (f cause).aboutTypes = false) :
    Stepwise (Read.converted (e.mapError f) : Read ι α) := by
  cases e with
  | ok a => exact .pure a
  | error cause => exact .fail (h cause)

theorem envelope : Stepwise (Read.envelope : Read ι TypeTag) :=
  (word .magicNumber 4).bind fun n => by
    dsimp only
    split
    · exact i32.map TypeTag.mk
    · exact .fail rfl

theorem expectEnvelope (expected : TypeTag) :
    Stepwise (Read.expectEnvelope expected : Read ι Unit) :=
  envelope.bind fun found => by
    split
    · exact .pure ()
    · exact .fail rfl

theorem length (kind : Sized) : Stepwise (Read.length kind : Read ι Nat) :=
  (length? kind).bind fun
    | some n => .pure n
    | none => .fail rfl

/-- What follows a byte that marks presence. -/
theorem whenPresent {p : Read ι α} (hp : Stepwise p) : Stepwise (Read.whenPresent p) :=
  bool.bind fun
    | true => hp.map some
    | false => .pure none

theorem text : Stepwise (Read.text : Read ι (Option String)) :=
  (length? .text).bind fun
    | none => .pure none
    | some n => (take .text n).bind fun _ => (converted_mapError fun _ => rfl).map some

theorem string : Stepwise (Read.string : Read ι String) :=
  text.bind fun
    | some v => .pure v
    | none => .fail rfl

theorem decimal : Stepwise (Read.decimal : Read ι (Option Decimal)) :=
  whenPresent <| i32.bind fun _ => (length .decimalMagnitude).bind fun n =>
    (take .decimalMagnitude n).bind fun _ => converted_mapError fun _ => rfl

theorem fixed : Stepwise (Read.fixed : Read ι (Option FixedDecimal)) :=
  decimal.bind fun
    | none => .pure none
    | some _ => (converted_mapError fun _ => rfl).map some

theorem enumName {V : Type} (e : Enumeration V) :
    Stepwise (Read.enumName e : Read ι (Option V)) :=
  text.bind fun
    | none => .pure none
    | some name => by
        dsimp only
        cases e.ofName? name with
        | some v => exact .pure (some v)
        | none => exact .fail rfl

theorem enumOrdinal {V : Type} (e : Enumeration V) :
    Stepwise (Read.enumOrdinal e : Read ι (Option V)) :=
  i32.bind fun ordinal => by
    split
    · exact .pure none
    · cases e.ofOrdinal? ordinal with
      | some v => exact .pure (some v)
      | none => exact .fail rfl

theorem date : Stepwise (Read.date : Read ι (Option Date)) := by
  refine whenPresent <| i64.bind fun day => converted fun fault h => ?_
  unfold Date.ofDay at h
  split at h
  · cases h
  · cases h
    rfl

theorem timestamp : Stepwise (Read.timestamp : Read ι (Option DateTime)) := by
  refine whenPresent <| i64.bind fun seconds => i32.bind fun nanos => converted fun fault h => ?_
  unfold DateTime.ofTimestamp at h
  dsimp only at h
  split at h
  · cases h
  · cases h
    rfl

theorem dateTime : Stepwise (Read.dateTime : Read ι (Option DateTime)) := by
  refine whenPresent <| i64.bind fun day => i64.bind fun nano => converted fun fault h => ?_
  unfold DateTime.ofDayAndNano Date.ofDay at h
  split at h
  · dsimp only [bind, Except.bind] at h
    split at h
    · cases h
    · cases h
      rfl
  · cases h
    rfl

theorem bytes : Stepwise (Read.bytes : Read ι (Option (List UInt8))) :=
  whenPresent <| (length .bytes).bind fun n => take .bytes n

end Read.Stepwise

/-- Scalars are read in steps. -/
theorem Scalar.stepwise (s : Scalar) : Read.Stepwise (s.read : Read ι s.Carrier) := by
  cases s with
  | i32 => exact .i32
  | i64 => exact .i64
  | f32 => exact (Read.Stepwise.word .f32 4).map _
  | f64 => exact (Read.Stepwise.word .f64 8).map _
  | bool => exact .bool
  | i8 => exact (Read.Stepwise.word .i8 1).map _
  | i16 => exact (Read.Stepwise.word .i16 2).map _
  | codeUnit => exact (Read.Stepwise.word .codeUnit 2).map _

/-- Leaves are read in steps. -/
theorem Leaf.stepwise (l : Leaf) : Read.Stepwise (l.read : Read ι (Option l.Carrier)) := by
  cases l with
  | text => exact .text
  | decimal => exact .decimal
  | fixed => exact .fixed
  | date => exact .date
  | timestamp => exact .timestamp
  | dateTime => exact .dateTime
  | bytes => exact .bytes
  | enumName e => exact .enumName e
  | enumOrdinal e => exact .enumOrdinal e

namespace Lockstep

variable {L : Lockstep ι}

/-- What the calls that look at more than the bytes have to satisfy. -/
structure Sound (L : Lockstep ι) : Prop where
  take : ∀ part n, L.Keeps (Read.take part n) (Read.take part n)
  length? : ∀ kind, L.Keeps (Read.length? kind) (Read.length? kind)
  within : ∀ {α : Type} {p q : Read ι α}, L.Keeps p q → L.Keeps (Read.within p) (Read.within q)
  lookUp : ∀ tag, L.Keeps (lookUp tag) (lookUp tag)
  fails : ∀ fault : Fault, fault.aboutTypes = false →
    L.Fails (.session fault) (.session fault)
  refuses : ∀ what, L.Fails (.caller (.missingValue what)) (.caller (.missingValue what))

/-- Sessions that stand together under the same limits with as many values open. -/
structure Level (L : Lockstep ι) : Prop where
  limits_eq : ∀ {r s}, L.Together r s → r.limits = s.limits
  depth_eq : ∀ {r s}, L.Together r s → r.depth = s.depth
  withDepth : ∀ {r s} (depth : Nat), L.Together r s →
    L.Together { r with depth } { s with depth }

namespace Level

variable (hlevel : L.Level)
include hlevel

/-- A length or a count is checked against the same limit. -/
theorem length? (htake : ∀ part n, L.Keeps (Read.take part n) (Read.take part n))
    (hfails : ∀ fault : Fault, fault.aboutTypes = false →
      L.Fails (.session fault) (.session fault))
    (kind : Sized) : L.Keeps (Read.length? kind) (Read.length? kind) := by
  refine Keeps.bind (((htake .i32 4).map _).map _) fun n => ?_
  intro r s h
  rw [run_get_bind, run_get_bind, ← hlevel.limits_eq h]
  split
  · exact .inl ⟨none, r, s, rfl, rfl, h⟩
  · split
    · exact Keeps.fail (hfails _ rfl) r s h
    · split
      · exact Keeps.fail (hfails _ rfl) r s h
      · exact .inl ⟨_, r, s, rfl, rfl, h⟩

/-- A value is entered with as many open on both sides. -/
theorem within
    (hfails : ∀ fault : Fault, fault.aboutTypes = false →
      L.Fails (.session fault) (.session fault))
    {p q : Read ι α} (hp : L.Keeps p q) : L.Keeps (Read.within p) (Read.within q) := by
  intro r s h
  by_cases hfull : r.limits.maxDepth ≤ r.depth
  · have hfull' : s.limits.maxDepth ≤ s.depth := by
      rw [← hlevel.limits_eq h, ← hlevel.depth_eq h]
      exact hfull
    rw [Read.run_within_full hfull, Read.run_within_full hfull', ← hlevel.limits_eq h]
    exact .inr (.inl ⟨_, _, _, _, rfl, rfl, hfails _ rfl⟩)
  have hroom : ¬ s.limits.maxDepth ≤ s.depth := by
    rw [← hlevel.limits_eq h, ← hlevel.depth_eq h]
    exact hfull
  have hdeeper := hlevel.withDepth (r.depth + 1) h
  nth_rewrite 2 [hlevel.depth_eq h] at hdeeper
  rcases hp _ _ hdeeper with ⟨a, r', s', hr, hs, h'⟩ | ⟨failure, other, r', s', hr, hs, hf⟩ |
    ⟨failure, r', hr, hf⟩
  · rw [Read.run_within_ok hfull hr, Read.run_within_ok hroom hs, ← hlevel.depth_eq h']
    exact .inl ⟨a, _, _, rfl, rfl, hlevel.withDepth _ h'⟩
  · rw [Read.run_within_error hfull hr, Read.run_within_error hroom hs]
    exact .inr (.inl ⟨failure, other, _, _, rfl, rfl, hf⟩)
  · rw [Read.run_within_error hfull hr]
    exact .inr (.inr ⟨failure, _, rfl, hf⟩)

/-- At the same level, only taking bytes and looking up types is left to be shown. -/
theorem sound (htake : ∀ part n, L.Keeps (Read.take part n) (Read.take part n))
    (hlookUp : ∀ tag, L.Keeps (Lockstep.lookUp tag) (Lockstep.lookUp tag))
    (hfails : ∀ fault : Fault, fault.aboutTypes = false →
      L.Fails (.session fault) (.session fault))
    (hrefuses : ∀ what, L.Fails (.caller (.missingValue what)) (.caller (.missingValue what))) :
    L.Sound where
  take := htake
  length? := hlevel.length? htake hfails
  within := hlevel.within hfails
  lookUp := hlookUp
  fails := hfails
  refuses := hrefuses

end Level

namespace Sound

variable (hL : L.Sound)
include hL

/-- Programs in steps go in lockstep with themselves. -/
theorem keeps {p : Read ι α} (h : p.Stepwise) : L.Keeps p p := by
  induction h with
  | take part n => exact hL.take part n
  | length? kind => exact hL.length? kind
  | lookUp tag => exact hL.lookUp tag
  | fail h => exact .fail (hL.fails _ h)
  | pure a => exact .pure a
  | bind _ _ hp hq => exact hp.bind hq

/-- What follows a byte that marks presence. -/
theorem whenPresent {p q : Read ι α} (hp : L.Keeps p q) :
    L.Keeps (Read.whenPresent p) (Read.whenPresent q) :=
  (hL.keeps .bool).bind fun
    | true => hp.map some
    | false => .pure none

theorem nested {p q : Read ι α} (hp : L.Keeps (Read.within p) (Read.within q)) :
    L.Keeps (Read.nested p) (Read.nested q) :=
  hL.whenPresent hp

/-- Dynamic values, whose types are looked up. -/
theorem dynamic {p q : ι → Read ι α}
    (hp : ∀ t, L.Keeps (Read.within (p t)) (Read.within (q t))) :
    L.Keeps (Read.dynamic p) (Read.dynamic q) := by
  refine hL.whenPresent ((hL.keeps .i32).bind fun value => ?_)
  have hboth := (hL.lookUp ⟨value⟩).bind hp
  rw [← bind_lookUp, ← bind_lookUp] at hboth
  exact hboth

theorem seq {p q : Read ι α} (hp : L.Keeps p q) : L.Keeps (Read.seq p) (Read.seq q) :=
  (hL.length? .sequence).bind fun
    | none => .pure none
    | some n => (hp.times n).map some

theorem mapping {p q : Read ι α} {p' q' : Read ι β} (hp : L.Keeps p q) (hp' : L.Keeps p' q') :
    L.Keeps (Read.map p p') (Read.map q q') :=
  (hL.length? .mapping).bind fun
    | none => .pure none
    | some n => ((hp.bind fun k => hp'.map (k, ·)).times n).map some

end Sound

end Lockstep

/-! ## Fields, kinds and records -/

section Recursion

variable {L : Lockstep ι} (hL : L.Sound)
variable {inner inner' : (t : ι) → Read ι (Record S (S t).fields)}
include hL

mutual

/-- Fields are read in lockstep when the records in them are. -/
theorem Field.keeps (hinner : ∀ t, L.Keeps (Read.within (inner t)) (Read.within (inner' t))) :
    ∀ f : Field ι, L.Keeps (f.read inner) (f.read inner')
  | .scalar s => (hL.keeps s.stepwise).map (Value.scalar (S := S) s)
  | .string => (hL.keeps .string).map (Value.string (S := S))
  | .optional k => Lockstep.Keeps.bind (Kind.keeps hinner k) fun
      | none => .pure (Value.absent (S := S) k)
      | some item => .pure (Value.present k item)
  | .required what k => Lockstep.Keeps.bind (Kind.keeps hinner k) fun
      | none => .refuse (hL.refuses what)
      | some item => .pure (Value.required what k item)
  | .guard what => .pure (Value.guard (S := S) what false)

/-- Kinds are read in lockstep when the records in them are. -/
theorem Kind.keeps (hinner : ∀ t, L.Keeps (Read.within (inner t)) (Read.within (inner' t))) :
    ∀ k : Kind ι, L.Keeps (k.read inner) (k.read inner')
  | .leaf l => (hL.keeps l.stepwise).map fun o => o.map (Item.leaf (S := S) l)
  | .nested t => (hL.nested (hinner t)).map fun o => o.map (Item.nested (S := S) t)
  | .dynamic => hL.dynamic fun t => by
      rw [Read.within_map, Read.within_map]
      exact (hinner t).map (Item.dynamic (S := S) t)
  | .seq f => (hL.seq (Field.keeps hinner f)).map fun o => o.map (Item.ofList (S := S))
  | .map f =>
      (hL.mapping (hL.keeps .string) (Field.keeps hinner f)).map fun o => o.map (Item.ofPairs (S := S))

end

/-- Records are read in lockstep, field by field. -/
theorem readFields_keeps
    (hinner : ∀ t, L.Keeps (Read.within (inner t)) (Read.within (inner' t))) :
    ∀ fs : List (Field ι), L.Keeps (readFields inner fs) (readFields inner' fs)
  | [] => .pure (Record.nil (S := S))
  | f :: fs => (Field.keeps hL hinner f).bind fun v =>
      (readFields_keeps hinner fs).map fun rest => Record.cons v rest

/-- Records are read in lockstep to any depth. -/
theorem readRecord_keeps (hlevel : L.Level) (levels : Nat) :
    ∀ t : ι, L.Keeps (readRecord (S := S) levels t) (readRecord (S := S) levels t) := by
  induction levels with
  | zero =>
      intro t r s h
      have hfail : L.Keeps (Read.fail (.depthExceeded r.limits.maxDepth) :
          Read ι (Record S (S t).fields)) (Read.fail (.depthExceeded r.limits.maxDepth)) :=
        hL.keeps (.fail rfl)
      unfold readRecord
      rw [run_get_bind, run_get_bind, ← hlevel.limits_eq h]
      exact hfail r s h
  | succ levels ih => exact fun t => readFields_keeps hL (fun t => hL.within (ih t)) (S t).fields

/-- Whole records are read in lockstep. -/
theorem Schema.read_keeps (hlevel : L.Level) (t : ι) :
    L.Keeps (S.read t) (S.read t) := by
  intro r s h
  unfold Schema.read
  rw [run_get_bind, run_get_bind, ← hlevel.limits_eq h]
  exact readRecord_keeps hL hlevel _ t r s h

end Recursion

end TagWire
