import TagWire.Proofs.Reading

/-!
# The reader accepts exactly its grammar

The calls that hold other calls are treated like those for single values, and
the recursion follows that of the reader: over fields and kinds while the
levels stay, and over the levels where a nested or dynamic value is entered.

* `Read.recognises_within` — entering a value uses one level;
* `Field.recognises`, `Kind.recognises` — fields and kinds, given what is nested
  in them;
* `readFields_recognises` — the fields of a record at any number of levels;
* `readFields_takes_iff_spelled` — what a new session reads from which bytes.
-/

namespace TagWire

variable {ι α β : Type} {S : Schema ι}

namespace Read

variable {r : Reader ι} {p : Read ι α} {P : α → List UInt8 → Prop}

namespace Recognises

/-- A value that may be absent, changed where it is there. -/
theorem mapOption {absence : List UInt8} {p : Read ι (Option α)}
    (hp : Recognises r p (Optional absence P)) (f : α → β) :
    Recognises r (do return (← p).map f) (Optional absence fun b w => ∃ a, b = f a ∧ P a w) := by
  apply (hp.map fun o => o.map f).congr
  intro o w
  constructor
  · intro h
    rcases h with ⟨found, rfl, h⟩
    cases found with
    | none => exact h
    | some a => exact ⟨a, rfl, h⟩
  · intro h
    cases o with
    | none => exact ⟨none, rfl, h⟩
    | some b =>
        obtain ⟨a, rfl, h⟩ := h
        exact ⟨some a, rfl, h⟩

/-- A number of items accepts the bytes of all of them. -/
theorem times (hp : Recognises r p P) {R : List α → List UInt8 → Prop}
    (hnil : ∀ w, R [] w ↔ w = [])
    (hcons : ∀ a rest w, R (a :: rest) w ↔ ∃ u v, w = u ++ v ∧ P a u ∧ R rest v) (n : Nat) :
    Recognises r (Read.times p n) fun items w => items.length = n ∧ R items w := by
  induction n with
  | zero =>
      apply (recognises_pure []).congr
      intro items w
      constructor
      · intro h
        rcases h with ⟨rfl, rfl⟩
        exact ⟨rfl, (hnil []).mpr rfl⟩
      · intro h
        rcases h with ⟨hlength, hR⟩
        obtain rfl := List.eq_nil_of_length_eq_zero hlength
        exact ⟨rfl, (hnil w).mp hR⟩
  | succ n ih =>
      apply (hp.bind fun first => ih.map (first :: ·)).congr
      intro items w
      constructor
      · intro h
        rcases h with ⟨first, u, v, rfl, hP, rest, rfl, hlength, hR⟩
        exact ⟨congrArg (· + 1) hlength, (hcons first rest _).mpr ⟨u, v, rfl, hP, hR⟩⟩
      · intro h
        rcases h with ⟨hlength, hR⟩
        cases items with
        | nil => cases hlength
        | cons first rest =>
            obtain ⟨u, v, rfl, hP, hR⟩ := (hcons first rest w).mp hR
            exact ⟨first, u, v, rfl, hP, rest, rfl, Nat.succ.inj hlength, hR⟩

end Recognises

/-- A pair of a mapping is a text that must be there and a value. -/
theorem recognises_pair (hr : r.poisoned = false) (hp : Recognises r p P) :
    Recognises r
      (do
        let k ← string
        return (k, ← p))
      fun pair w => ∃ t u, w = t ++ u ∧ r.rules.Text pair.1 t ∧ P pair.2 u := by
  apply ((recognises_string hr).bind fun k => hp.map fun v => (k, v)).congr
  intro pair w
  constructor
  · intro h
    rcases h with ⟨k, t, u, rfl, hk, v, rfl, hv⟩
    exact ⟨t, u, rfl, hk, hv⟩
  · intro h
    rcases h with ⟨t, u, rfl, hk, hv⟩
    exact ⟨pair.1, t, u, rfl, hk, pair.2, rfl, hv⟩

/-- No value is entered when no level is left. -/
theorem recognises_within_full (hfull : r.limits.maxDepth ≤ r.depth) :
    Recognises r (within p) fun _ _ => False := by
  intro b a r'
  unfold within
  rw [if_pos (show (r.on b).limits.maxDepth ≤ (r.on b).depth from hfull)]
  exact recognises_fail _ b a r'

/-- A value is entered with one more value open. -/
theorem recognises_within (hroom : r.depth < r.limits.maxDepth)
    (hp : Recognises { r with depth := r.depth + 1 } p P) : Recognises r (within p) P := by
  intro b a r'
  have hinner := hp b a
  unfold within
  rw [if_neg (show ¬ (r.on b).limits.maxDepth ≤ (r.on b).depth from Nat.not_le.mpr hroom)]
  cases hrun : p { r.on b with depth := (r.on b).depth + 1 } with
  | error failure s =>
      constructor
      · intro h
        cases h
      · intro h
        rcases h with ⟨w, rest, rfl, hP, rfl⟩
        cases hrun.symm.trans ((hinner _).mpr ⟨w, rest, rfl, hP, rfl⟩)
  | ok found s =>
      constructor
      · intro h
        cases h
        obtain ⟨w, rest, rfl, hP, rfl⟩ := (hinner s).mp hrun
        exact ⟨w, rest, rfl, hP, rfl⟩
      · intro h
        rcases h with ⟨w, rest, rfl, hP, rfl⟩
        cases hrun.symm.trans ((hinner _).mpr ⟨w, rest, rfl, hP, rfl⟩)
        rfl

/-- A dynamic value is one of the type that the resolver finds for its tag. -/
theorem recognises_dynamic (hr : r.poisoned = false) {fields : ι → Read ι α}
    {R : ι → α → List UInt8 → Prop} (hfields : ∀ t, Recognises r (within (fields t)) (R t)) :
    Recognises r (dynamic fields) (Optional [0] fun a => r.rules.Present fun w =>
      ∃ (tag : TypeTag) (t : ι) (u : List UInt8), w = word32 tag.value ++ u ∧
        r.rules.knows tag t ∧ R t a u) := by
  refine Recognises.congr (p := dynamic fields) (recognises_whenPresent hr
    ((recognises_i32 hr).bind (Q := fun value a w => ∃ t, r.rules.knows ⟨value⟩ t ∧ R t a w)
      fun value => .get ?_ fun b => rfl)) fun o w => ?_
  · cases hresolver : r.resolver? with
    | none =>
        apply (recognises_fail _).congr
        intro a w
        simp [Reader.rules, Rules.of, hresolver]
    | some resolve =>
        apply ((recognises_converted (resolve ⟨value⟩)).bind hfields).congr
        intro a w
        simp only [Reader.rules, Rules.of, hresolver]
        constructor
        · intro h
          rcases h with ⟨t, _, u, rfl, ⟨hknows, rfl⟩, hR⟩
          exact ⟨t, ⟨resolve, rfl, hknows⟩, hR⟩
        · intro h
          rcases h with ⟨t, ⟨found, hfound, hknows⟩, hR⟩
          cases hfound
          exact ⟨t, [], w, rfl, ⟨hknows, rfl⟩, hR⟩
  cases o with
  | none => exact Iff.rfl
  | some a =>
      constructor
      · intro h
        rcases h with ⟨flag, _, rfl, hmarks, tag, _, u, rfl, rfl, t, hknows, hR⟩
        exact ⟨flag, _, rfl, hmarks, ⟨tag⟩, t, u, rfl, hknows, hR⟩
      · intro h
        rcases h with ⟨flag, _, rfl, hmarks, tag, t, u, rfl, hknows, hR⟩
        exact ⟨flag, _, rfl, hmarks, tag.value, _, u, rfl, rfl, t, hknows, hR⟩

end Read

/-! ## What the productions say of one value -/

section Inversion

variable {g : Rules ι} {levels : Nat} {w : List UInt8}

/-- No bytes spell the items of an empty sequence. -/
theorem spelledList_nil_iff {f : Field ι} :
    SpelledList g levels ([] : List (Value S f)) w ↔ w = [] := by
  constructor
  · intro h
    cases h
    rfl
  · intro h
    subst h
    exact .nil

/-- Items are spelled one after the other. -/
theorem spelledList_cons_iff {f : Field ι} {v : Value S f} {rest : List (Value S f)} :
    SpelledList g levels (v :: rest) w ↔
      ∃ a b, w = a ++ b ∧ Value.Spelled g levels v a ∧ SpelledList g levels rest b := by
  constructor
  · intro h
    cases h with
    | cons hv hrest => exact ⟨_, _, rfl, hv, hrest⟩
  · intro h
    rcases h with ⟨a, b, rfl, hv, hrest⟩
    exact .cons hv hrest

/-- No bytes spell the pairs of an empty mapping. -/
theorem spelledPairs_nil_iff {f : Field ι} :
    SpelledPairs g levels ([] : List (String × Value S f)) w ↔ w = [] := by
  constructor
  · intro h
    cases h
    rfl
  · intro h
    subst h
    exact .nil

/-- Pairs are spelled one after the other, each key before its value. -/
theorem spelledPairs_cons_iff {f : Field ι} {pair : String × Value S f}
    {rest : List (String × Value S f)} :
    SpelledPairs g levels (pair :: rest) w ↔
      ∃ a b, w = a ++ b ∧
        (∃ t u, a = t ++ u ∧ g.Text pair.1 t ∧ Value.Spelled g levels pair.2 u) ∧
        SpelledPairs g levels rest b := by
  constructor
  · intro h
    cases h with
    | cons hkey hv hrest => exact ⟨_, _, rfl, ⟨_, _, rfl, hkey, hv⟩, hrest⟩
  · intro h
    rcases h with ⟨_, b, rfl, ⟨t, u, rfl, hkey, hv⟩, hrest⟩
    exact .cons hkey hv hrest

end Inversion

/-! ## Fields, kinds and records -/

section Recursion

variable {r : Reader ι} {levels : Nat} {inner : (t : ι) → Read ι (Record S (S t).fields)}

/-- What reading the fields of a nested or dynamic value accepts: a record with one level
less. -/
def Entered (g : Rules ι) (levels : Nat) {fs : List (Field ι)} (record : Record S fs)
    (w : List UInt8) : Prop :=
  ∃ below, levels = below + 1 ∧ Record.Spelled g below record w

/-- A scalar field is read from the spellings of the scalar. -/
theorem Field.recognises_scalar (hr : r.poisoned = false) (s : Scalar) :
    Read.Recognises r ((Field.scalar s).read inner) (Value.Spelled r.rules levels) := by
  apply ((s.recognises hr).map (Value.scalar (S := S) s)).congr
  intro v w
  constructor
  · intro h
    rcases h with ⟨a, rfl, h⟩
    exact .scalar h
  · intro h
    cases h with
    | scalar h => exact ⟨_, rfl, h⟩

/-- Text that is always present is read from its one spelling. -/
theorem Field.recognises_string (hr : r.poisoned = false) :
    Read.Recognises r (Field.string.read inner) (Value.Spelled r.rules levels) := by
  apply ((Read.recognises_string hr).map (Value.string (S := S))).congr
  intro v w
  constructor
  · intro h
    rcases h with ⟨a, rfl, h⟩
    exact .string h
  · intro h
    cases h with
    | string h => exact ⟨_, rfl, h⟩

/-- A value that may be absent is read from its spellings or from its absence. -/
theorem Field.recognises_optional {k : Kind ι}
    (hk : Read.Recognises r (k.read inner)
      (Read.Optional k.absence (Item.Spelled r.rules levels))) :
    Read.Recognises r ((Field.optional k).read inner) (Value.Spelled r.rules levels) := by
  refine Read.Recognises.congr (p := Field.read inner (.optional k))
    (hk.bind (Q := fun o v w => w = [] ∧
      (o = none ∧ v = .absent k ∨ ∃ item, o = some item ∧ v = .present k item)) fun o => ?_)
        fun v w => ?_
  · cases o with
    | none => exact (Read.recognises_pure _).congr fun v w => by simp [and_comm]
    | some item => exact (Read.recognises_pure _).congr fun v w => by simp [and_comm]
  · constructor
    · intro h
      rcases h with ⟨_, u, _, rfl, hk, rfl, ⟨rfl, rfl⟩ | ⟨item, rfl, rfl⟩⟩
      · obtain rfl := hk
        rw [List.append_nil]
        exact .absent k
      · rw [List.append_nil]
        exact .present hk
    · intro h
      cases h with
      | absent => exact ⟨none, _, [], (List.append_nil _).symm, rfl, rfl, .inl ⟨rfl, rfl⟩⟩
      | present h =>
          exact ⟨some _, w, [], (List.append_nil w).symm, h, rfl, .inr ⟨_, rfl, rfl⟩⟩

/-- A required value is read from its spellings only. -/
theorem Field.recognises_required {what : String} {k : Kind ι}
    (hk : Read.Recognises r (k.read inner)
      (Read.Optional k.absence (Item.Spelled r.rules levels))) :
    Read.Recognises r ((Field.required what k).read inner) (Value.Spelled r.rules levels) := by
  refine Read.Recognises.congr (p := Field.read inner (.required what k))
    (hk.bind (Q := fun o v w => w = [] ∧
      ∃ item, o = some item ∧ v = .required what k item) fun o => ?_) fun v w => ?_
  · cases o with
    | none => exact (Read.recognises_refuse _).congr fun v w => by simp
    | some item => exact (Read.recognises_pure _).congr fun v w => by simp [and_comm]
  · constructor
    · intro h
      rcases h with ⟨_, u, _, rfl, hk, rfl, item, rfl, rfl⟩
      rw [List.append_nil]
      exact .required hk
    · intro h
      cases h with
      | required h => exact ⟨some _, w, [], (List.append_nil w).symm, h, rfl, _, rfl, rfl⟩

/-- A switch takes no bytes. -/
theorem Field.recognises_guard (what : String) :
    Read.Recognises r ((Field.guard what).read inner) (Value.Spelled r.rules levels) := by
  apply (Read.recognises_pure (Value.guard (S := S) what false)).congr
  intro v w
  constructor
  · intro h
    rcases h with ⟨rfl, rfl⟩
    exact .guard what
  · intro h
    cases h
    exact ⟨rfl, rfl⟩

/-- A leaf is read from its spellings, or from its absence. -/
theorem Kind.recognises_leaf (hr : r.poisoned = false) (l : Leaf) :
    Read.Recognises r ((Kind.leaf l).read inner)
      (Read.Optional (Kind.leaf (ι := ι) l).absence (Item.Spelled r.rules levels)) := by
  apply ((l.recognises hr).mapOption (Item.leaf (S := S) l)).congr
  intro o w
  cases o with
  | none => exact Iff.rfl
  | some item =>
      constructor
      · intro h
        rcases h with ⟨v, rfl, h⟩
        exact .leaf h
      · intro h
        cases h with
        | leaf h => exact ⟨_, rfl, h⟩

/-- A nested record is read behind a byte that marks it, one level down. -/
theorem Kind.recognises_nested (hr : r.poisoned = false) {t : ι}
    (ht : Read.Recognises r (Read.within (inner t)) (Entered r.rules levels)) :
    Read.Recognises r ((Kind.nested t).read inner)
      (Read.Optional (Kind.nested t).absence (Item.Spelled r.rules levels)) := by
  refine ((Read.recognises_whenPresent hr ht).mapOption (Item.nested (S := S) t)).congr
    fun o w => ?_
  cases o with
  | none => exact Iff.rfl
  | some item =>
      constructor
      · intro h
        rcases h with ⟨fields, rfl, flag, u, rfl, hmarks, below, rfl, h⟩
        exact .nested hmarks h
      · intro h
        cases h with
        | nested hmarks h => exact ⟨_, rfl, _, _, rfl, hmarks, _, rfl, h⟩

/-- A dynamic value is read behind its mark and its tag, one level down and as the type that
the tag resolves to. -/
theorem Kind.recognises_dynamic (hr : r.poisoned = false)
    (hinner : ∀ t, Read.Recognises r (Read.within (inner t)) (Entered r.rules levels)) :
    Read.Recognises r (Kind.dynamic.read inner)
      (Read.Optional (Kind.dynamic (ι := ι)).absence (Item.Spelled r.rules levels)) := by
  have hfields : ∀ t, Read.Recognises r
      (Read.within (do return Item.dynamic (S := S) t (← inner t)))
      fun item w => ∃ fields, item = .dynamic t fields ∧ Entered r.rules levels fields w := by
    intro t
    rw [Read.within_map]
    exact (hinner t).map (Item.dynamic (S := S) t)
  apply (Read.recognises_dynamic hr hfields).congr
  intro o w
  cases o with
  | none => exact Iff.rfl
  | some item =>
      constructor
      · intro h
        rcases h with ⟨flag, _, rfl, hmarks, tag, t, u, rfl, hknows, fields, rfl, below, rfl, h⟩
        exact .dynamic hmarks hknows h
      · intro h
        cases h with
        | dynamic hmarks hknows h =>
            exact ⟨_, _, rfl, hmarks, _, _, _, rfl, hknows, _, rfl, _, rfl, h⟩

/-- A sequence is read behind its length, item by item. -/
theorem Kind.recognises_seq (hr : r.poisoned = false) {f : Field ι}
    (hf : Read.Recognises r (f.read inner) (Value.Spelled r.rules levels)) :
    Read.Recognises r ((Kind.seq f).read inner)
      (Read.Optional (Kind.seq f).absence (Item.Spelled r.rules levels)) := by
  have hitems : ∀ n, Read.Recognises r (do return some (← Read.times (f.read inner) n))
      fun o w => ∃ values, o = some values ∧ values.length = n ∧
        SpelledList r.rules levels values w := fun n =>
    (hf.times (fun _ => spelledList_nil_iff) (fun _ _ _ => spelledList_cons_iff) n).map some
  have hseq : Read.Recognises r (Read.seq (f.read inner)) (Read.Optional _ _) :=
    (Read.recognises_length? hr .sequence).optional rfl hitems
  apply (hseq.mapOption (Item.ofList (S := S))).congr
  intro o w
  cases o with
  | none => exact Iff.rfl
  | some item =>
      constructor
      · intro h
        rcases h with ⟨values, rfl, n, _, u, rfl, ⟨hfits, rfl⟩, rfl, h⟩
        exact .seq values rfl hfits h
      · intro h
        cases h with
        | seq values heq hfits h => exact ⟨values, heq, _, _, _, rfl, ⟨hfits, rfl⟩, rfl, h⟩

/-- A mapping is read behind the number of its pairs, pair by pair. -/
theorem Kind.recognises_map (hr : r.poisoned = false) {f : Field ι}
    (hf : Read.Recognises r (f.read inner) (Value.Spelled r.rules levels)) :
    Read.Recognises r ((Kind.map f).read inner)
      (Read.Optional (Kind.map f).absence (Item.Spelled r.rules levels)) := by
  have hpairs : ∀ n, Read.Recognises r
      (do
        return some (← Read.times (do
          let k ← Read.string
          return (k, ← f.read inner)) n))
      fun o w => ∃ pairs, o = some pairs ∧ pairs.length = n ∧
        SpelledPairs r.rules levels pairs w := fun n =>
    ((Read.recognises_pair hr hf).times (fun _ => spelledPairs_nil_iff)
      (fun _ _ _ => spelledPairs_cons_iff) n).map some
  have hmap : Read.Recognises r (Read.map Read.string (f.read inner)) (Read.Optional _ _) :=
    (Read.recognises_length? hr .mapping).optional rfl hpairs
  apply (hmap.mapOption (Item.ofPairs (S := S))).congr
  intro o w
  cases o with
  | none => exact Iff.rfl
  | some item =>
      constructor
      · intro h
        rcases h with ⟨pairs, rfl, n, _, u, rfl, ⟨hfits, rfl⟩, rfl, h⟩
        exact .map pairs rfl hfits h fun hcanonical => Bool.noConfusion hcanonical
      · intro h
        cases h with
        | map pairs heq hfits h _ => exact ⟨pairs, heq, _, _, _, rfl, ⟨hfits, rfl⟩, rfl, h⟩

mutual

/-- A field is read from its spellings. -/
theorem Field.recognises (hr : r.poisoned = false)
    (hinner : ∀ t, Read.Recognises r (Read.within (inner t)) (Entered r.rules levels)) :
    ∀ f : Field ι, Read.Recognises r (f.read inner) (Value.Spelled r.rules levels)
  | .scalar s => Field.recognises_scalar hr s
  | .string => Field.recognises_string hr
  | .optional k => Field.recognises_optional (Kind.recognises hr hinner k)
  | .required _ k => Field.recognises_required (Kind.recognises hr hinner k)
  | .guard what => Field.recognises_guard what

/-- A kind of value is read from its spellings, or from its absence. -/
theorem Kind.recognises (hr : r.poisoned = false)
    (hinner : ∀ t, Read.Recognises r (Read.within (inner t)) (Entered r.rules levels)) :
    ∀ k : Kind ι,
      Read.Recognises r (k.read inner) (Read.Optional k.absence (Item.Spelled r.rules levels))
  | .leaf l => Kind.recognises_leaf hr l
  | .nested t => Kind.recognises_nested hr (hinner t)
  | .dynamic => Kind.recognises_dynamic hr hinner
  | .seq f => Kind.recognises_seq hr (Field.recognises hr hinner f)
  | .map f => Kind.recognises_map hr (Field.recognises hr hinner f)

end

/-- A record is read field by field. -/
theorem readFields_recognises_of (hr : r.poisoned = false)
    (hinner : ∀ t, Read.Recognises r (Read.within (inner t)) (Entered r.rules levels)) :
    ∀ fs : List (Field ι),
      Read.Recognises r (readFields inner fs) (Record.Spelled r.rules levels)
  | [] => by
      apply (Read.recognises_pure (Record.nil (S := S))).congr
      intro record w
      constructor
      · intro h
        rcases h with ⟨rfl, rfl⟩
        exact .nil
      · intro h
        cases h
        exact ⟨rfl, rfl⟩
  | f :: fs => by
      refine ((Field.recognises hr hinner f).bind fun v =>
        (readFields_recognises_of hr hinner fs).map fun rest => Record.cons v rest).congr
          fun record w => ?_
      constructor
      · intro h
        rcases h with ⟨v, a, b, rfl, hv, rest, rfl, hrest⟩
        exact .cons hv hrest
      · intro h
        cases h with
        | cons hv hrest => exact ⟨_, _, _, rfl, hv, _, rfl, hrest⟩

/-- A session that may open `levels` more values enters records from their spellings at one
level less, and none when it may open no more. -/
theorem recognises_entered (hr : r.poisoned = false)
    (hlevels : r.depth + levels = r.limits.maxDepth) (t : ι) :
    Read.Recognises r (Read.within (readRecord (S := S) levels t)) (Entered r.rules levels) := by
  induction levels generalizing r t with
  | zero =>
      apply (Read.recognises_within_full (by omega)).congr
      intro record w
      constructor
      · intro h
        cases h
      · intro h
        rcases h with ⟨below, hbelow, -⟩
        cases hbelow
  | succ levels ih =>
      have hdeeper : r.depth + 1 + levels = r.limits.maxDepth := by omega
      have hbelow := readFields_recognises_of (r := { r with depth := r.depth + 1 }) hr
        (ih (r := { r with depth := r.depth + 1 }) hr hdeeper) (S t).fields
      apply (Read.recognises_within (by omega) hbelow).congr
      intro record w
      constructor
      · intro h
        exact ⟨levels, rfl, h⟩
      · intro h
        rcases h with ⟨below, hbelow, h⟩
        cases hbelow
        exact h

/-- A session that may open `levels` more values reads the fields of a record from their
spellings and from nothing else. -/
theorem readFields_recognises (hr : r.poisoned = false)
    (hlevels : r.depth + levels = r.limits.maxDepth) (fs : List (Field ι)) :
    Read.Recognises r (readFields (readRecord (S := S) levels) fs)
      (Record.Spelled r.rules levels) :=
  readFields_recognises_of hr (recognises_entered hr hlevels) fs

end Recursion

/-- A session without open values reads the fields of a type from their spellings to any depth
that its limits allow. -/
theorem Schema.read_recognises {r : Reader ι} (hr : r.poisoned = false) (hdepth : r.depth = 0)
    (t : ι) :
    Read.Recognises r (S.read t) (Record.Spelled r.rules r.limits.maxDepth) :=
  (readFields_recognises hr (by omega) (S t).fields).get fun b => rfl

/-- **The reader accepts exactly its grammar.**  Whatever the limits and the resolver,
reading the fields of a record succeeds with a record and takes the first `n` bytes exactly
if these bytes spell the record. -/
theorem readFields_takes_iff_spelled (fs : List (Field ι)) (limits : Limits)
    (resolver? : Option (TypeTag → Except Fault ι)) (b : List UInt8) (record : Record S fs)
    (n : Nat) :
    (n ≤ b.length ∧ ∃ r,
        readFields (readRecord limits.maxDepth) fs (.start limits resolver? b) = .ok record r ∧
        r.source = Source.ofBytes (b.drop n)) ↔
      n ≤ b.length ∧
        Record.Spelled (Rules.of limits resolver?) limits.maxDepth record (b.take n) := by
  have hread := readFields_recognises (S := S) (r := .start limits resolver? []) rfl
    (Nat.zero_add limits.maxDepth) fs
  constructor
  · intro h
    rcases h with ⟨hn, r, hok, hsource⟩
    obtain ⟨w, rest, rfl, hspelled, rfl⟩ := (hread b record r).mp hok
    have hrest : rest = (w ++ rest).drop n := Source.ofBytes_injective hsource
    have hw : w = (w ++ rest).take n := by
      have hall := List.take_append_drop n (w ++ rest)
      rw [← hrest] at hall
      exact (List.append_cancel_right hall).symm
    rw [← hw]
    exact ⟨hn, hspelled⟩
  · intro h
    rcases h with ⟨hn, hspelled⟩
    refine ⟨hn, _, (hread b record _).mpr ⟨b.take n, b.drop n, by simp, hspelled, rfl⟩, rfl⟩

end TagWire
