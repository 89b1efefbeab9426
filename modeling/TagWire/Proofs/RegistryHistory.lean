import TagWire.Registry.Discovery

/-!
# What a registry holds after any history

A registry is only ever changed by offering it registrations, one by one or a
catalog at a time.  What it holds, and what it answers, depends on nothing but
the registrations offered so far:

* `Registration.validate_eq_ok_iff` — a valid registration is the one of its
  type under the type's own name and tag;
* `Registration.answer` — what a registration is answered after others;
* `Registry.Remembers` — the invariant: the first valid registration of each tag
  is held, and the collisions are those of the answers;
* `Registry.Remembers.register`, `Registry.Remembers.offerAll`,
  `Registry.Remembers.performAll` — one offer, one catalog and any sequence of
  calls keep it;
* `Registry.contents_of_history` — what follows for a registry that started empty.
-/

namespace TagWire

variable {ι : Type} {S : Schema ι}

namespace Registration

/-- Whether a registration has a name and its factory makes records of that name and of
its tag. -/
def valid (S : Schema ι) (registration : Registration ι) : Bool :=
  match registration.factory with
  | .panics => false
  | .makes t =>
      registration.name ≠ "" && (S t).tag = registration.tag && (S t).name = registration.name

/-- A valid registration is that of its type. -/
theorem validate_eq_ok_iff {registration : Registration ι} {t : ι} :
    registration.validate S = .ok t ↔ registration = .of S t ∧ (S t).name ≠ "" := by
  obtain ⟨name, tag, factory⟩ := registration
  unfold validate of
  by_cases hname : name = ""
  · simp only [hname, if_true, reduceCtorEq, false_iff, mk.injEq, not_and]
    intro h
    simp [← h.1]
  rw [if_neg hname]
  cases factory with
  | panics => simp
  | makes made =>
      by_cases htag : (S made).tag = tag
      · by_cases hmade : (S made).name = name
        · subst htag hmade
          simp only [ne_eq, not_true, if_false, Except.ok.injEq, mk.injEq, Factory.makes.injEq]
          constructor
          · rintro rfl
            exact ⟨⟨rfl, rfl, rfl⟩, hname⟩
          · exact fun h => h.1.2.2
        · simp only [htag, hmade, ne_eq, not_true, if_false, not_false_eq_true, if_true,
            reduceCtorEq, false_iff, mk.injEq, Factory.makes.injEq]
          rintro ⟨⟨rfl, -, rfl⟩, -⟩
          exact hmade rfl
      · simp only [htag, ne_eq, not_false_eq_true, if_true, reduceCtorEq, false_iff, mk.injEq,
          Factory.makes.injEq]
        rintro ⟨⟨-, rfl, rfl⟩, -⟩
        exact htag rfl

/-- Validation accepts the valid registrations. -/
theorem valid_iff {registration : Registration ι} :
    registration.valid S = true ↔ ∃ t, registration.validate S = .ok t := by
  simp only [validate_eq_ok_iff]
  obtain ⟨name, tag, factory⟩ := registration
  cases factory with
  | panics => simp [valid, of]
  | makes made =>
      simp only [valid, of, mk.injEq, Factory.makes.injEq, Bool.and_eq_true, decide_eq_true_eq]
      constructor
      · rintro ⟨⟨hname, rfl⟩, rfl⟩
        exact ⟨made, ⟨rfl, rfl, rfl⟩, hname⟩
      · rintro ⟨t, ⟨rfl, rfl, rfl⟩, hname⟩
        exact ⟨⟨hname, rfl⟩, rfl⟩

/-- The first valid registration of a tag among those that were offered. -/
def first? (S : Schema ι) (offered : List (Registration ι)) (tag : TypeTag) :
    Option (Registration ι) :=
  offered.find? fun registration => registration.valid S && registration.tag = tag

/-- What a registration is answered after others were offered. -/
def answer (S : Schema ι) (earlier : List (Registration ι)) (registration : Registration ι) :
    Admission :=
  match registration.validate S, first? S earlier registration.tag with
  | .error rejection, _ => .rejected rejection
  | .ok _, none => .added
  | .ok _, some held =>
      if held.name = registration.name then .repeated
      else .clashed ⟨registration.tag, held.name, registration.name⟩

section Answers

variable {earlier : List (Registration ι)} {registration : Registration ι}

/-- A registration that validation refuses is rejected, whatever came before. -/
theorem answer_of_error {rejection : Rejection}
    (h : registration.validate S = .error rejection) :
    registration.answer S earlier = .rejected rejection := by
  unfold answer
  rw [h]

/-- The first valid registration of its tag is added. -/
theorem answer_of_first {t : ι} (h : registration.validate S = .ok t)
    (hfirst : first? S earlier registration.tag = none) :
    registration.answer S earlier = .added := by
  unfold answer
  rw [h, hfirst]

/-- A later one is told by its name from the first. -/
theorem answer_of_later {t : ι} {held : Registration ι} (h : registration.validate S = .ok t)
    (hfirst : first? S earlier registration.tag = some held) :
    registration.answer S earlier =
      if held.name = registration.name then .repeated
      else .clashed ⟨registration.tag, held.name, registration.name⟩ := by
  unfold answer
  rw [h, hfirst]

/-- Nothing else is added. -/
theorem answer_eq_added_iff :
    registration.answer S earlier = .added ↔
      registration.valid S = true ∧ first? S earlier registration.tag = none := by
  rw [valid_iff]
  cases hvalidate : registration.validate S with
  | error rejection => simp [answer_of_error hvalidate]
  | ok t =>
      cases hfirst : first? S earlier registration.tag with
      | none => simp [answer_of_first hvalidate hfirst]
      | some held =>
          rw [answer_of_later hvalidate hfirst]
          split <;> simp

/-- A collision is the answer to a registration behind the first of its tag, by their names. -/
theorem exists_first?_of_answer {collision : Collision}
    (h : registration.answer S earlier = .clashed collision) :
    ∃ held, first? S earlier registration.tag = some held ∧
      collision = ⟨registration.tag, held.name, registration.name⟩ ∧
      held.name ≠ registration.name := by
  unfold answer at h
  split at h
  next => cases h
  next => cases h
  next t held hvalidate hfirst =>
    split at h
    next => cases h
    next hname =>
      cases h
      exact ⟨held, hfirst, rfl, hname⟩

end Answers

/-- What was first of its tag stays first. -/
theorem first?_append_of_some {offered : List (Registration ι)} {tag : TypeTag}
    {held : Registration ι} (h : first? S offered tag = some held)
    (later : List (Registration ι)) : first? S (offered ++ later) tag = some held := by
  unfold first? at h ⊢
  rw [List.find?_append, h]
  rfl

/-- There is no first registration of a tag when no valid one has it. -/
theorem first?_eq_none_iff {offered : List (Registration ι)} {tag : TypeTag} :
    first? S offered tag = none ↔ ∀ r ∈ offered, r.valid S = true → r.tag ≠ tag := by
  unfold first?
  simp

/-- One more valid registration counts for its tag when there is none before it. -/
theorem first?_append_singleton (offered : List (Registration ι))
    (registration : Registration ι) (tag : TypeTag) :
    first? S (offered ++ [registration]) tag =
      (first? S offered tag).or
        (if registration.valid S && registration.tag = tag then some registration else none) := by
  unfold first?
  rw [List.find?_append, List.find?_singleton]

/-- The answers to registrations that are offered one after the other. -/
def answers (S : Schema ι) (offered : List (Registration ι)) :
    List (Registration ι × Admission) :=
  offered.mapIdx fun i registration => (registration, registration.answer S (offered.take i))

/-- One more registration is answered after all the others. -/
theorem answers_append_singleton (offered : List (Registration ι))
    (registration : Registration ι) :
    answers S (offered ++ [registration]) =
      answers S offered ++ [(registration, registration.answer S offered)] := by
  have hbefore : offered.mapIdx (fun i r => (r, r.answer S ((offered ++ [registration]).take i)))
      = answers S offered := by
    apply List.mapIdx_eq_mapIdx_iff.mpr
    intro i hi
    rw [List.take_append_of_le_length (Nat.le_of_lt hi)]
  unfold answers at hbefore ⊢
  rw [List.mapIdx_concat, hbefore, List.take_left]

end Registration

/-- The collision that an answer reports. -/
def Admission.collision? : Admission → Option Collision
  | .clashed collision => some collision
  | _ => none

/-- Only a clash reports a collision. -/
theorem Admission.eq_of_collision? {admission : Admission} {collision : Collision}
    (h : admission.collision? = some collision) : admission = .clashed collision := by
  cases admission with
  | clashed c => exact congrArg clashed (Option.some.inj h)
  | added => cases h
  | repeated => cases h
  | rejected rejection => cases h

namespace Registry

/-- The registration that is held under a tag. -/
def held? (registry : Registry S) (tag : TypeTag) : Option (Registration ι) :=
  (registry.find? tag).map (.of S)

/-- The name under a tag is that of the registration that is held. -/
theorem typeNameOf?_eq (registry : Registry S) (tag : TypeTag) :
    registry.typeNameOf? tag = (registry.held? tag).map Registration.name := by
  unfold typeNameOf? held?
  rw [Option.map_map]
  rfl

/-- What is found under a tag has that tag. -/
theorem tag_of_find? {registry : Registry S} {tag : TypeTag} {t : ι}
    (h : registry.find? tag = some t) : (S t).tag = tag := by
  simpa using List.find?_some h

/-- **What an offer does.**  An invalid registration is rejected, the first of its tag is
added, and a later one is repeated or clashes, by its name. -/
theorem register_cases (registry : Registry S) (registration : Registration ι) :
    (∃ rejection, registration.validate S = .error rejection ∧
      registry.register registration = (.rejected rejection, registry)) ∨
    ∃ t, registration.validate S = .ok t ∧
      ((∃ free, registry.register registration = (.added, registry.add t free)) ∨
      ∃ held, registry.find? (S t).tag = some held ∧
        ((S held).name = registration.name ∧
          registry.register registration = (.repeated, registry) ∨
        ∃ collision : Collision,
          collision = ⟨registration.tag, (S held).name, registration.name⟩ ∧
          (S held).name ≠ registration.name ∧
          registry.register registration =
            (.clashed collision,
              { registry with collisions := registry.collisions ++ [collision] }))) := by
  unfold register
  cases hvalidate : registration.validate S with
  | error rejection => exact .inl ⟨rejection, rfl, rfl⟩
  | ok t =>
      refine .inr ⟨t, rfl, ?_⟩
      dsimp only
      split
      next hfind => exact .inl ⟨hfind, rfl⟩
      next held hfind =>
        refine .inr ⟨held, hfind, ?_⟩
        split
        next hname => exact .inl ⟨hname, rfl⟩
        next hname => exact .inr ⟨_, rfl, hname, rfl⟩

/-- An invalid registration is rejected and changes nothing; a valid one is not rejected. -/
theorem valid_eq_false_iff (registry : Registry S) {registration : Registration ι} :
    registration.valid S = false ↔
      ∃ rejection, registry.register registration = (.rejected rejection, registry) := by
  rw [← Bool.not_eq_true, Registration.valid_iff]
  rcases registry.register_cases registration with
    ⟨rejection, hvalidate, hregister⟩ | ⟨t, hvalidate, ⟨free, hregister⟩ | ⟨held, hfind, hheld⟩⟩
  · simp [hvalidate, hregister]
  · simp [hvalidate, hregister]
  · rcases hheld with ⟨-, hregister⟩ | ⟨collision, -, -, hregister⟩
    · simp [hvalidate, hregister]
    · simp [hvalidate, hregister]

/-- A type that is added is found under its tag, and the others as before. -/
theorem held?_add (registry : Registry S) (t : ι) (free : registry.find? (S t).tag = none)
    (tag : TypeTag) :
    (registry.add t free).held? tag =
      (registry.held? tag).or (if (S t).tag = tag then some (.of S t) else none) := by
  have hfind : (registry.add t free).find? tag =
      (registry.find? tag).or (if (S t).tag = tag then some t else none) := by
    unfold find? add
    dsimp only
    rw [List.find?_append, List.find?_singleton]
    simp only [decide_eq_true_eq]
  unfold held?
  rw [hfind]
  cases registry.find? tag with
  | some held => rfl
  | none =>
      by_cases htag : (S t).tag = tag
      · simp [htag]
      · simp [htag]

/-- A registry that was offered these registrations and no others. -/
structure Remembers (registry : Registry S) (offered : List (Registration ι)) : Prop where
  entry_eq : ∀ tag, registry.held? tag = Registration.first? S offered tag
  collisions_eq :
    registry.collisions = (Registration.answers S offered).filterMap fun a => a.2.collision?

/-- A new registry was offered nothing. -/
theorem remembers_nil (config : RegistryConfig) : ({ config } : Registry S).Remembers [] :=
  ⟨fun _ => rfl, rfl⟩

/-- Whatever does not change the first valid registrations and adds the collision of its
answer keeps the invariant. -/
theorem Remembers.append_singleton {registry after : Registry S}
    {offered : List (Registration ι)} (h : registry.Remembers offered)
    (registration : Registration ι)
    (hentry : ∀ tag, after.held? tag = (registry.held? tag).or
      (if registration.valid S && registration.tag = tag then some registration else none))
    (hcollisions : after.collisions =
      registry.collisions ++ (registration.answer S offered).collision?.toList) :
    after.Remembers (offered ++ [registration]) := by
  constructor
  · intro tag
    rw [hentry tag, h.entry_eq tag, Registration.first?_append_singleton]
  · rw [hcollisions, h.collisions_eq, Registration.answers_append_singleton,
      List.filterMap_append]
    cases hcollision : (registration.answer S offered).collision? <;> simp [hcollision]

/-- Where a tag is held, one more registration of it makes no difference to what is held. -/
theorem held?_or_of_held {registry : Registry S} {registration held : Registration ι}
    (h : registry.held? registration.tag = some held) (tag : TypeTag) :
    registry.held? tag = (registry.held? tag).or
      (if registration.valid S && registration.tag = tag then some registration else none) := by
  by_cases htag : registration.tag = tag
  · subst htag
    rw [h]
    rfl
  · simp [htag]

/-- **One offer.**  A registration is answered as the ones before it determine, and is
remembered with them. -/
theorem Remembers.register {registry : Registry S} {offered : List (Registration ι)}
    (h : registry.Remembers offered) (registration : Registration ι) :
    (registry.register registration).1 = registration.answer S offered ∧
      (registry.register registration).2.Remembers (offered ++ [registration]) := by
  rcases registry.register_cases registration with
    ⟨rejection, hvalidate, hregister⟩ | ⟨t, hvalidate, ⟨free, hregister⟩ | ⟨held, hfind, hheld⟩⟩
  · have hanswer : registration.answer S offered = .rejected rejection :=
      Registration.answer_of_error hvalidate
    have hinvalid : registration.valid S = false := by
      rw [← Bool.not_eq_true, Registration.valid_iff, hvalidate]
      simp
    rw [hregister, hanswer]
    refine ⟨rfl, h.append_singleton registration (fun tag => ?_) ?_⟩
    · simp [hinvalid]
    · simp [hanswer, Admission.collision?]
  · have hvalid : registration.valid S = true := Registration.valid_iff.mpr ⟨t, hvalidate⟩
    obtain ⟨rfl, -⟩ := Registration.validate_eq_ok_iff.mp hvalidate
    have hnone : registry.held? (S t).tag = none := by
      rw [held?, free]
      rfl
    have hanswer := Registration.answer_of_first hvalidate ((h.entry_eq _).symm.trans hnone)
    rw [hregister, hanswer]
    refine ⟨rfl, h.append_singleton _ (fun tag => ?_) ?_⟩
    · rw [held?_add, hvalid, Bool.true_and]
      simp only [decide_eq_true_eq]
      rfl
    · simp [hanswer, Admission.collision?, add]
  · obtain ⟨hof, -⟩ := Registration.validate_eq_ok_iff.mp hvalidate
    have hentry : registry.held? registration.tag = some (.of S held) := by
      rw [held?, congrArg Registration.tag hof]
      exact congrArg (Option.map (Registration.of S)) hfind
    have hsame := held?_or_of_held hentry
    have hanswer := Registration.answer_of_later hvalidate ((h.entry_eq _).symm.trans hentry)
    rcases hheld with ⟨hname, hregister⟩ | ⟨collision, rfl, hname, hregister⟩
    · rw [hanswer.trans (if_pos hname), hregister]
      refine ⟨rfl, h.append_singleton registration hsame ?_⟩
      simp [hanswer.trans (if_pos hname), Admission.collision?]
    · rw [hanswer.trans (if_neg hname), hregister]
      refine ⟨rfl, h.append_singleton registration hsame ?_⟩
      simp [hanswer.trans (if_neg hname), Admission.collision?, Registration.of]

/-! ## Histories of calls -/

/-- A call that changes a registry. -/
inductive Call (ι : Type) where
  /-- Offers a type under its own name and tag. -/
  | register (t : ι)
  | registerEntry (registration : Registration ι)
  | discover (catalog : List (Registration ι)) (prefixes : List String)

/-- The registrations of a catalog whose names begin with one of the prefixes. -/
def asked (prefixes : List String) (catalog : List (Registration ι)) : List (Registration ι) :=
  catalog.filter fun registration => registration.matchesPrefix prefixes

/-- The registrations that a call offers, in their order. -/
def Call.offered (S : Schema ι) : Call ι → List (Registration ι)
  | register t => [.of S t]
  | registerEntry registration => [registration]
  | discover catalog prefixes => asked prefixes catalog

/-- The answer in a verdict, if the registration was offered at all. -/
def Verdict.admission? : Verdict → Option Admission
  | .filtered => none
  | .offered admission => some admission

/-- The registrations of some verdicts that were offered, with the answers. -/
def offeredIn (verdicts : List (Registration ι × Verdict)) : List (Registration ι × Admission) :=
  verdicts.filterMap fun entry => (Verdict.admission? entry.2).map (entry.1, ·)

/-- Makes a call.  The result tells what each offered registration was answered. -/
def perform (registry : Registry S) : Call ι → List (Registration ι × Admission) × Registry S
  | .register t => ([(.of S t, (registry.register (.of S t)).1)], (registry.register (.of S t)).2)
  | .registerEntry r => ([(r, (registry.register r).1)], (registry.register r).2)
  | .discover catalog prefixes =>
      (offeredIn (registry.discover catalog prefixes).1.verdicts,
        (registry.discover catalog prefixes).2)

/-- Makes calls one after the other. -/
def performAll : List (Call ι) → Registry S → List (Registration ι × Admission) × Registry S
  | [], registry => ([], registry)
  | call :: calls, registry =>
      let (answers, registry) := registry.perform call
      let (later, registry) := performAll calls registry
      (answers ++ later, registry)

/-- **One catalog.**  The registrations with the right beginnings are answered and remembered
one after the other. -/
theorem Remembers.offerAll {registry : Registry S} {offered : List (Registration ι)}
    (h : registry.Remembers offered) (prefixes : List String) (catalog : List (Registration ι)) :
    Registration.answers S offered ++ offeredIn (registry.offerAll prefixes catalog).1 =
        Registration.answers S (offered ++ asked prefixes catalog) ∧
      (registry.offerAll prefixes catalog).2.Remembers (offered ++ asked prefixes catalog) := by
  induction catalog generalizing registry offered with
  | nil => simpa [Registry.offerAll, offeredIn, asked] using h
  | cons r catalog ih =>
      unfold Registry.offerAll
      cases hmatches : r.matchesPrefix prefixes with
      | false =>
          have hasked : asked prefixes (r :: catalog) = asked prefixes catalog :=
            List.filter_cons_of_neg (by simp [hmatches])
          obtain ⟨hanswers, hrest⟩ := ih h
          rw [hasked]
          exact ⟨hanswers, hrest⟩
      | true =>
          have hasked : asked prefixes (r :: catalog) = r :: asked prefixes catalog :=
            List.filter_cons_of_pos hmatches
          obtain ⟨hanswer, hafter⟩ := h.register r
          obtain ⟨hanswers, hrest⟩ := ih hafter
          rw [Registration.answers_append_singleton, List.append_assoc, List.append_assoc,
            ← hanswer] at hanswers
          rw [List.append_assoc] at hrest
          rw [hasked]
          exact ⟨hanswers, hrest⟩

/-- **One call.**  What a call offers is answered and remembered. -/
theorem Remembers.perform {registry : Registry S} {offered : List (Registration ι)}
    (h : registry.Remembers offered) (call : Call ι) :
    Registration.answers S offered ++ (registry.perform call).1 =
        Registration.answers S (offered ++ call.offered S) ∧
      (registry.perform call).2.Remembers (offered ++ call.offered S) := by
  cases call with
  | register t =>
      obtain ⟨hanswer, hafter⟩ := h.register (.of S t)
      exact ⟨by rw [Call.offered, Registration.answers_append_singleton, ← hanswer]; rfl, hafter⟩
  | registerEntry r =>
      obtain ⟨hanswer, hafter⟩ := h.register r
      exact ⟨by rw [Call.offered, Registration.answers_append_singleton, ← hanswer]; rfl, hafter⟩
  | discover catalog prefixes => exact h.offerAll prefixes catalog

/-- **A run of calls.**  What the calls offer is answered and remembered in its order. -/
theorem Remembers.performAll {registry : Registry S} {offered : List (Registration ι)}
    (h : registry.Remembers offered) (calls : List (Call ι)) :
    Registration.answers S offered ++ (registry.performAll calls).1 =
        Registration.answers S (offered ++ calls.flatMap (Call.offered S)) ∧
      (registry.performAll calls).2.Remembers (offered ++ calls.flatMap (Call.offered S)) := by
  induction calls generalizing registry offered with
  | nil => simpa [Registry.performAll] using h
  | cons call calls ih =>
      obtain ⟨hanswers, hafter⟩ := h.perform call
      obtain ⟨hlater, hrest⟩ := ih hafter
      rw [← hanswers, List.append_assoc, List.append_assoc] at hlater
      rw [List.append_assoc] at hrest
      rw [List.flatMap_cons]
      exact ⟨hlater, hrest⟩

/-! ## What follows -/

/-- A collision names the registration that is still held, and another one. -/
theorem Remembers.of_mem_collisions {registry : Registry S} {offered : List (Registration ι)}
    (h : registry.Remembers offered) {collision : Collision}
    (hmem : collision ∈ registry.collisions) :
    registry.typeNameOf? collision.tag = some collision.kept ∧
      collision.ignored ≠ collision.kept := by
  rw [h.collisions_eq, List.mem_filterMap] at hmem
  obtain ⟨⟨r, answer⟩, hanswer, hcollision⟩ := hmem
  obtain ⟨i, hi, heq⟩ := List.mem_mapIdx.mp hanswer
  obtain ⟨rfl, rfl⟩ := Prod.mk.inj heq
  obtain ⟨held, hfirst, rfl, hname⟩ := Registration.exists_first?_of_answer (Admission.eq_of_collision? hcollision)
  have hheld := Registration.first?_append_of_some hfirst (offered.drop i)
  rw [List.take_append_drop, ← h.entry_eq] at hheld
  refine ⟨?_, hname.symm⟩
  rw [typeNameOf?_eq, hheld]
  rfl

/-- A valid registration is held under a tag as soon as one was offered. -/
theorem Remembers.contains_iff {registry : Registry S} {offered : List (Registration ι)}
    (h : registry.Remembers offered) {tag : TypeTag} :
    registry.contains tag = true ↔ ∃ r ∈ offered, r.valid S = true ∧ r.tag = tag := by
  have hcontains : registry.contains tag = (Registration.first? S offered tag).isSome := by
    rw [← h.entry_eq, held?, Option.isSome_map]
    rfl
  rw [hcontains, Registration.first?, List.find?_isSome]
  simp

/-- A fresh record is one of the type that is held, and there is none for other tags. -/
theorem instantiate_eq (registry : Registry S) (tag : TypeTag) :
    match registry.held? tag with
    | some held => ∃ x, registry.instantiate tag = .ok x ∧ x.tag = tag ∧ x.typeName = held.name
    | none => registry.instantiate tag = .error (.unknownType tag) := by
  unfold held? instantiate resolve
  cases hfind : registry.find? tag with
  | none => rfl
  | some t => exact ⟨.blank t, rfl, tag_of_find? hfind, rfl⟩

/-- A tag is listed when a type is registered under it. -/
theorem mem_tags_iff {registry : Registry S} {tag : TypeTag} :
    tag ∈ registry.tags ↔ registry.contains tag = true := by
  unfold tags contains find?
  simp [List.mem_mergeSort]

/-- The tags are listed in ascending order, each once. -/
theorem pairwise_tags (registry : Registry S) :
    registry.tags.Pairwise fun a b => a.value < b.value := by
  have hsorted : registry.tags.Pairwise fun a b => decide (a.value ≤ b.value) = true := by
    apply List.pairwise_mergeSort
    · intro a b c hab hbc
      exact decide_eq_true (Int32.le_trans (of_decide_eq_true hab) (of_decide_eq_true hbc))
    · intro a b
      simpa using Int32.le_total a.value b.value
  have hdistinct : registry.tags.Nodup :=
    (List.mergeSort_perm _ _).nodup_iff.mpr registry.distinct_tags
  apply (hsorted.and hdistinct).imp
  intro a b hab
  have hne : a.value ≠ b.value := fun heq => hab.2 (congrArg TypeTag.mk heq)
  exact Int32.lt_of_le_of_ne (of_decide_eq_true hab.1) hne

/-- Verifying fails exactly when there are collisions. -/
theorem verifyUnique_eq_ok_iff {registry : Registry S} :
    registry.verifyUnique = .ok () ↔ registry.collisions = [] := by
  unfold verifyUnique
  cases registry.collisions <;> simp

/-- **What a registry holds after any history.**  From an empty registry, any sequence of
calls leaves the first valid registration of each tag, and later calls do not change it.
Each registration is answered as those before it determine: added exactly if it is the first
valid one of its tag, rejected exactly if it is invalid, which changes nothing.  The
collisions are those of the answers in their order, between the name that is held and
another one. -/
theorem contents_of_history (config : RegistryConfig) (calls : List (Call ι)) :
    let offered := calls.flatMap (Call.offered S)
    let outcome := ({ config } : Registry S).performAll calls
    let registry := outcome.2
    (∀ tag, registry.held? tag = offered.find? fun r => r.valid S && r.tag = tag) ∧
    (∀ (later : List (Call ι)) (tag : TypeTag) (held : Registration ι),
      registry.held? tag = some held → (registry.performAll later).2.held? tag = some held) ∧
    (∀ r : Registration ι, (registry.register r).1 = .added ↔
      r.valid S = true ∧ ∀ q ∈ offered, q.valid S = true → q.tag ≠ r.tag) ∧
    (∀ r : Registration ι, r.valid S = false ↔
      ∃ rejection, registry.register r = (.rejected rejection, registry)) ∧
    outcome.1 = Registration.answers S offered ∧
    registry.collisions = outcome.1.filterMap (fun entry => entry.2.collision?) ∧
    (∀ collision ∈ registry.collisions,
      registry.typeNameOf? collision.tag = some collision.kept ∧
        collision.ignored ≠ collision.kept) ∧
    (registry.verifyUnique = .ok () ↔ registry.collisions = []) ∧
    registry.tags.Pairwise (fun a b => a.value < b.value) ∧
    (∀ tag, tag ∈ registry.tags ↔ ∃ r ∈ offered, r.valid S = true ∧ r.tag = tag) ∧
    ∀ tag,
      match registry.held? tag with
      | some held => ∃ x, registry.instantiate tag = .ok x ∧ x.tag = tag ∧ x.typeName = held.name
      | none => registry.instantiate tag = .error (.unknownType tag) := by
  intro offered outcome registry
  obtain ⟨hanswers, hremembers⟩ := (remembers_nil (S := S) config).performAll calls
  rw [List.nil_append] at hremembers
  have hanswers : outcome.1 = Registration.answers S offered := hanswers
  have hremembers : registry.Remembers offered := hremembers
  refine ⟨hremembers.entry_eq, ?_, ?_, ?_, hanswers, ?_, fun _ => hremembers.of_mem_collisions,
    verifyUnique_eq_ok_iff, registry.pairwise_tags, ?_, registry.instantiate_eq⟩
  · intro later tag held hheld
    rw [hremembers.entry_eq] at hheld
    rw [(hremembers.performAll later).2.entry_eq]
    exact Registration.first?_append_of_some hheld _
  · intro r
    rw [(hremembers.register r).1, Registration.answer_eq_added_iff,
      Registration.first?_eq_none_iff]
  · exact fun r => registry.valid_eq_false_iff
  · rw [hanswers]
    exact hremembers.collisions_eq
  · intro tag
    rw [mem_tags_iff, hremembers.contains_iff]

/-- A schema of two types that pin one tag. -/
def twins : Schema Bool := fun second =>
  { name := if second then "fleet.Tram" else "fleet.Truck", tag := ⟨7⟩, fields := [] }

/-- A registration under a tag that its factory does not make. -/
def mistagged : Registration Bool := ⟨"fleet.Tram", ⟨8⟩, .makes true⟩

/-- Calls that offer one type twice, the other once, and what is no type at all. -/
def twinCalls : List (Call Bool) :=
  [.registerEntry mistagged, .register false,
    .discover [.of twins false, .of twins true, ⟨"depot.Shed", ⟨9⟩, .panics⟩] ["fleet."]]

/-- The first of two types with one tag keeps it, and the other one is reported. -/
theorem twins_contents_of_history :
    let registry := (({} : Registry twins).performAll twinCalls).2
    registry.held? ⟨7⟩ = some (.of twins false) ∧
      (registry.performAll [.register true]).2.held? ⟨7⟩ = some (.of twins false) ∧
      registry.collisions = [⟨⟨7⟩, "fleet.Truck", "fleet.Tram"⟩] ∧
      registry.typeNameOf? ⟨7⟩ = some "fleet.Truck" := by
  intro registry
  obtain ⟨hentry, hlater, -, -, hanswers, hcollisions, hkept, -⟩ :=
    contents_of_history (S := twins) {} twinCalls
  have hfirst : registry.held? ⟨7⟩ = some (.of twins false) :=
    (hentry ⟨7⟩).trans (by decide +kernel)
  have hlist : registry.collisions = [⟨⟨7⟩, "fleet.Truck", "fleet.Tram"⟩] :=
    hcollisions.trans (hanswers ▸ by decide +kernel)
  have hmem : ⟨⟨7⟩, "fleet.Truck", "fleet.Tram"⟩ ∈ registry.collisions := by simp [hlist]
  exact ⟨hfirst, hlater [.register true] ⟨7⟩ _ hfirst, hlist, (hkept _ hmem).1⟩

end Registry

end TagWire
