import TagWire.Proofs.RegistrationOrder

/-!
# Discovering a catalog twice

Discovery accounts for every record of its catalog and does nothing but offer those that are
asked for.  Offering them all once more is harmless: by then each of them finds under its tag
what it found the first time, or itself.

* `DiscoveryReport.counts_add_up` — each record is counted once;
* `Registry.registerAll_asked` — a discovery offers the records that are asked for, in their
  order;
* `Registry.Accounted` — a registry comes out of another one as a report tells;
  `Registry.accounted_discover` says that a discovery does this;
* `Registry.Extends` — a registry has all types of another one, and finds them where the other
  one did;
* `Registry.Extends.register`, `Registry.Extends.discover` — such a registry deals with an offer
  and with a catalog as the other one did, except that what was added is there;
* `Registry.discovery_accounts_and_repeats` — what follows for a catalog, once and twice.
-/

namespace TagWire

variable {ι : Type} {S : Schema ι}

/-! ## Prefixes -/

namespace Registration

/-- The name begins with none of some prefixes, of which there is at least one. -/
def Outside (registration : Registration ι) (prefixes : List String) : Prop :=
  prefixes ≠ [] ∧ ∀ p ∈ prefixes, ¬ p.toList <+: registration.name.toList

instance (registration : Registration ι) (prefixes : List String) :
    Decidable (registration.Outside prefixes) :=
  inferInstanceAs (Decidable (_ ∧ _))

/-- The prefixes admit the names that are not outside of them. -/
theorem matchesPrefix_eq_false_iff {registration : Registration ι} {prefixes : List String} :
    registration.matchesPrefix prefixes = false ↔ registration.Outside prefixes := by
  unfold matchesPrefix Outside
  rw [Bool.or_eq_false_iff, List.isEmpty_eq_false_iff, List.any_eq_false]
  simp only [List.isPrefixOf_iff_prefix]

end Registration

/-! ## Reports -/

/-- The answer to a registration that is offered again: what was added is there by then. -/
def Admission.settled : Admission → Admission
  | .added => .repeated
  | admission => admission

/-- What comes of a record of a catalog that is gone through again. -/
def Verdict.settled : Verdict → Verdict
  | .filtered => .filtered
  | .offered admission => .offered admission.settled

/-- The collision that a verdict reports. -/
def Verdict.collision? : Verdict → Option Collision
  | .filtered => none
  | .offered admission => admission.collision?

namespace DiscoveryReport

/-- The collisions of a discovery, in their order. -/
def collisions (report : DiscoveryReport ι) : List Collision :=
  report.verdicts.filterMap fun entry => entry.2.collision?

/-- The collision of the first record comes first. -/
theorem collisions_cons (entry : Registration ι × Verdict)
    (verdicts : List (Registration ι × Verdict)) :
    collisions ⟨entry :: verdicts⟩ = entry.2.collision?.toList ++ collisions ⟨verdicts⟩ := by
  unfold collisions
  cases hcollision : entry.2.collision? <;> simp [hcollision]

/-- The report on a catalog that is gone through again. -/
def settled (report : DiscoveryReport ι) : DiscoveryReport ι :=
  ⟨report.verdicts.map fun entry => (entry.1, entry.2.settled)⟩

/-- The line about a record, if it was rejected. -/
def skipped? : Registration ι × Verdict → Option (String × String)
  | (registration, .offered (.rejected rejection)) =>
      some (registration.name, rejection.message registration.name)
  | _ => none

/-- The rejected records are those with a line. -/
theorem skipped_eq_filterMap (report : DiscoveryReport ι) :
    report.skipped = report.verdicts.filterMap skipped? :=
  rfl

/-- **Each record is counted once.** -/
theorem counts_add_up (report : DiscoveryReport ι) :
    report.registered + report.unchanged + report.filtered + report.skipped.length =
      report.verdicts.length := by
  obtain ⟨verdicts⟩ := report
  rw [skipped_eq_filterMap]
  unfold registered unchanged filtered count
  dsimp only
  induction verdicts with
  | nil => rfl
  | cons entry verdicts ih =>
      obtain ⟨r, verdict⟩ := entry
      rw [List.length_cons, ← ih]
      cases verdict with
      | filtered => simp [List.filterMap_cons, skipped?]; omega
      | offered admission => cases admission <;> simp [List.filterMap_cons, skipped?] <;> omega

section Settled

variable (report : DiscoveryReport ι)

/-- Nothing is added the second time. -/
theorem registered_settled : report.settled.registered = 0 := by
  unfold registered count settled
  rw [List.countP_map, List.countP_eq_zero]
  rintro ⟨r, verdict⟩ -
  cases verdict with
  | filtered => simp [Verdict.settled]
  | offered admission => cases admission <;> simp [Verdict.settled, Admission.settled]

/-- What was added is unchanged the second time, and what was unchanged stays so. -/
theorem unchanged_settled :
    report.settled.unchanged = report.registered + report.unchanged := by
  obtain ⟨verdicts⟩ := report
  unfold unchanged registered count settled
  dsimp only
  induction verdicts with
  | nil => rfl
  | cons entry verdicts ih =>
      obtain ⟨r, verdict⟩ := entry
      rw [List.map_cons, List.countP_cons, ih]
      cases verdict with
      | filtered => simp [Verdict.settled]
      | offered admission =>
          cases admission <;> simp [Verdict.settled, Admission.settled] <;> omega

/-- The same records are passed over. -/
theorem filtered_settled : report.settled.filtered = report.filtered := by
  unfold filtered count settled
  rw [List.countP_map]
  refine List.countP_congr ?_
  rintro ⟨r, verdict⟩ -
  cases verdict <;> simp [Verdict.settled]

/-- The same records are rejected for the same reasons. -/
theorem skipped_settled : report.settled.skipped = report.skipped := by
  rw [skipped_eq_filterMap, skipped_eq_filterMap]
  unfold settled
  rw [List.filterMap_map]
  refine List.filterMap_congr ?_
  rintro ⟨r, verdict⟩ -
  cases verdict with
  | filtered => rfl
  | offered admission => cases admission <;> rfl

end Settled

end DiscoveryReport

/-! ## One catalog -/

namespace Registry

/-- The registry with further collisions and nothing else that is new. -/
def withCollisions (registry : Registry S) (collisions : List Collision) : Registry S :=
  { registry with collisions := registry.collisions ++ collisions }

@[simp] theorem withCollisions_nil (registry : Registry S) :
    registry.withCollisions [] = registry := by
  simp [withCollisions]

/-- Further collisions come one after the other. -/
theorem withCollisions_append (registry : Registry S) (first rest : List Collision) :
    registry.withCollisions (first ++ rest) =
      (registry.withCollisions first).withCollisions rest := by
  simp [withCollisions]

section Catalog

variable {registry : Registry S} {r : Registration ι} {t held : ι}
variable {prefixes : List String} {catalog : List (Registration ι)}

/-- A record outside the prefixes is passed over. -/
theorem discover_cons_of_outside (h : r.Outside prefixes) :
    registry.discover (r :: catalog) prefixes =
      (⟨(r, .filtered) :: (registry.discover catalog prefixes).1.verdicts⟩,
        (registry.discover catalog prefixes).2) := by
  simp only [discover, offerAll, Registration.matchesPrefix_eq_false_iff.mpr h,
    Bool.false_eq_true, if_false]

/-- Any other record is offered. -/
theorem discover_cons_of_within (h : ¬ r.Outside prefixes) :
    registry.discover (r :: catalog) prefixes =
      (⟨(r, .offered (registry.register r).1) ::
          ((registry.register r).2.discover catalog prefixes).1.verdicts⟩,
        ((registry.register r).2.discover catalog prefixes).2) := by
  rw [← Registration.matchesPrefix_eq_false_iff, Bool.not_eq_false] at h
  simp only [discover, offerAll, h, if_true]

/-- A record outside the prefixes is not asked for. -/
theorem asked_cons_of_outside (h : r.Outside prefixes) :
    asked prefixes (r :: catalog) = asked prefixes catalog :=
  List.filter_cons_of_neg (by simp [Registration.matchesPrefix_eq_false_iff.mpr h])

/-- Any other record is asked for. -/
theorem asked_cons_of_within (h : ¬ r.Outside prefixes) :
    asked prefixes (r :: catalog) = r :: asked prefixes catalog := by
  rw [← Registration.matchesPrefix_eq_false_iff, Bool.not_eq_false] at h
  exact List.filter_cons_of_pos h

/-- Asked for are the records that are not outside the prefixes. -/
theorem asked_eq_filter (prefixes : List String) (catalog : List (Registration ι)) :
    asked prefixes catalog = catalog.filter fun r => ¬ r.Outside prefixes := by
  unfold asked
  refine List.filter_congr fun r _ => ?_
  rw [Bool.eq_iff_iff, decide_eq_true_eq, ← Registration.matchesPrefix_eq_false_iff,
    Bool.not_eq_false]

/-- There is a verdict on each record. -/
theorem length_verdicts_discover (registry : Registry S) (catalog : List (Registration ι))
    (prefixes : List String) :
    (registry.discover catalog prefixes).1.verdicts.length = catalog.length := by
  induction catalog generalizing registry with
  | nil => rfl
  | cons r catalog ih =>
      by_cases houtside : r.Outside prefixes
      · rw [discover_cons_of_outside houtside, List.length_cons, List.length_cons, ih]
      · rw [discover_cons_of_within houtside, List.length_cons, List.length_cons, ih]

/-- The records that are passed over are those outside the prefixes. -/
theorem filtered_discover (registry : Registry S) (catalog : List (Registration ι))
    (prefixes : List String) :
    (registry.discover catalog prefixes).1.filtered =
      catalog.countP fun r => r.Outside prefixes := by
  unfold DiscoveryReport.filtered DiscoveryReport.count
  induction catalog generalizing registry with
  | nil => rfl
  | cons r catalog ih =>
      by_cases houtside : r.Outside prefixes
      · rw [discover_cons_of_outside houtside, List.countP_cons, List.countP_cons, ih]
        simp [houtside]
      · rw [discover_cons_of_within houtside, List.countP_cons, List.countP_cons, ih]
        simp [houtside]

/-- An offer is rejected for what validation finds. -/
theorem register_of_error {rejection : Rejection} (h : r.validate S = .error rejection) :
    registry.register r = (.rejected rejection, registry) := by
  unfold register
  rw [h]

/-- A valid offer for a tag that is taken is told by its name from what is held. -/
theorem register_of_held (hvalidate : r.validate S = .ok t)
    (hfind : registry.find? (S t).tag = some held) :
    registry.register r =
      if (S held).name = r.name then (.repeated, registry)
      else (.clashed ⟨r.tag, (S held).name, r.name⟩,
        registry.withCollisions [⟨r.tag, (S held).name, r.name⟩]) := by
  unfold register
  rw [hvalidate]
  dsimp only
  split
  next hfree => cases hfree.symm.trans hfind
  next found hfound =>
    cases hfound.symm.trans hfind
    rfl

/-- A type that was added is found. -/
theorem find?_add_self (registry : Registry S) (t : ι)
    (free : registry.find? (S t).tag = none) :
    (registry.add t free).find? (S t).tag = some t := by
  unfold find? add at *
  rw [List.find?_append, free]
  simp

/-- There is a line about an offered record exactly if validation refuses it. -/
theorem skipped?_register (registry : Registry S) (r : Registration ι) :
    DiscoveryReport.skipped? (r, .offered (registry.register r).1) =
      match r.validate S with
      | .error rejection => some (r.name, rejection.message r.name)
      | .ok _ => none := by
  rcases registry.register_cases r with
    ⟨rejection, hvalidate, hregister⟩ | ⟨t, hvalidate, ⟨free, hregister⟩ |
      ⟨held, -, ⟨-, hregister⟩ | ⟨collision, -, -, hregister⟩⟩⟩
  all_goals
    rw [hvalidate, hregister]
    rfl

/-- The records that are rejected are the invalid ones, each with its own reason. -/
theorem skipped_discover (registry : Registry S) (catalog : List (Registration ι))
    (prefixes : List String) :
    List.Forall₂ (fun line r => ∃ rejection, r.validate S = .error rejection ∧
        line = (r.name, rejection.message r.name))
      (registry.discover catalog prefixes).1.skipped
      ((asked prefixes catalog).filter fun r => !r.valid S) := by
  rw [DiscoveryReport.skipped_eq_filterMap]
  induction catalog generalizing registry with
  | nil => exact .nil
  | cons r catalog ih =>
      by_cases houtside : r.Outside prefixes
      · rw [discover_cons_of_outside houtside, asked_cons_of_outside houtside]
        exact ih registry
      have hrest := ih (registry.register r).2
      rw [discover_cons_of_within houtside, asked_cons_of_within houtside]
      cases hvalidate : r.validate S with
      | error rejection =>
          have hinvalid : r.valid S = false :=
            (valid_eq_false_iff registry).mpr ⟨rejection, register_of_error hvalidate⟩
          have hline : DiscoveryReport.skipped? (r, .offered (registry.register r).1) =
              some (r.name, rejection.message r.name) := by
            rw [skipped?_register, hvalidate]
          rw [List.filterMap_cons_some hline, List.filter_cons_of_pos (by simpa using hinvalid)]
          exact .cons ⟨rejection, hvalidate, rfl⟩ hrest
      | ok t =>
          have hvalid : r.valid S = true := Registration.valid_iff.mpr ⟨t, hvalidate⟩
          have hline : DiscoveryReport.skipped? (r, .offered (registry.register r).1) = none := by
            rw [skipped?_register, hvalidate]
          rw [List.filterMap_cons_none hline, List.filter_cons_of_neg (by simpa using hvalid)]
          exact hrest

/-- Offering one record and then others is offering them all. -/
theorem registerAll_cons (registry : Registry S) (r : Registration ι)
    (offered : List (Registration ι)) :
    registry.registerAll (r :: offered) =
      ((r, (registry.register r).1) :: ((registry.register r).2.registerAll offered).1,
        ((registry.register r).2.registerAll offered).2) :=
  rfl

/-- **A discovery offers what is asked for.**  It leaves the registry as offering these records
one after the other does, and the answers are the same. -/
theorem registerAll_asked (registry : Registry S) (catalog : List (Registration ι))
    (prefixes : List String) :
    registry.registerAll (asked prefixes catalog) =
      (offeredIn (registry.discover catalog prefixes).1.verdicts,
        (registry.discover catalog prefixes).2) := by
  induction catalog generalizing registry with
  | nil => rfl
  | cons r catalog ih =>
      by_cases houtside : r.Outside prefixes
      · rw [discover_cons_of_outside houtside, asked_cons_of_outside houtside, ih]
        rfl
      · rw [discover_cons_of_within houtside, asked_cons_of_within houtside, registerAll_cons, ih]
        rfl

end Catalog

/-! ## What a discovery leaves -/

/-- The registry has all types of another one, in the same order and in front of its own. -/
def Extends (later registry : Registry S) : Prop := registry.types <+: later.types

/-- What is found in a registry is found in all that extend it. -/
theorem Extends.find? {later registry : Registry S} (h : later.Extends registry)
    {tag : TypeTag} {t : ι} (hfind : registry.find? tag = some t) : later.find? tag = some t :=
  List.IsPrefix.find?_eq_some h hfind

/-- A registry comes out of another one as a report tells: it has the types that were added
and the collisions that were reported, and nothing is lost or set up anew. -/
structure Accounted (registry : Registry S) (report : DiscoveryReport ι)
    (after : Registry S) : Prop where
  config_eq : after.config = registry.config
  grown : after.Extends registry
  size_eq : after.size = registry.size + report.registered
  collisions_eq : after.collisions = registry.collisions ++ report.collisions

/-- Nothing comes of no record at all. -/
theorem Accounted.refl (registry : Registry S) : Accounted registry ⟨[]⟩ registry :=
  ⟨rfl, List.prefix_rfl, rfl, (List.append_nil _).symm⟩

/-- A record that is passed over changes nothing. -/
theorem Accounted.cons_filtered {registry after : Registry S}
    {verdicts : List (Registration ι × Verdict)} (r : Registration ι)
    (h : Accounted registry ⟨verdicts⟩ after) :
    Accounted registry ⟨(r, .filtered) :: verdicts⟩ after :=
  ⟨h.config_eq, h.grown, h.size_eq, h.collisions_eq⟩

/-- **One offer.**  It leads to the registry that its answer tells. -/
theorem accounted_register (registry : Registry S) (r : Registration ι) :
    Accounted registry ⟨[(r, .offered (registry.register r).1)]⟩ (registry.register r).2 := by
  rcases registry.register_cases r with
    ⟨rejection, hvalidate, hregister⟩ | ⟨t, hvalidate, ⟨free, hregister⟩ |
      ⟨held, -, ⟨-, hregister⟩ | ⟨collision, -, -, hregister⟩⟩⟩
  · rw [hregister]
    exact ⟨rfl, List.prefix_rfl, rfl, (List.append_nil _).symm⟩
  · rw [hregister]
    exact ⟨rfl, List.prefix_append _ _, List.length_append, (List.append_nil _).symm⟩
  · rw [hregister]
    exact ⟨rfl, List.prefix_rfl, rfl, (List.append_nil _).symm⟩
  · rw [hregister]
    exact ⟨rfl, List.prefix_rfl, rfl, rfl⟩

/-- What comes of one record and of those behind it comes of them all. -/
theorem Accounted.cons {registry middle after : Registry S}
    {entry : Registration ι × Verdict} {verdicts : List (Registration ι × Verdict)}
    (hfirst : Accounted registry ⟨[entry]⟩ middle) (hrest : Accounted middle ⟨verdicts⟩ after) :
    Accounted registry ⟨entry :: verdicts⟩ after where
  config_eq := hrest.config_eq.trans hfirst.config_eq
  grown := List.IsPrefix.trans hfirst.grown hrest.grown
  size_eq := by
    rw [hrest.size_eq, hfirst.size_eq, Nat.add_assoc]
    unfold DiscoveryReport.registered DiscoveryReport.count
    rw [← List.countP_append]
    rfl
  collisions_eq := by
    rw [hrest.collisions_eq, hfirst.collisions_eq, List.append_assoc]
    unfold DiscoveryReport.collisions
    rw [← List.filterMap_append]
    rfl

/-- **One catalog.**  Discovery leads to the registry that its report tells. -/
theorem accounted_discover (registry : Registry S) (catalog : List (Registration ι))
    (prefixes : List String) :
    Accounted registry (registry.discover catalog prefixes).1
      (registry.discover catalog prefixes).2 := by
  induction catalog generalizing registry with
  | nil => exact .refl registry
  | cons r catalog ih =>
      by_cases houtside : r.Outside prefixes
      · rw [discover_cons_of_outside houtside]
        exact (ih registry).cons_filtered r
      · rw [discover_cons_of_within houtside]
        exact (registry.accounted_register r).cons (ih (registry.register r).2)

/-! ## The same again -/

section Again

variable {registry later : Registry S}

/-- **One offer, made again.**  Once a registry has all that the first offer left, a second one
adds nothing, and is answered as the first one if that added nothing either. -/
theorem Extends.register {r : Registration ι} (h : later.Extends (registry.register r).2) :
    later.register r = ((registry.register r).1.settled,
      later.withCollisions (registry.register r).1.collision?.toList) := by
  rcases registry.register_cases r with
    ⟨rejection, hvalidate, hregister⟩ | ⟨t, hvalidate, ⟨free, hregister⟩ |
      ⟨held, hfind, ⟨hname, hregister⟩ | ⟨collision, rfl, hname, hregister⟩⟩⟩
  · rw [register_of_error hvalidate, hregister]
    simp [Admission.settled, Admission.collision?]
  · -- What was added is what the second offer finds.
    have hname : (S t).name = r.name := by
      rw [(Registration.validate_eq_ok_iff.mp hvalidate).1]
      rfl
    rw [hregister] at h ⊢
    rw [register_of_held hvalidate (h.find? (registry.find?_add_self t free)), if_pos hname]
    simp [Admission.settled, Admission.collision?]
  · -- What was held is held, so the names compare as before, here and in the last case.
    rw [hregister] at h ⊢
    rw [register_of_held hvalidate (h.find? hfind), if_pos hname]
    simp [Admission.settled, Admission.collision?]
  · rw [hregister] at h ⊢
    rw [register_of_held hvalidate (h.find? hfind), if_neg hname]
    rfl

/-- **One catalog, gone through again.**  Once a registry has all that the first discovery left,
a second one changes no type and reports the same collisions. -/
theorem Extends.discover {catalog : List (Registration ι)} {prefixes : List String}
    (h : later.Extends (registry.discover catalog prefixes).2) :
    later.discover catalog prefixes = ((registry.discover catalog prefixes).1.settled,
      later.withCollisions (registry.discover catalog prefixes).1.collisions) := by
  -- The later registry is general: each record that clashes adds to its collisions.
  induction catalog generalizing registry later with
  | nil => exact congrArg (Prod.mk _) later.withCollisions_nil.symm
  | cons r catalog ih =>
      by_cases houtside : r.Outside prefixes
      · rw [discover_cons_of_outside houtside] at h ⊢
        rw [discover_cons_of_outside houtside, ih h]
        rfl
      · rw [discover_cons_of_within houtside] at h ⊢
        have hfirst : later.Extends (registry.register r).2 :=
          List.IsPrefix.trans (accounted_discover _ catalog prefixes).grown h
        have hrest : (later.withCollisions (registry.register r).1.collision?.toList).Extends
            ((registry.register r).2.discover catalog prefixes).2 := h
        rw [discover_cons_of_within houtside, hfirst.register, ih hrest, ← withCollisions_append,
          DiscoveryReport.collisions_cons]
        rfl

end Again

/-- **Discovery accounts for every record and repeats harmlessly.**  From any registry, the counts
of the report add up to the length of the catalog.  Passed over are the records whose names begin
with none of the prefixes, if there are any; skipped are, of the others, the invalid ones, in the
order of the catalog.  The registry is that of offering these others one after the other, and has
as many more types as were registered.  The same discovery once more registers nothing, finds
unchanged what it registered or found unchanged before, passes over and skips the same records,
and leaves all as it was but the collisions, which it reports again. -/
theorem discovery_accounts_and_repeats (registry : Registry S)
    (catalog : List (Registration ι)) (prefixes : List String) :
    let report := (registry.discover catalog prefixes).1
    let once := (registry.discover catalog prefixes).2
    let again := (once.discover catalog prefixes).1
    let twice := (once.discover catalog prefixes).2
    let within := catalog.filter fun r => ¬ r.Outside prefixes
    report.registered + report.unchanged + report.filtered + report.skipped.length =
      catalog.length ∧
    once.size = registry.size + report.registered ∧
    report.filtered = catalog.countP (fun r => r.Outside prefixes) ∧
    List.Forall₂
      (fun line r => ∃ rejection, r.validate S = .error rejection ∧
        line = (r.name, rejection.message r.name))
      report.skipped (within.filter fun r => !r.valid S) ∧
    registry.registerAll within = (offeredIn report.verdicts, once) ∧
    once.config = registry.config ∧
    once.collisions = registry.collisions ++ report.collisions ∧
    twice = { once with collisions := once.collisions ++ report.collisions } ∧
    again.registered = 0 ∧
    again.unchanged = report.registered + report.unchanged ∧
    again.filtered = report.filtered ∧
    again.skipped = report.skipped := by
  intro report once again twice within
  have haccounted : Accounted registry report once :=
    accounted_discover registry catalog prefixes
  have hskipped := skipped_discover registry catalog prefixes
  have hoffered := registerAll_asked registry catalog prefixes
  rw [asked_eq_filter] at hskipped hoffered
  -- The registry that the first discovery left extends itself.
  have hsecond : (again, twice) = (report.settled, once.withCollisions report.collisions) :=
    Extends.discover (List.prefix_rfl : once.Extends once)
  obtain ⟨hagain, htwice⟩ := Prod.mk.inj hsecond
  refine ⟨?_, haccounted.size_eq, filtered_discover registry catalog prefixes, hskipped, hoffered,
    haccounted.config_eq, haccounted.collisions_eq, htwice, ?_, ?_, ?_, ?_⟩
  · rw [DiscoveryReport.counts_add_up]
    exact length_verdicts_discover registry catalog prefixes
  · rw [hagain, DiscoveryReport.registered_settled]
  · rw [hagain, DiscoveryReport.unchanged_settled]
  · rw [hagain, DiscoveryReport.filtered_settled]
  · rw [hagain, DiscoveryReport.skipped_settled]

-- A collision is reported each time, while the registration that won is only added once.
example :
    let rivals : Schema Bool := fun second =>
      { name := if second then "fleet.Tram" else "fleet.Truck", tag := ⟨7⟩, fields := [] }
    let catalog := [.of rivals false, .of rivals true, ⟨"depot.Shed", ⟨9⟩, .panics⟩]
    let once := ({} : Registry rivals).discover catalog ["fleet."]
    let twice := once.2.discover catalog ["fleet."]
    once.1.registered = 1 ∧ once.1.unchanged = 1 ∧ once.2.collisions.length = 1 ∧
      twice.1.registered = 0 ∧ twice.1.unchanged = 2 ∧ twice.2.collisions.length = 2 := by
  decide +kernel

end Registry

end TagWire
