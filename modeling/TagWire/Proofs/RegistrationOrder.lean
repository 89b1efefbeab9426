import Mathlib.Data.List.Basic
import Mathlib.Data.List.Induction
import TagWire.Proofs.RegistryHistory

/-!
# The order of registrations

The first valid registration of a tag keeps it, so the order decides who wins where several
contend for one tag.  It decides nothing else: which tags are taken, which registrations are
rejected and whether there is any collision can be read off the registrations as they are, in
whatever order:

* `Registration.rejections_answers` — a rejection does not depend on what came before;
* `Registration.Unambiguous` — every tag goes with one name; `Registration.no_collision_iff` says
  that nothing collides exactly in this case;
* `Registry.Remembers.tags_eq`, `Registry.Remembers.verifyUnique_iff`,
  `Registry.Remembers.typeNameOf?_eq_of_agreed` — what registries have in common that were offered
  the same in different orders;
* `Registry.verdict_of_perm` — all of it for registries that were new.

The number of collisions is no such thing.  Three registrations of one tag, two of them of one
name, collide once or twice.
-/

namespace TagWire

variable {ι : Type} {S : Schema ι}

namespace Registration

variable {offered offered' earlier : List (Registration ι)} {registration : Registration ι}
variable {tag : TypeTag}

/-- The registrations that some answers reject, with the reasons. -/
def rejections (answers : List (Registration ι × Admission)) :
    List (Registration ι × Rejection) :=
  answers.filterMap fun answer =>
    match answer.2 with
    | .rejected rejection => some (answer.1, rejection)
    | _ => none

/-- Why a registration is rejected, whenever it is offered, if it is. -/
def rejection? (S : Schema ι) (registration : Registration ι) :
    Option (Registration ι × Rejection) :=
  match registration.validate S with
  | .error rejection => some (registration, rejection)
  | .ok _ => none

/-- A rejection does not depend on what was offered before. -/
theorem rejections_answers (offered : List (Registration ι)) :
    rejections (answers S offered) = offered.filterMap (rejection? S) := by
  have hone : ∀ (earlier : List (Registration ι)) (r : Registration ι),
      rejections [(r, r.answer S earlier)] = [r].filterMap (rejection? S) := by
    intro earlier r
    unfold rejection?
    cases hvalidate : r.validate S with
    | error rejection => simp [rejections, answer_of_error hvalidate, hvalidate]
    | ok t =>
        cases hfirst : first? S earlier r.tag with
        | none => simp [rejections, answer_of_first hvalidate hfirst, hvalidate]
        | some held =>
            by_cases hname : held.name = r.name
            · simp [rejections, answer_of_later hvalidate hfirst, hvalidate, hname]
            · simp [rejections, answer_of_later hvalidate hfirst, hvalidate, hname]
  induction offered using List.reverseRecOn with
  | nil => rfl
  | append_singleton offered r ih =>
      have happend : rejections (answers S offered ++ [(r, r.answer S offered)]) =
          rejections (answers S offered) ++ rejections [(r, r.answer S offered)] :=
        List.filterMap_append
      rw [answers_append_singleton, happend, ih, hone, List.filterMap_append]

/-! ## Tags and names -/

/-- Every tag goes with one name, as far as valid registrations are concerned. -/
def Unambiguous (S : Schema ι) (offered : List (Registration ι)) : Prop :=
  ∀ r ∈ offered, ∀ q ∈ offered, r.valid S = true → q.valid S = true → r.tag = q.tag →
    r.name = q.name

/-- The valid registrations of a tag. -/
def contenders (S : Schema ι) (offered : List (Registration ι)) (tag : TypeTag) :
    List (Registration ι) :=
  offered.filter fun r => r.valid S && r.tag = tag

theorem mem_contenders_iff {r : Registration ι} :
    r ∈ contenders S offered tag ↔ r ∈ offered ∧ r.valid S = true ∧ r.tag = tag := by
  simp [contenders]

/-- Agreement among the valid registrations of a tag is agreement among those that contend. -/
theorem agreed_of_forall {α : Type} {f : Registration ι → α}
    (h : ∀ r ∈ offered, ∀ q ∈ offered, r.valid S = true → q.valid S = true →
      r.tag = tag → q.tag = tag → f r = f q) :
    ∀ r ∈ contenders S offered tag, ∀ q ∈ contenders S offered tag, f r = f q := by
  intro r hr q hq
  obtain ⟨hr, hrvalid, hrtag⟩ := mem_contenders_iff.mp hr
  obtain ⟨hq, hqvalid, hqtag⟩ := mem_contenders_iff.mp hq
  exact h r hr q hq hrvalid hqvalid hrtag hqtag

/-- The first of its tag is one of those that contend for it. -/
theorem mem_contenders_of_first? {held : Registration ι}
    (h : first? S offered tag = some held) : held ∈ contenders S offered tag := by
  have hmem := List.mem_of_find?_eq_some h
  have hheld := List.find?_some h
  rw [Bool.and_eq_true, decide_eq_true_eq] at hheld
  exact mem_contenders_iff.mpr ⟨hmem, hheld⟩

/-- There is a first one where any contend. -/
theorem exists_first?_of_mem {r : Registration ι} (h : r ∈ contenders S offered tag) :
    ∃ held, first? S offered tag = some held := by
  obtain ⟨hmem, hvalid, htag⟩ := mem_contenders_iff.mp h
  cases hfirst : first? S offered tag with
  | some held => exact ⟨held, rfl⟩
  | none => exact absurd htag (first?_eq_none_iff.mp hfirst r hmem hvalid)

/-- A registration is answered with a collision when the first of its tag has another name. -/
theorem collision?_answer_eq_none_iff :
    (registration.answer S earlier).collision? = none ↔
      (registration.valid S = true →
        ∀ held, first? S earlier registration.tag = some held → held.name = registration.name) := by
  rw [valid_iff]
  cases hvalidate : registration.validate S with
  | error rejection => simp [answer_of_error hvalidate, Admission.collision?]
  | ok t =>
      cases hfirst : first? S earlier registration.tag with
      | none => simp [answer_of_first hvalidate hfirst, Admission.collision?]
      | some held =>
          rw [answer_of_later hvalidate hfirst]
          by_cases hname : held.name = registration.name
          · simp [hname, Admission.collision?]
          · simp [hname, Admission.collision?]

/-- One more registration leaves all tags unambiguous if its tag goes with its name before. -/
theorem unambiguous_append_singleton_iff :
    Unambiguous S (offered ++ [registration]) ↔
      Unambiguous S offered ∧ (registration.valid S = true →
        ∀ q ∈ contenders S offered registration.tag, q.name = registration.name) := by
  simp only [Unambiguous, mem_contenders_iff, List.mem_append, List.mem_singleton]
  constructor
  · intro h
    refine ⟨fun r hr q hq => h r (.inl hr) q (.inl hq), ?_⟩
    rintro hvalid q ⟨hq, hqvalid, htag⟩
    exact h q (.inl hq) registration (.inr rfl) hqvalid hvalid htag
  · rintro ⟨hbefore, hlast⟩ r (hr | rfl) q (hq | rfl) hrvalid hqvalid htag
    · exact hbefore r hr q hq hrvalid hqvalid htag
    · exact hlast hqvalid r ⟨hr, hrvalid, htag⟩
    · exact (hlast hrvalid q ⟨hq, hqvalid, htag.symm⟩).symm
    · rfl

/-- **No answer is a collision exactly if every tag goes with one name.** -/
theorem no_collision_iff (offered : List (Registration ι)) :
    (answers S offered).filterMap (fun answer => answer.2.collision?) = [] ↔
      Unambiguous S offered := by
  induction offered using List.reverseRecOn with
  | nil => simp [answers, Unambiguous]
  | append_singleton offered r ih =>
      rw [answers_append_singleton, List.filterMap_append, List.append_eq_nil_iff, ih,
        unambiguous_append_singleton_iff]
      refine and_congr_right fun hbefore => ?_
      have hlast : [(r, r.answer S offered)].filterMap (fun answer => answer.2.collision?) = [] ↔
          (r.answer S offered).collision? = none := by
        cases hcollision : (r.answer S offered).collision? <;> simp [hcollision]
      rw [hlast, collision?_answer_eq_none_iff]
      refine imp_congr_right fun hvalid => ⟨fun h q hq => ?_, fun h held hheld => ?_⟩
      · -- Before `r`, all that contend for its tag have the name of the first of them.
        obtain ⟨held, hheld⟩ := exists_first?_of_mem hq
        obtain ⟨hmem, hheldvalid, htag⟩ := mem_contenders_iff.mp (mem_contenders_of_first? hheld)
        obtain ⟨hqmem, hqvalid, hqtag⟩ := mem_contenders_iff.mp hq
        rw [← h held hheld]
        exact hbefore q hqmem held hmem hqvalid hheldvalid (hqtag.trans htag.symm)
      · exact h held (mem_contenders_of_first? hheld)

section Order

variable (hperm : offered.Perm offered')
include hperm

/-- Whether every tag goes with one name is no matter of order. -/
theorem Unambiguous.of_perm (h : Unambiguous S offered) : Unambiguous S offered' :=
  fun r hr q hq => h r (hperm.mem_iff.mpr hr) q (hperm.mem_iff.mpr hq)

/-- Who contends for a tag is none either. -/
theorem mem_contenders_of_perm {r : Registration ι} :
    r ∈ contenders S offered tag ↔ r ∈ contenders S offered' tag := by
  rw [mem_contenders_iff, mem_contenders_iff, hperm.mem_iff]

/-- Where all that contend for a tag agree in something, the first of them has it in any order. -/
theorem map_first?_of_perm {α : Type} (f : Registration ι → α)
    (hagreed : ∀ r ∈ contenders S offered tag, ∀ q ∈ contenders S offered tag, f r = f q) :
    (first? S offered tag).map f = (first? S offered' tag).map f := by
  cases hfirst : first? S offered tag with
  | none =>
      cases hfirst' : first? S offered' tag with
      | none => rfl
      | some held' =>
          have hmem := (mem_contenders_of_perm hperm).mpr (mem_contenders_of_first? hfirst')
          obtain ⟨held, hsome⟩ := exists_first?_of_mem hmem
          cases hfirst.symm.trans hsome
  | some held =>
      have hmem := mem_contenders_of_first? hfirst
      obtain ⟨held', hfirst'⟩ := exists_first?_of_mem ((mem_contenders_of_perm hperm).mp hmem)
      have hmem' := (mem_contenders_of_perm hperm).mpr (mem_contenders_of_first? hfirst')
      rw [hfirst']
      exact congrArg some (hagreed held hmem held' hmem')

end Order

end Registration

namespace Registry

open Registration

/-- As many types are registered as there are tags. -/
theorem size_eq_length_tags (registry : Registry S) : registry.size = registry.tags.length := by
  unfold size tags
  rw [List.length_mergeSort, List.length_map]

/-- The ascending list of tags is determined by which tags are in it. -/
theorem tags_eq_of_contains {a b : Registry S} (h : ∀ tag, a.contains tag = b.contains tag) :
    a.tags = b.tags := by
  have hnodup : ∀ registry : Registry S, registry.tags.Nodup := fun registry =>
    (List.mergeSort_perm _ _).nodup_iff.mpr registry.distinct_tags
  have hperm : a.tags.Perm b.tags := by
    refine (List.perm_ext_iff_of_nodup (hnodup a) (hnodup b)).mpr fun tag => ?_
    rw [mem_tags_iff, mem_tags_iff, h]
  refine List.Perm.eq_of_pairwise ?_ a.pairwise_tags b.pairwise_tags hperm
  intro s t _ _ hst hts
  exact absurd hts (Int32.lt_asymm hst)

/-- A registration holds the type that it was made from. -/
theorem find?_eq_of_held? {a b : Registry S} {tag : TypeTag} (h : a.held? tag = b.held? tag) :
    a.find? tag = b.find? tag := by
  refine Option.map_injective ?_ h
  intro s t hof
  exact Factory.makes.inj (congrArg Registration.factory hof)

section Order

variable {a b : Registry S} {offered offered' : List (Registration ι)} {tag : TypeTag}
variable (ha : a.Remembers offered) (hb : b.Remembers offered')

section

include ha

/-- Nothing has collided exactly if every tag goes with one name. -/
theorem Remembers.verifyUnique_iff : a.verifyUnique = .ok () ↔ Unambiguous S offered := by
  rw [verifyUnique_eq_ok_iff, ha.collisions_eq, no_collision_iff]

end

variable (hperm : offered.Perm offered')
include ha hb hperm

/-- The same tags are taken in any order. -/
theorem Remembers.contains_eq : a.contains tag = b.contains tag := by
  rw [Bool.eq_iff_iff, ha.contains_iff, hb.contains_iff]
  simp only [hperm.mem_iff]

/-- The same tags are listed in any order. -/
theorem Remembers.tags_eq : a.tags = b.tags :=
  tags_eq_of_contains fun _ => ha.contains_eq hb hperm

/-- The name under a tag is the same in any order, where all that contend for it have one name. -/
theorem Remembers.typeNameOf?_eq_of_agreed
    (hagreed : ∀ r ∈ contenders S offered tag, ∀ q ∈ contenders S offered tag, r.name = q.name) :
    a.typeNameOf? tag = b.typeNameOf? tag := by
  rw [typeNameOf?_eq, typeNameOf?_eq, ha.entry_eq, hb.entry_eq]
  exact map_first?_of_perm hperm Registration.name hagreed

/-- The type under a tag is the same in any order, where only one registration contends for it. -/
theorem Remembers.resolve_eq_of_agreed
    (hagreed : ∀ r ∈ contenders S offered tag, ∀ q ∈ contenders S offered tag, r = q) :
    a.resolve tag = b.resolve tag := by
  have hheld : a.held? tag = b.held? tag := by
    rw [ha.entry_eq, hb.entry_eq]
    simpa using map_first?_of_perm hperm id hagreed
  unfold resolve
  rw [find?_eq_of_held? hheld]

end Order

/-- Offers registrations one after the other. -/
def registerAll (registry : Registry S) (offered : List (Registration ι)) :
    List (Registration ι × Admission) × Registry S :=
  registry.performAll (offered.map .registerEntry)

/-- A new registry answers and remembers them in their order. -/
theorem remembers_registerAll (config : RegistryConfig) (offered : List (Registration ι)) :
    let outcome := ({ config } : Registry S).registerAll offered
    outcome.1 = answers S offered ∧ outcome.2.Remembers offered := by
  have hcalls : (offered.map Call.registerEntry).flatMap (Call.offered S) = offered := by
    rw [List.flatMap_map]
    exact List.flatMap_singleton' offered
  obtain ⟨hanswers, hremembers⟩ :=
    (remembers_nil (S := S) config).performAll (offered.map .registerEntry)
  rw [List.nil_append, hcalls] at hanswers hremembers
  exact ⟨hanswers, hremembers⟩

/-- **The order of registrations decides nothing but who wins.**  Two new registries that are
offered the same registrations in different orders have the same tags, reject the same
registrations for the same reasons, and both find all names unique or both do not.  They agree on
the name under each tag for which valid registrations of one name contend, and on the type under
it if these are all the same. -/
theorem verdict_of_perm (config : RegistryConfig) {offered offered' : List (Registration ι)}
    (hperm : offered.Perm offered') :
    let outcome := ({ config } : Registry S).registerAll offered
    let outcome' := ({ config } : Registry S).registerAll offered'
    let registry := outcome.2
    let registry' := outcome'.2
    registry.tags = registry'.tags ∧
    registry.size = registry'.size ∧
    (rejections outcome.1).Perm (rejections outcome'.1) ∧
    (registry.verifyUnique = .ok () ↔ registry'.verifyUnique = .ok ()) ∧
    (∀ tag,
      (∀ r ∈ offered, ∀ q ∈ offered, r.valid S = true → q.valid S = true →
        r.tag = tag → q.tag = tag → r.name = q.name) →
      registry.typeNameOf? tag = registry'.typeNameOf? tag) ∧
    ∀ tag,
      (∀ r ∈ offered, ∀ q ∈ offered, r.valid S = true → q.valid S = true →
        r.tag = tag → q.tag = tag → r = q) →
      registry.resolve tag = registry'.resolve tag := by
  intro outcome outcome' registry registry'
  obtain ⟨hanswers, ha⟩ : outcome.1 = answers S offered ∧ registry.Remembers offered :=
    remembers_registerAll config offered
  obtain ⟨hanswers', hb⟩ : outcome'.1 = answers S offered' ∧ registry'.Remembers offered' :=
    remembers_registerAll config offered'
  have htags := ha.tags_eq hb hperm
  refine ⟨htags, ?_, ?_, ?_, ?_, ?_⟩
  · rw [size_eq_length_tags, size_eq_length_tags, htags]
  · rw [hanswers, hanswers', rejections_answers, rejections_answers]
    exact hperm.filterMap _
  · rw [ha.verifyUnique_iff, hb.verifyUnique_iff]
    exact ⟨.of_perm hperm, .of_perm hperm.symm⟩
  · exact fun tag hagreed => ha.typeNameOf?_eq_of_agreed hb hperm (agreed_of_forall hagreed)
  · exact fun tag hagreed => ha.resolve_eq_of_agreed hb hperm (agreed_of_forall hagreed)

/-- A type with a tag of its own and two types that pin one tag. -/
def convoy : Schema (Fin 3)
  | 0 => { name := "fleet.Van", tag := ⟨3⟩, fields := [] }
  | 1 => { name := "fleet.Truck", tag := ⟨7⟩, fields := [] }
  | 2 => { name := "fleet.Tram", tag := ⟨7⟩, fields := [] }

/-- Registrations of these types, of which one is rejected and one comes twice. -/
def convoyOffers : List (Registration (Fin 3)) :=
  [.of convoy 0, .of convoy 1, ⟨"fleet.Tram", ⟨8⟩, .makes 2⟩, .of convoy 2, .of convoy 2]

/-- Backwards, the other of two types wins their tag and there is one collision instead of two.
The rest is the same. -/
theorem convoy_verdict_of_perm :
    let outcome := ({} : Registry convoy).registerAll convoyOffers
    let outcome' := ({} : Registry convoy).registerAll convoyOffers.reverse
    let registry := outcome.2
    let registry' := outcome'.2
    registry.tags = registry'.tags ∧
      (rejections outcome.1).Perm (rejections outcome'.1) ∧
      (registry.verifyUnique = .ok () ↔ registry'.verifyUnique = .ok ()) ∧
      registry.typeNameOf? ⟨3⟩ = registry'.typeNameOf? ⟨3⟩ ∧
      registry.resolve ⟨3⟩ = registry'.resolve ⟨3⟩ ∧
      registry.typeNameOf? ⟨7⟩ ≠ registry'.typeNameOf? ⟨7⟩ ∧
      registry.collisions.length = 2 ∧ registry'.collisions.length = 1 := by
  intro outcome outcome' registry registry'
  obtain ⟨htags, -, hrejections, hverify, hname, hresolve⟩ :=
    verdict_of_perm (S := convoy) {} (List.reverse_perm convoyOffers).symm
  have hagreed : ∀ r ∈ convoyOffers, ∀ q ∈ convoyOffers, r.valid convoy = true →
      q.valid convoy = true → r.tag = ⟨3⟩ → q.tag = ⟨3⟩ → r = q := by
    decide +kernel
  refine ⟨htags, hrejections, hverify, hname ⟨3⟩ ?_, hresolve ⟨3⟩ hagreed, ?_, ?_, ?_⟩
  · intro r hr q hq hrvalid hqvalid hrtag hqtag
    exact congrArg Registration.name (hagreed r hr q hq hrvalid hqvalid hrtag hqtag)
  · decide +kernel
  · decide +kernel
  · decide +kernel

end Registry

end TagWire
