import TagWire.Fault
import TagWire.Registry.Config
import TagWire.Registry.Registration

/-!
# Registries

A registry finds the types of tags.  The first valid registration of a tag
keeps it: a later one of the same name changes nothing, and one of another
name is recorded as a collision.
-/

namespace TagWire

variable {ι : Type}

/-- Two type names with one tag. -/
structure Collision where
  tag : TypeTag
  /-- The name that had the tag before and keeps it. -/
  kept : String
  /-- The name whose registration was ignored. -/
  ignored : String
  deriving DecidableEq, Repr

/-- Collisions as a reason to fail. -/
structure Ambiguity where
  collisions : List Collision
  deriving DecidableEq, Repr

/-- The number of collisions in words. -/
def Ambiguity.message (ambiguity : Ambiguity) : String :=
  let count := ambiguity.collisions.length
  s!"{count} type tag collision(s) registered"

/-- The types that are known by their tags. -/
structure Registry (S : Schema ι) where
  config : RegistryConfig := {}
  /-- The registered types in the order of their registration. -/
  types : List ι := []
  /-- The collisions in the order in which they happened. -/
  collisions : List Collision := []
  /-- No tag is registered twice. -/
  distinct_tags : (types.map fun t => (S t).tag).Nodup := by exact .nil

/-- What comes of offering a registration. -/
inductive Admission where
  | added
  /-- The tag is registered under the same name. -/
  | repeated
  /-- The tag is registered under another name. -/
  | clashed (collision : Collision)
  | rejected (rejection : Rejection)
  deriving DecidableEq, Repr

namespace Registry

variable {S : Schema ι}

/-- The type that is registered under a tag. -/
def find? (registry : Registry S) (tag : TypeTag) : Option ι :=
  registry.types.find? fun t => (S t).tag = tag

/-- A tag that finds nothing is no tag of a registered type. -/
theorem tag_notMem_of_find?_eq_none {registry : Registry S} {tag : TypeTag}
    (h : registry.find? tag = none) : tag ∉ registry.types.map fun t => (S t).tag := by
  intro hmem
  obtain ⟨t, ht, htag⟩ := List.mem_map.mp hmem
  have := List.find?_eq_none.mp h t ht
  simp [htag] at this

/-- The registry with one more type under a free tag. -/
def add (registry : Registry S) (t : ι) (free : registry.find? (S t).tag = none) : Registry S :=
  { registry with
    types := registry.types ++ [t]
    distinct_tags := by
      have hnot := tag_notMem_of_find?_eq_none free
      rw [List.map_append]
      refine List.nodup_append.mpr ⟨registry.distinct_tags, by simp, ?_⟩
      intro a ha b hb heq
      simp at hb
      exact hnot (hb ▸ heq ▸ ha) }

/-- Offers a registration to a registry. -/
def register (registry : Registry S) (registration : Registration ι) : Admission × Registry S :=
  match registration.validate S with
  | .error rejection => (.rejected rejection, registry)
  | .ok t =>
      match h : registry.find? (S t).tag with
      | none => (.added, registry.add t h)
      | some held =>
          if (S held).name = registration.name then (.repeated, registry)
          else
            let collision : Collision := ⟨registration.tag, (S held).name, registration.name⟩
            (.clashed collision, { registry with collisions := registry.collisions ++ [collision] })

/-- Whether a type is registered under a tag. -/
def contains (registry : Registry S) (tag : TypeTag) : Bool := (registry.find? tag).isSome

/-- The number of registered types. -/
def size (registry : Registry S) : Nat := registry.types.length

/-- The name of the type that is registered under a tag. -/
def typeNameOf? (registry : Registry S) (tag : TypeTag) : Option String :=
  (registry.find? tag).map fun t => (S t).name

/-- The registered tags in ascending order. -/
def tags (registry : Registry S) : List TypeTag :=
  (registry.types.map fun t => (S t).tag).mergeSort fun a b => a.value ≤ b.value

/-- The type that is registered under a tag, or the fault that there is none. -/
def resolve (registry : Registry S) (tag : TypeTag) : Except Fault ι :=
  match registry.find? tag with
  | some t => .ok t
  | none => .error (.unknownType tag)

/-- A fresh record of the type that is registered under a tag. -/
def instantiate (registry : Registry S) (tag : TypeTag) : Except Fault (Instance S) :=
  (registry.resolve tag).map Instance.blank

/-- Fails if a registration was ignored because its tag was taken. -/
def verifyUnique (registry : Registry S) : Except Ambiguity Unit :=
  if registry.collisions.isEmpty then .ok () else .error ⟨registry.collisions⟩

end Registry

end TagWire
