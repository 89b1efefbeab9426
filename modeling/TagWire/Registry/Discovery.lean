import TagWire.Registry.Basic

/-!
# Discovery

Discovery offers a whole catalog of registrations to a registry, as far as
their names begin as asked for.  It never fails: the report tells for each
record what came of it, and the counts and the notices for a log are read off
the report.
-/

namespace TagWire

variable {ι : Type}

/-- How much a notice matters. -/
inductive Level where
  | debug | info | warn
  deriving DecidableEq, Repr

/-- A line for a log. -/
structure Notice where
  level : Level
  text : String
  deriving DecidableEq, Repr

/-- What there is to say about an offered registration. -/
def Admission.notices (registration : Registration ι) : Admission → List Notice
  | added => [⟨.debug, "Registered " ++ registration.name ++ " with tag "
      ++ registration.tag.display⟩]
  | clashed c => [⟨.warn, "Type tag collision on " ++ c.tag.display ++ ": keeping " ++ c.kept
      ++ ", ignoring " ++ c.ignored⟩]
  | _ => []

/-- What came of a record of a catalog. -/
inductive Verdict where
  /-- Its name does not begin as asked for. -/
  | filtered
  | offered (admission : Admission)
  deriving DecidableEq, Repr

/-- What came of the records of a catalog, in its order. -/
structure DiscoveryReport (ι : Type) where
  verdicts : List (Registration ι × Verdict) := []

namespace DiscoveryReport

variable (report : DiscoveryReport ι)

/-- The number of records whose verdict has a property. -/
def count (p : Verdict → Bool) : Nat := report.verdicts.countP fun entry => p entry.2

/-- Newly registered types. -/
def registered : Nat := report.count (· = .offered .added)

/-- Valid records that added no type. -/
def unchanged : Nat := report.count fun
  | .offered .repeated | .offered (.clashed _) => true
  | _ => false

/-- Records outside the prefixes. -/
def filtered : Nat := report.count (· = .filtered)

/-- Rejected records by name, with the reason in words. -/
def skipped : List (String × String) := report.verdicts.filterMap fun
  | (registration, .offered (.rejected rejection)) =>
      some (registration.name, rejection.message registration.name)
  | _ => none

/-- What there is to say about one record of a catalog. -/
def verdictNotices (registration : Registration ι) : Verdict → List Notice
  | .filtered => []
  | .offered (.rejected rejection) => [⟨.warn, "Skipping " ++ registration.name
      ++ " during discovery: " ++ rejection.message registration.name⟩]
  | .offered admission => admission.notices registration

/-- The counts in words. -/
def summary : String :=
  let (registered, unchanged, filtered, skipped) :=
    (report.registered, report.unchanged, report.filtered, report.skipped.length)
  s!"Discovery registered {registered} type(s), {unchanged} unchanged, {filtered} filtered, "
    ++ s!"{skipped} skipped"

/-- What there is to say about a discovery: first about its records, then in all. -/
def notices : List Notice :=
  report.verdicts.flatMap (fun entry => verdictNotices entry.1 entry.2)
    ++ [⟨.info, report.summary⟩]

end DiscoveryReport

namespace Registry

variable {S : Schema ι}

/-- What comes of the records of a catalog, one after the other. -/
def offerAll (prefixes : List String) :
    List (Registration ι) → Registry S → List (Registration ι × Verdict) × Registry S
  | [], registry => ([], registry)
  | registration :: catalog, registry =>
      let (verdict, registry) :=
        if registration.matchesPrefix prefixes then
          let (admission, registry) := registry.register registration
          (Verdict.offered admission, registry)
        else (.filtered, registry)
      let (verdicts, registry) := offerAll prefixes catalog registry
      ((registration, verdict) :: verdicts, registry)

/-- Offers the records of a catalog whose names begin with one of the prefixes. -/
def discover (registry : Registry S) (catalog : List (Registration ι)) (prefixes : List String) :
    DiscoveryReport ι × Registry S :=
  let (verdicts, registry) := offerAll prefixes catalog registry
  (⟨verdicts⟩, registry)

/-- Discovery with the configured prefixes. -/
def discoverConfigured (registry : Registry S) (catalog : List (Registration ι)) :
    DiscoveryReport ι × Registry S :=
  registry.discover catalog registry.config.prefixes

/-- A new registry with the types of a catalog. -/
def ofCatalog (catalog : List (Registration ι)) (config : RegistryConfig) :
    DiscoveryReport ι × Registry S :=
  ({ config } : Registry S).discoverConfigured catalog

end Registry

end TagWire
