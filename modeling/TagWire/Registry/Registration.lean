import TagWire.Schema.Value
import TagWire.Text.Quoted

/-!
# Registrations

A registration declares a type to a registry: its name, its tag and a factory
of fresh records.  A factory may be written by hand, so a registry checks
that what it makes has the declared name and tag.
-/

namespace TagWire

/-- What making a fresh record comes to. -/
inductive Factory (ι : Type) where
  /-- A fresh record of this type. -/
  | makes (type : ι)
  /-- No record: the factory panics. -/
  | panics
  deriving DecidableEq, Repr

/-- A type as it is declared to a registry. -/
structure Registration (ι : Type) where
  name : String
  tag : TypeTag
  factory : Factory ι
  deriving DecidableEq, Repr

/-- Why a registration is not accepted. -/
inductive Rejection where
  | emptyName
  | factoryPanicked
  /-- The factory makes records with another tag. -/
  | producedTag (produced declared : TypeTag)
  /-- The factory makes records of another name. -/
  | producedName (produced : String)
  deriving DecidableEq, Repr

/-- The reason in words. -/
def Rejection.reason : Rejection → String
  | emptyName => "empty type name"
  | factoryPanicked => "factory panicked"
  | producedTag produced declared =>
      "factory produced tag " ++ produced.display ++ " but record declares " ++ declared.display
  | producedName produced => "factory produced " ++ produced

/-- The rejection of a registration by its name, in words. -/
def Rejection.message (rejection : Rejection) (name : String) : String :=
  "Registration of " ++ name ++ " rejected: " ++ rejection.reason

namespace Registration

variable {ι : Type} (S : Schema ι)

/-- The registration of a type under its own name and tag. -/
def of (t : ι) : Registration ι := ⟨(S t).name, (S t).tag, .makes t⟩

/-- The type that a registration is for, once its factory has shown that it makes
records of the declared tag and name. -/
def validate (registration : Registration ι) : Except Rejection ι :=
  if registration.name = "" then .error .emptyName
  else match registration.factory with
    | .panics => .error .factoryPanicked
    | .makes t =>
        if (S t).tag ≠ registration.tag then
          .error (.producedTag (S t).tag registration.tag)
        else if (S t).name ≠ registration.name then .error (.producedName (S t).name)
        else .ok t

/-- Whether the name begins with one of the prefixes, or there are none. -/
def matchesPrefix (registration : Registration ι) (prefixes : List String) : Bool :=
  prefixes.isEmpty || prefixes.any fun p => p.toList.isPrefixOf registration.name.toList

end Registration

/-- A name and a tag in the form of a structure, for diagnostics. -/
def describe (structureName tagField name : String) (tag : TypeTag) : String :=
  let value := toString tag.value
  structureName ++ " \x7b type_name: " ++ Quoted.encode name ++ ", " ++ tagField ++ ": TypeTag("
    ++ value ++ ") \x7d"

/-- The registration, for diagnostics. -/
def Registration.debug {ι : Type} (registration : Registration ι) : String :=
  describe "Registration" "tag" registration.name registration.tag

/-- The type of a record, for diagnostics. -/
def Instance.debug {ι : Type} {S : Schema ι} (x : Instance S) : String :=
  describe "AnyDormant" "type_tag" x.typeName x.tag

end TagWire
