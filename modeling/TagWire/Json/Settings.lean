import TagWire.Json.Document
import TagWire.Registry.Config
import TagWire.Tag

/-!
# Settings in JSON

Limits and registry configurations are read from an object by the names of
their fields, or from an array in the order of their fields.  What is missing
has its default and unknown names are passed over, but no field may be given
twice and no array may be too long.  A tag is a bare integer of 32 bits.
-/

namespace TagWire

namespace Json

/-- The members of an object with their names spelled out. -/
def members : List (List Char × Document) → Option (List (String × Document)) :=
  List.mapM fun member => (textOf? member.1).map (·, member.2)

/-- The values of fields in a document: the only member of each name, or the items of
an array one after the other. -/
def fields? (names : List String) : Document → Option (List (Option Document))
  | .object spelled => do
      let held ← members spelled
      names.mapM fun name =>
        match held.filter fun member => member.1 = name with
        | [] => some none
        | [member] => some (some member.2)
        | _ => none
  | .array items =>
      if items.length ≤ names.length then
        some (names.mapIdx fun i _ => items[i]?)
      else none
  | _ => none

/-- A number of at most 64 bits. -/
def word64? : Document → Option Nat
  | .number literal => (natOf? literal).filter (· < UInt64.size)
  | _ => none

/-- A text. -/
def string? : Document → Option String
  | .text escaped => textOf? escaped
  | _ => none

/-- An array of texts. -/
def strings? : Document → Option (List String)
  | .array items => items.mapM string?
  | _ => none

/-- The meaning of a field, or its default where it is missing. -/
def orDefault {α : Type} (read? : Document → Option α) (default : α) :
    Option Document → Option α
  | some document => read? document
  | none => some default

end Json

open Json

namespace Limits

/-- The limits that a document gives. -/
def ofDocument? (document : Document) : Option Limits := do
  match ← fields? ["max_length", "max_depth"] document with
  | [maxLength, maxDepth] =>
      let usual : Limits := {}
      return ⟨← orDefault word64? usual.maxLength maxLength,
        ← orDefault word64? usual.maxDepth maxDepth⟩
  | _ => none

/-- The limits that a text gives. -/
def ofJson? (text : String) : Option Limits := (Document.ofText? text).bind ofDocument?

/-- The limits as JSON. -/
def toJson (limits : Limits) : String :=
  "\x7b\"max_length\":" ++ toString limits.maxLength ++ ",\"max_depth\":"
    ++ toString limits.maxDepth ++ "\x7d"

end Limits

namespace RegistryConfig

/-- The configuration that a text gives. -/
def ofJson? (text : String) : Option RegistryConfig := do
  match ← fields? ["prefixes", "codec"] (← Document.ofText? text) with
  | [prefixes, codec] =>
      return ⟨← orDefault strings? [] prefixes, ← orDefault Limits.ofDocument? {} codec⟩
  | _ => none

/-- The configuration as JSON. -/
def toJson (config : RegistryConfig) : String :=
  "\x7b\"prefixes\":[" ++ ",".intercalate (config.prefixes.map quote) ++ "],\"codec\":"
    ++ config.codec.toJson ++ "\x7d"

end RegistryConfig

namespace TypeTag

/-- The integer of a literal without fraction and exponent; zero has no sign. -/
def intOf? : List Char → Option Int
  | '-' :: digits => (natOf? digits).bind fun n => if n = 0 then none else some (-(n : Int))
  | digits => (natOf? digits).map Int.ofNat

/-- The tag that a text gives. -/
def ofJson? (text : String) : Option TypeTag := do
  match ← Document.ofText? text with
  | .number literal =>
      let value ← intOf? literal
      if Int32.minValue.toInt ≤ value ∧ value ≤ Int32.maxValue.toInt then some ⟨Int32.ofInt value⟩ else none
  | _ => none

/-- The tag as JSON. -/
def toJson (tag : TypeTag) : String := toString tag.value

end TypeTag

end TagWire
