import TagWire.Limits

/-!
# Registry configuration

A registry is set up with the type names that discovery admits and with the
limits of the sessions it decodes in.
-/

namespace TagWire

/-- Settings of a registry. -/
structure RegistryConfig where
  /-- Beginnings of type names that discovery is restricted to; none accept all. -/
  prefixes : List String := []
  /-- Limits of decoding through the registry. -/
  codec : Limits := {}
  deriving DecidableEq, Repr, Inhabited

end TagWire
