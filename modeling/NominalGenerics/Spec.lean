import NominalGenerics.NameMap
import NominalGenerics.Hierarchy.Rendering

/-!
# Specs

A spec maps type parameter names to the slots they stand for. Values are slots rather than types, so
that wildcard arguments survive substitution.
-/

namespace NominalGenerics

abbrev Spec := NameMap Slot

namespace Spec

/-- A spec as text, in name order. -/
def render (h : Hierarchy) (spec : Spec) : String :=
  "\x7b" ++ ", ".intercalate (spec.entries.map fun e => e.1 ++ ":" ++ h.renderSlot e.2) ++ "\x7d"

end Spec

end NominalGenerics
