/-!
# Sets of characters

A set of characters given as a table of inclusive code point ranges.
-/

namespace NominalGenerics.Text

def inRanges (ranges : Array (Nat × Nat)) (c : Char) : Bool :=
  ranges.any fun r => r.1 ≤ c.toNat && c.toNat ≤ r.2

end NominalGenerics.Text
