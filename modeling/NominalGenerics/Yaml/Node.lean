/-!
# YAML documents

A document is a tree of scalars, sequences and mappings. A scalar keeps its text, and whether it was
written plain: only plain scalars can mean nothing or a truth value, unless a tag says what one is.
An alias stands for a node met before; one that stands inside the node it names has no end.
-/

namespace NominalGenerics.Yaml

inductive Node where
  | scalar (text : String) (plain : Bool) (tag : Option String)
  | seq (items : List Node)
  | map (entries : List (Node × Node))
  | reference (name : String) (target : Option Node)
deriving Repr

namespace Node

/-- Nothing, as an omitted value. -/
def null : Node := .scalar "" true none

instance : Inhabited Node := ⟨null⟩

/-- The node an alias stands for, if that has an end. -/
def target? : Node → Option Node
  | .reference _ (some n) => n.target?
  | .reference _ none => none
  | n => some n

end Node

end NominalGenerics.Yaml
