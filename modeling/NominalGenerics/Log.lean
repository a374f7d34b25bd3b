/-!
# Log filtering

A record is written when its level reaches the threshold and, below the level of warnings, only when
it belongs to an enabled section. A logger or a record belongs to a section through an attribute
called `section`; groups do not hide it.
-/

namespace NominalGenerics.Log

/-- Levels are ordered numbers; warnings stand at four. -/
def warning : Int := 4

def enabledSections : List String := ["generics", "classmodel"]

/-- A section is enabled together with its subsections. -/
def isEnabledSection (name : String) : Bool :=
  enabledSections.any fun enabled => enabled.toList.isPrefixOf name.toList

abbrev Attribute := String × String

def Attribute.admits (a : Attribute) : Bool := a.1 == "section" && isEnabledSection a.2

inductive Derivation where
  | attributes (attributes : List Attribute)
  | group (name : String)
deriving DecidableEq, Repr

def admits (chain : List Derivation) : Bool :=
  chain.any fun d =>
    match d with
    | .attributes as => as.any Attribute.admits
    | .group _ => false

def isEnabled (threshold level : Int) : Bool := threshold ≤ level

/-- Whether a record reaches the output. -/
def isWritten (threshold : Int) (chain : List Derivation) (level : Int)
    (attributes : List Attribute) : Bool :=
  isEnabled threshold level &&
    (warning ≤ level || admits chain || attributes.any Attribute.admits)

end NominalGenerics.Log
