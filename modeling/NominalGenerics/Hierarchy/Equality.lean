import NominalGenerics.Hierarchy.Basic

/-!
# Structural equality

Two types are equal when they use the same declaration with pairwise equal arguments; sites do not
matter. Type parameters are compared by name, and a use without an argument list differs from one
with an empty list. A generic declaration seen as a type carries its own parameters as arguments.
-/

namespace NominalGenerics.Hierarchy

/-- Whether `args` are exactly the declared parameters, in order. -/
def restatesParams : List Slot → List Slot → Bool
  | [], [] => true
  | p :: ps, .param _ _ _ n _ :: as => p.name == n && restatesParams ps as
  | _, _ => false

mutual

/-- Whether two types are structurally the same. -/
def equal (h : Hierarchy) : Ty → Ty → Bool
  | .array _ a, .array _ b => h.equal a b
  | .param _ n _, .param _ m _ => n == m
  | .decl d, .decl e | .bare _ d, .bare _ e => d == e
  | .decl d, .bare _ e | .bare _ d, .decl e => d == e && (h.params d).isEmpty
  | .app _ d as, .app _ e bs => d == e && h.equalSlots as bs
  | .decl d, .app _ e as | .app _ d as, .decl e =>
    d == e && !(h.params d).isEmpty && restatesParams (h.params d) as
  | _, _ => false
termination_by structural a => a

def slotEqual (h : Hierarchy) : Slot → Slot → Bool
  | .param _ _ _ n _, b => b.isParam && n == b.name
  | .wildcard _ none us, b => b.isWildcard && b.lower.isNone && h.equalTypes us b.upper
  | .wildcard _ (some l) us, b =>
    match b.lower with
    | none => false
    | some m => b.isWildcard && h.equal l m && h.equalTypes us b.upper
  | .exact _ t, b => b.kind == .exact && h.equal t b.ty
  | .rebound _ _ _ [], b =>
    b.kind == .exact && !b.ty.isApplied && !b.ty.isDiamond && b.ty.isRoot
  | .rebound _ _ _ (u :: _), b => b.kind == .exact && h.equal u b.ty
termination_by structural a => a

def equalTypes (h : Hierarchy) : List Ty → List Ty → Bool
  | [], [] => true
  | a :: as, b :: bs => h.equal a b && h.equalTypes as bs
  | _, _ => false
termination_by structural a => a

def equalSlots (h : Hierarchy) : List Slot → List Slot → Bool
  | [], [] => true
  | a :: as, b :: bs => h.slotEqual a b && h.equalSlots as bs
  | _, _ => false
termination_by structural a => a

end

/-- Structural equality of types that may be missing: two missing types are equal. -/
def equalOptions (h : Hierarchy) : Option Ty → Option Ty → Bool
  | none, none => true
  | some a, some b => h.equal a b
  | _, _ => false

end NominalGenerics.Hierarchy
