import NominalGenerics.Hierarchy.Ancestry

/-!
# Nominal subtyping

Whether one type is, extends or implements another, arguments aside. Arrays are covariant, a type
parameter stands for its bounds, and a union demands its superclass and all its interfaces. A class
still being compiled counts as implementing the marker interface already.
-/

namespace NominalGenerics

/-- What judgements are made against: the declarations, and the name of the interface that every
class will implement once it is compiled. An empty name marks nothing. -/
structure Context where
  hierarchy : Hierarchy
  marker : String

namespace Context

def derives (Γ : Context) (t super : Ty) : Bool :=
  (Γ.hierarchy.lineage t).tail.any (·.is super)

def implements (Γ : Context) (t iface : Ty) : Bool :=
  Γ.hierarchy.isInterface iface && (Γ.hierarchy.allInterfaces t).any iface.is

/-- Whether `t` is a class that will implement the marker `super`. -/
def willImplement (Γ : Context) (t super : Ty) : Bool :=
  Γ.marker != "" && super.name == Γ.marker && Γ.hierarchy.isPending t

/-- One level of the subtype test, given the test for smaller questions. -/
def subtypeStep (Γ : Context) (below : Ty → Ty → Bool) (t super : Ty) : Bool :=
  if t.is super || super.isRoot then true
  else
    match t, super with
    | .array _ a, .array _ b => below a b
    | .array _ _, _ | _, .array _ _ => false
    | .param _ _ bounds, _ => bounds.any fun b => !b.isParam && below b super
    | _, .param _ _ bounds => bounds.all (below t)
    | _, _ =>
      if Γ.derives t super || Γ.implements t super || Γ.willImplement t super then true
      else if Γ.hierarchy.isUnion super then (Γ.hierarchy.supertypes super).all (below t)
      else false

def subtypeWithin (Γ : Context) : Nat → Ty → Ty → Bool
  | 0, _, _ => false
  | fuel + 1, t, super => Γ.subtypeStep (Γ.subtypeWithin fuel) t super

/-- Whether `t` is, extends or implements `super`, whatever their arguments. -/
def isSubtype (Γ : Context) (t super : Ty) : Bool :=
  Γ.subtypeWithin (Γ.hierarchy.budget (t.weight + super.weight)) t super

end Context

end NominalGenerics
