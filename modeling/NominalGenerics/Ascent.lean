import NominalGenerics.Substitution
import NominalGenerics.Subtyping

/-!
# Parameterisation along the hierarchy

`parameterize hint target` is `target` with the arguments that `hint` implies: `Collection` seen
from `ArrayList<String>` is `Collection<String>`. Each step substitutes the arguments of the current
type into its next supertype as declared, until the target is reached.
-/

namespace NominalGenerics

/-- How `decl` is seen from a use without arguments: without arguments too, when it is generic. -/
def Hierarchy.erasedUse (h : Hierarchy) (hint decl : Ty) : Ty :=
  match decl.head? with
  | none => decl
  | some d =>
    if (h.params d).isEmpty then decl
    else if hint.isDiamond then .app hint.site d []
    else .bare hint.site d

namespace Context

/-- The direct supertype of `t`, as written, on a path to `goal`. Interfaces come first when the
goal is an interface. -/
def nextSupertype (Γ : Context) (t goal : Ty) : Option Ty :=
  let h := Γ.hierarchy
  if t.isRoot then none
  else
    let viaInterface :=
      if h.isInterface goal then (h.interfaces t).find? (Γ.isSubtype · goal) else none
    match viaInterface with
    | some i => some i
    | none => (h.superclass t).filter (Γ.isSubtype · goal)

/-- From a class type to the target, given how to go on from its next supertype. -/
def climb (Γ : Context) (above : Ty → Ty → Traced Ty) (hint target : Ty) : Traced Ty :=
  let h := Γ.hierarchy
  let decl := h.declaration target
  if hint.is target then pure hint
  else if h.isRaw hint || hint.isDiamond then pure (h.erasedUse hint decl)
  else
    match Γ.nextSupertype hint decl with
    | none => .fail (.violation ⟨.unrelated hint.name target.name, hint, target⟩)
    | some next => do
      let spec ← h.createSpec .empty hint
      let parent := h.subst spec [] next
      .emit (.ascended hint parent decl.name)
      above parent target

/-- One level of parameterisation, given how to go on. A type parameter is seen through its first
bound that reaches the target, or else as the root. -/
def parameterizeStep (Γ : Context) (above : Ty → Ty → Traced Ty) : Ty → Ty → Traced Ty
  | .array s a, .array _ b => do return .array s (← above a b)
  | .array _ _, target => pure target
  | hint, .array s b =>
    .fail (.violation ⟨.notAnArray hint.name, hint, .array s b⟩)
  | .param _ _ bounds, target =>
    match bounds.find? fun b => !b.isParam && Γ.isSubtype b target with
    | some b => above b target
    | none => Γ.climb above .object target
  | hint, target => Γ.climb above hint target

def parameterizeWithin (Γ : Context) : Nat → Ty → Ty → Traced Ty
  | 0, _, _ => .fail .exhausted
  | fuel + 1, hint, target => Γ.parameterizeStep (Γ.parameterizeWithin fuel) hint target

/-- `target` with the arguments implied by `hint`, which is `target` or one of its subtypes. -/
def parameterize (Γ : Context) (hint target : Ty) : Traced Ty :=
  Γ.parameterizeWithin (Γ.hierarchy.budget (hint.weight + target.weight)) hint target

end Context

end NominalGenerics
