import NominalGenerics.Engine.Basic
import NominalGenerics.Hierarchy.Missing

/-!
# Walks that meet missing types

A question about types may lead to a missing type among bounds, upper bounds or interfaces. Here the
walks of the engine are followed as far as that: the subtype test, the way up to a supertype, the
search for an instantiation and the comparison of arguments. Where no type is missing they go the
engine's way.
-/

namespace NominalGenerics

/-- Ask a question unless it would look at a missing type. -/
def guarded {α : Type} (looks : Bool) (ask : Traced α) : Traced α :=
  if looks then .fail .missingType else ask

namespace Context

/-! ## Subtyping -/

/-- The subtype test among types that may be missing, at most `fuel` levels deep. A missing type is
below itself and below the root. -/
def subtypeChecked (Γ : Context) : Nat → Ty → Ty → Except Failure Bool
  | 0, _, _ => .ok false
  | fuel + 1, t, super =>
    if t.is super then .ok true
    else if super.isMissing then .error .missingType
    else if super.isRoot then .ok true
    else if t.isMissing then .error .missingType
    else
      match t, super with
      | .array _ a, .array _ b => Γ.subtypeChecked fuel a b
      | .array _ _, _ | _, .array _ _ => .ok false
      | .param _ _ bounds, _ =>
        bounds.anyM fun b => if b.isParam then .ok false else Γ.subtypeChecked fuel b super
      | _, .param _ _ bounds => bounds.allM (Γ.subtypeChecked fuel t)
      | _, _ =>
        if Γ.derives t super then .ok true
        else if Γ.hierarchy.isInterface super
            && (Γ.hierarchy.allInterfaces t).any Ty.isMissing then .error .missingType
        else if Γ.implements t super || Γ.willImplement t super then .ok true
        else if Γ.hierarchy.isUnion super then
          (Γ.hierarchy.supertypes super).allM (Γ.subtypeChecked fuel t)
        else .ok false

def subtype (Γ : Context) (t super : Ty) : Except Failure Bool :=
  Γ.subtypeChecked (Γ.hierarchy.budget (t.weight + super.weight)) t super

/-- The first bound that is below `goal` and no type parameter. -/
def firstBelow (Γ : Context) (goal : Ty) : List Ty → Except Failure (Option Ty)
  | [] => .ok none
  | b :: bounds => do
    if b.isMissing then .error .missingType
    else if !b.isParam && (← Γ.subtype b goal) then return some b
    else Γ.firstBelow goal bounds

/-! ## The way up -/

def nextChecked (Γ : Context) (t goal : Ty) : Except Failure (Option Ty) := do
  let h := Γ.hierarchy
  if t.isRoot then return none
  let viaInterface ←
    if h.isInterface goal then (h.interfaces t).findM? (Γ.subtype · goal) else pure none
  match viaInterface, h.superclass t with
  | some i, _ => return some i
  | none, some s => return if ← Γ.subtype s goal then some s else none
  | none, none => return none

/-- Whether the way from `hint` up to `target` meets a missing type, in at most `fuel` steps. -/
def ascentLooks (Γ : Context) : Nat → Ty → Ty → Bool
  | 0, _, _ => false
  | fuel + 1, .array _ a, .array _ b => Γ.ascentLooks fuel a b
  | fuel + 1, .param _ _ bounds, target =>
    !target.isArray &&
      match Γ.firstBelow target bounds with
      | .ok (some b) => Γ.ascentLooks fuel b target
      | .ok none => false
      | .error _ => true
  | fuel + 1, hint, target =>
    let h := Γ.hierarchy
    if hint.isArray || target.isArray || hint.is target || h.isRaw hint || hint.isDiamond then false
    else
      match Γ.nextChecked hint (h.declaration target), h.createSpec .empty hint with
      | .error _, _ => true
      | .ok (some next), .ok spec =>
        h.isPartial hint || h.isPartial next || Γ.ascentLooks fuel (h.subst spec [] next) target
      | .ok _, _ => false

def parameterizeChecked (Γ : Context) (hint target : Ty) : Traced Ty :=
  guarded (Γ.ascentLooks (Γ.hierarchy.budget (hint.weight + target.weight)) hint target)
    (Γ.parameterize hint target)

/-! ## Comparison -/

def acceptsChecked (Γ : Context) (matching : Ty → Ty → Traced Bool) (slot : Slot)
    (candidate : Ty) : Traced Bool := do
  let pivot := slot.lower <|> slot.upper.head?
  let isBounded := !(candidate.isDiamond || slot.kind == .exact
    || (candidate.isParam && (!slot.isWildcard || pivot.any (·.name == candidate.name))))
  if candidate.isMissing then .fail .missingType
  else if !candidate.isDiamond && candidate.isParam && slot.isWildcard
      && pivot.any Ty.isMissing then .fail .missingType
  else if !isBounded then Γ.accepts matching slot candidate
  else
    match slot.lower with
    | some l => if ← Γ.subtype l candidate then matching l candidate else return false
    | none =>
      for u in slot.upper do
        if !(← Γ.subtype candidate u) then return false
      slot.upper.allM (matching candidate)

/-- Whether comparing an argument with a wildcard asks a missing upper bound if it is the root. -/
def containmentLooks (supplied wildcard : Slot) : Bool :=
  supplied.isWildcard && wildcard.lower.isNone && (supplied.lower.isSome || supplied.upper.isEmpty)
    && (wildcard.upper.find? (!·.isRoot)).any Ty.isMissing

def matchesArgumentsChecked (Γ : Context) (matching : Ty → Ty → Traced Bool)
    (candidate bound : Ty) : Traced Bool := do
  let h := Γ.hierarchy
  let declared := h.args (h.declaration bound)
  let supplied := h.args candidate
  if supplied.isEmpty || declared.length ≠ supplied.length then
    Γ.matchesArguments (Γ.acceptsChecked matching) candidate bound
  else
    let boundArgs ← h.arguments bound
    let candidateArgs ← h.arguments candidate
    (declared.zip supplied).allM fun (d, s) =>
      let looks := !s.isParam &&
        (boundArgs.get? d.name).any fun e => e.isWildcard && containmentLooks s e
      guarded looks (fitsArgument (Γ.acceptsChecked matching) s d boundArgs candidateArgs)

/-- Compare a candidate with a bound that one of its ancestors uses, where types may be missing. All
interfaces are looked at on the way to one. -/
def matchesAncestorChecked (Γ : Context) (matching : Ty → Ty → Traced Bool)
    (candidate bound : Ty) : Traced Bool :=
  let looks := Γ.hierarchy.isInterface bound && !candidate.isRoot
    && (Γ.hierarchy.allInterfaces candidate).any Ty.isMissing
  guarded looks (Γ.matchesAncestor Γ.parameterizeChecked matching candidate bound)

/-- Whether the arguments of `candidate` match those of `bound`, where types may be missing. A bound
without arguments matches even a missing candidate. -/
def argumentsMatchChecked (Γ : Context) : Nat → Ty → Ty → Traced Bool
  | 0, _, _ => .fail .exhausted
  | fuel + 1, candidate, bound => do
    let h := Γ.hierarchy
    let matching := Γ.argumentsMatchChecked fuel
    let matchesClass (candidate : Ty) :=
      if candidate.is bound then Γ.matchesArgumentsChecked matching candidate bound
      else Γ.matchesAncestorChecked matching candidate bound
    if bound.isMissing then .fail .missingType
    else if !bound.isArray && (h.args bound).isEmpty then return true
    else if candidate.isMissing then .fail .missingType
    else if bound.isArray || h.isRaw candidate || candidate.isArray then
      Γ.argumentsMatchStep matching candidate bound
    else if candidate.isParam then
      match ← Γ.firstBelow bound candidate.bounds with
      | some b => matching b bound
      | none => matchesClass .object
    else matchesClass candidate

end Context

namespace Hierarchy

/-! ## The search for an instantiation -/

/-- Whether a type above `t` cannot be told: its type parameters cannot be looked for, or arguments
would have to be put in. -/
def hidesSupertype (h : Hierarchy) (t : Ty) : Bool :=
  (h.supertypes t).any fun s =>
    h.hidesParams s
      || (h.hasParams s && !(h.isRaw t || t.isDiamond) && (h.isPartial t || h.isPartial s))

/-- Whether the search of a queue of types for a use of `d` meets a missing type, in at most `fuel`
steps. -/
def searchLooks (h : Hierarchy) (d : DeclId) : Nat → List Ty → List DeclId → Bool
  | 0, _, _ | _ + 1, [], _ => false
  | fuel + 1, t :: queue, visited =>
    match t.head? with
    | none => h.searchLooks d fuel (queue ++ t.bounds) visited
    | some e =>
      if e ∈ visited then h.searchLooks d fuel queue visited
      else if e = d ∧ t.isUse then false
      else if e = .missing || h.hidesSupertype t then true
      else
        match h.instantiateAll t with
        | .ok supers => h.searchLooks d fuel (queue ++ supers) (e :: visited)
        | .error _ => false

/-- Whether the search for the instantiation of `decl` that `receiver` inherits meets a missing
type. -/
def locatingLooks (h : Hierarchy) (decl receiver : Ty) : Bool :=
  h.isGeneric decl
    && decl.head?.any fun d => h.searchLooks d (h.budget receiver.weight) [receiver] []

/-- Whether the instantiation of `decl` that `receiver` inherits holds a missing type. -/
def locatesPartial (h : Hierarchy) (decl receiver : Ty) : Bool :=
  h.isGeneric decl && decl.head?.any fun d =>
    match h.locate d receiver with
    | .ok (some use) => h.isPartial use
    | _ => false

/-! ## Substitution -/

mutual

/-- Whether replacing the type parameters of a type looks at a missing one: in the type itself, in a
slot for one type that a parameter comes to, or where what is put in has to be there. -/
def substLooks (h : Hierarchy) (spec : Spec) (excluded : List String) : Ty → Bool
  | .decl d => d == .missing
  | .bare _ _ => false
  | .app _ _ args => h.substSlotsLook spec excluded args
  | .param _ n _ => (spec.lastSlot excluded n).any fun s => !s.isWildcard && s.ty.isMissing
  | .array _ e => h.substLooks spec excluded e || (h.subst spec excluded e).isMissing

def substSlotLooks (h : Hierarchy) (spec : Spec) (excluded : List String) : Slot → Bool
  | .exact _ t | .rebound _ _ _ (t :: _) =>
    h.substLooks spec excluded t || (h.subst spec excluded t).isMissing
  | .rebound _ _ _ [] | .param _ _ _ _ _ => false
  | .wildcard _ none us => h.substTypesLook spec excluded us
  | .wildcard _ (some l) us => h.substLooks spec excluded l || h.substTypesLook spec excluded us

def substTypesLook (h : Hierarchy) (spec : Spec) (excluded : List String) : List Ty → Bool
  | [] => false
  | t :: ts => h.substLooks spec excluded t || h.substTypesLook spec excluded ts

def substSlotsLook (h : Hierarchy) (spec : Spec) (excluded : List String) : List Slot → Bool
  | [] => false
  | s :: ss => h.substSlotLooks spec excluded s || h.substSlotsLook spec excluded ss

end

/-- Whether resolving the arguments of a type through `outer` looks at a missing type. -/
def creatingLooks (h : Hierarchy) (outer : Spec) : Ty → Bool
  | .array _ e => h.creatingLooks outer e
  | t => h.substSlotsLook outer [] (h.args t)

/-- Whether adding the type parameters of a method to a spec looks at a missing type. Bounds that
start with a type parameter are not looked into. -/
def addingLooks (h : Hierarchy) (typeParams : List Slot) : Bool :=
  typeParams.any fun p =>
    p.isParam && !p.upper.head?.any Ty.isParam && p.upper.any h.isPartial

end Hierarchy

end NominalGenerics
