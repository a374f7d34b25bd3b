import NominalGenerics.Engine.Missing
import NominalGenerics.Hierarchy.Equality

/-!
# Questions about types that may be missing

The root type has no superclass, so an operand read off another type may be missing, and so may a
bound or an interface inside an operand. Some questions can be settled without looking at a missing
type; the others fail.
-/

namespace NominalGenerics

/-- Ask about a type that has to be there. -/
def present {α : Type} (t : Option Ty) (ask : Ty → Traced α) : Traced α :=
  match t with
  | some t => ask t
  | none => .fail .missingType

/-- Two missing types denote the same. -/
def isOptions (a b : Option Ty) : Bool := (Ty.ofOption a).is (Ty.ofOption b)

namespace Engine

def isSubtypeOptions (e : Engine) (h : Hierarchy) (t super : Option Ty) : Traced Bool :=
  .lift ((e.context h).subtype (.ofOption t) (.ofOption super))

def argumentsMatchOptions (e : Engine) (h : Hierarchy) (candidate bound : Option Ty) :
    Traced Bool :=
  let candidate := Ty.ofOption candidate
  let bound := Ty.ofOption bound
  let levels := e.levels h (candidate.weight + bound.weight)
  ((e.context h).argumentsMatchChecked levels candidate bound).reported

def isCompatibleOption (e : Engine) (h : Hierarchy) (slot : Slot) (candidate : Option Ty) :
    Traced Bool :=
  let Γ := e.context h
  let candidate := Ty.ofOption candidate
  let levels := e.levels h (slot.weight + candidate.weight)
  (Γ.acceptsChecked (Γ.argumentsMatchChecked levels) slot candidate).reported

/-- A missing type supplies no arguments. -/
def argumentsOption (h : Hierarchy) : Option Ty → Traced Spec
  | some t => arguments h t
  | none => pure .empty

/-- Whether connecting `actual` with `pattern` looks at a missing type. A type parameter is seen
through what it stands for. -/
def connectingLooks (Γ : Context) (actual pattern : Ty) : Bool :=
  let h := Γ.hierarchy
  let decl := h.declaration pattern
  let isOpen := !(pattern.isParam || pattern.isArray || (h.args pattern).isEmpty || actual.isArray)
  let seen := if actual.isParam then h.erasure actual else actual
  isOpen && (h.erasesToMissing seen || !seen.is pattern &&
    match Γ.subtype seen decl with
    | .ok isBelow =>
      isBelow && Γ.ascentLooks (h.budget (seen.weight + decl.weight)) seen decl
    | .error _ => true)

/-- A missing type connects nothing. -/
def connectionsOptions (e : Engine) (h : Hierarchy) (actual pattern : Option Ty) : Traced Spec :=
  match actual, pattern with
  | some a, some p => guarded (connectingLooks (e.context h) a p) (e.connections h a p)
  | _, _ => pure .empty

def parameterizeOptions (e : Engine) (h : Hierarchy) (hint target : Option Ty) : Traced Ty :=
  present hint fun t => present target fun goal =>
    ((e.context h).parameterizeChecked t goal).reported

def createSpecOption (h : Hierarchy) (outer : Spec) (t : Option Ty) : Traced Spec :=
  present t fun t => do
    let spec ← createSpec h outer t
    guarded (h.isPartial t || h.creatingLooks outer t) (pure spec)

/-- Replace the type parameters of `t`. What one stands for may be missing if it is a wildcard, but
not inside. -/
def applyOption (h : Hierarchy) (spec : Spec) (excluded : List String) (t : Option Ty) :
    Traced (Option Ty) :=
  present t fun t =>
    guarded (h.substLooks spec excluded t) (pure (h.subst spec excluded t).toOption)

/-- Extend `spec` with the type parameters of a method. Bounds that start with a type parameter are
not looked into. -/
def addMethodParamsOption (h : Hierarchy) (spec : Spec) (typeParams : List Slot) : Traced Spec :=
  let looks (p : Slot) := p.isParam && !p.upper.head?.any Ty.isParam
    && h.substTypesLook spec (typeParams.map Slot.name) p.upper
  guarded (typeParams.any looks) (pure (h.addMethodParams spec typeParams))

/-- A search that failed, which counts as a miss. -/
def missed {α : Type} (e : Engine) : Traced α × Engine :=
  (.fail .missingType, { e with cache := e.cache.map fun c => { c with misses := c.misses + 1 } })

/-- A question about the instantiation of `decl` that `receiver` inherits. Without type parameters
the receiver is not looked at, and there is `nothing`. -/
def viaReceiver {α : Type} (e : Engine) (h : Hierarchy) (decl receiver : Option Ty) (nothing : α)
    (ask : Ty → Ty → Traced α × Engine) : Traced α × Engine :=
  match decl, receiver with
  | none, _ => (.fail .missingType, e)
  | some d, some r => if h.locatingLooks d r then e.missed else ask d r
  | some d, none => if h.isGeneric d then e.missed else (pure nothing, e)

/-- The parameters of `decl` with exact arguments. A type parameter that stands for nothing has
none. -/
def exactBindingsOption (e : Engine) (h : Hierarchy) (decl receiver : Ty) :
    Traced Bindings × Engine :=
  let (found, e) := e.exactBindings h decl receiver
  (do
    let b ← found
    guarded (b.any fun p => Hierarchy.slotHasHole p.actual) (pure b), e)

/-- The signature of `m` as seen from `receiver`. The methods of the root are seen even from a
missing receiver. -/
def resolveOption (e : Engine) (h : Hierarchy) (receiver : Option Ty) (m : Signature) :
    Traced Resolved × Engine :=
  let looks := h.addingLooks m.typeParams || (m.params.filterMap id).any h.isPartial
    || m.returns.any h.isPartial
  match m.owner, receiver with
  | none, _ => (.fail .missingType, e)
  | some owner, some r =>
    match (e.context h).subtype r (h.declaration owner) with
    | .error x => (.fail x, e)
    | .ok isMember =>
      if isMember && h.locatingLooks owner r then e.missed
      else
        let (resolved, e) := e.resolve h r owner m
        (do
          let seen ← resolved
          guarded (looks || h.locatesPartial owner r || Hierarchy.typesHaveHole seen.params
            || seen.returns.any Hierarchy.hasHole) (pure seen), e)
  | some owner, none =>
    if owner.isRoot && !looks then (resolveWith h .empty none m, e) else (.fail .missingType, e)

end Engine

end NominalGenerics
