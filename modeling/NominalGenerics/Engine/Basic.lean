import NominalGenerics.Bindings
import NominalGenerics.Compatibility
import NominalGenerics.Connections
import NominalGenerics.Engine.Cache
import NominalGenerics.Locator
import NominalGenerics.Signature

/-!
# The engine

An engine answers questions about the types of a hierarchy and remembers what it located. Its
answers do not depend on what it remembers. An operation that consults the memory returns the engine
as it leaves it; a look-up that fails counts as a miss and is not remembered.
-/

namespace NominalGenerics

structure Settings where
  /-- How many look-ups are remembered; zero or less remembers none. -/
  cacheSize : Int := 4096
  /-- The interface that classes still being compiled count as implementing. -/
  marker : String := "GroovyObject"
  /-- How many levels a comparison of arguments may descend, beyond the weight of its operands and
  one level for each declaration. -/
  levels : Nat := 2000

structure Engine where
  settings : Settings
  /-- The memory, unless it is switched off. -/
  cache : Option Cache

/-- A method signature as seen from a receiver, with the substitution that produced it. -/
structure Resolved where
  method : Signature
  spec : Spec
  params : List Ty
  returns : Option Ty

/-- The resolved signature as text, with the method's own type parameters as declared. -/
def Resolved.render (h : Hierarchy) (r : Resolved) : String :=
  Signature.render h { r.method with params := r.params.map some, returns := r.returns }

namespace Engine

def ofSettings (settings : Settings) : Engine :=
  ⟨settings, if settings.cacheSize > 0 then some (.empty settings.cacheSize.toNat) else none⟩

def context (e : Engine) (h : Hierarchy) : Context := ⟨h, e.settings.marker⟩

/-- How many levels a comparison of operands of weight `w` may descend. -/
def levels (e : Engine) (h : Hierarchy) (w : Nat) : Nat := e.settings.levels + h.decls.size + w

def stats (e : Engine) : CacheStats :=
  match e.cache with
  | some c => c.stats
  | none => ⟨0, 0, 0⟩

def invalidate (e : Engine) : Traced Unit × Engine :=
  match e.cache with
  | some c => (.emit .invalidated, { e with cache := some c.clear })
  | none => (pure (), e)

/-! ## Questions that need no memory -/

def isCompatible (e : Engine) (h : Hierarchy) (slot : Slot) (candidate : Ty) : Traced Bool :=
  let levels := e.levels h (slot.weight + candidate.weight)
  ((e.context h).isCompatible levels slot candidate).reported

def argumentsMatch (e : Engine) (h : Hierarchy) (candidate bound : Ty) : Traced Bool :=
  let levels := e.levels h (candidate.weight + bound.weight)
  ((e.context h).argumentsMatch levels candidate bound).reported

def isSubtype (e : Engine) (h : Hierarchy) (t super : Ty) : Bool := (e.context h).isSubtype t super

def arguments (h : Hierarchy) (t : Ty) : Traced Spec := (Traced.lift (h.arguments t)).reported

def connections (e : Engine) (h : Hierarchy) (actual pattern : Ty) : Traced Spec :=
  ((e.context h).connections actual pattern).reported

def parameterize (e : Engine) (h : Hierarchy) (hint target : Ty) : Traced Ty :=
  ((e.context h).parameterize hint target).reported

def createSpec (h : Hierarchy) (outer : Spec) (t : Ty) : Traced Spec :=
  (Traced.lift (h.createSpec outer t)).reported

/-! ## Questions answered from memory -/

/-- The instantiation of a generic declaration that `receiver` inherits, from memory if possible. -/
def locate (e : Engine) (h : Hierarchy) (decl receiver : Ty) : Traced (Option Ty) × Engine :=
  match decl.head? with
  | none => (pure none, e)
  | some d =>
    if (h.params d).isEmpty then (pure none, e)
    else
      match e.cache with
      | none => (.lift (h.locate d receiver), e)
      | some c =>
        match c.get (d, receiver) with
        | (some found, c) =>
          (do .emit (.cacheHit d receiver); return found, { e with cache := some c })
        | (none, c) =>
          match h.locate d receiver with
          | .ok found => (pure found, { e with cache := some (c.use (d, receiver) found) })
          | .error x => (.fail x, { e with cache := some c })

def find (e : Engine) (h : Hierarchy) (decl receiver : Ty) : Traced (Option Ty) × Engine :=
  let (found, e) := e.locate h decl receiver
  (found.reported, e)

/-- The parameters of `decl` paired with the arguments `receiver` supplies for them; empty when
`receiver` inherits no instantiation. -/
def pairs (e : Engine) (h : Hierarchy) (decl receiver : Ty) : Traced Bindings × Engine :=
  let (found, e) := e.locate h decl receiver
  let decl := h.declaration decl
  (do
    match ← found with
    | none => return []
    | some use =>
      let declared := h.args decl
      let supplied := h.args use
      if declared.length ≠ supplied.length then
        .fail (.violation ⟨.argumentCount decl.name declared.length supplied.length, decl, use⟩)
      else return (declared.zip supplied).map fun (p, a) => ⟨p, a⟩, e)

def bindings (e : Engine) (h : Hierarchy) (decl receiver : Ty) : Traced Bindings × Engine :=
  let (found, e) := e.pairs h decl receiver
  (found.reported, e)

/-- The parameters of `decl` with exact arguments: none of them is left a type parameter. -/
def exactBindings (e : Engine) (h : Hierarchy) (decl receiver : Ty) : Traced Bindings × Engine :=
  let (found, e) := e.pairs h decl receiver
  (Traced.reported do
    let b ← found
    if b.isEmpty then return [] else b.exact h receiver, e)

def resolveWith (h : Hierarchy) (spec : Spec) (receiver : Option Ty) (m : Signature) :
    Traced Resolved := do
  let spec := h.addMethodParams spec m.typeParams
  match m.params.mapM id with
  | none => .fail .missingType
  | some params =>
    .emit (.resolved m.name receiver spec)
    let returns := (m.returns.map (h.subst spec [])).bind Ty.toOption
    return ⟨m, spec, h.substTypes spec [] params, returns⟩

/-- The signature of `m`, a method of `owner`, as seen from `receiver`. -/
def resolve (e : Engine) (h : Hierarchy) (receiver owner : Ty) (m : Signature) :
    Traced Resolved × Engine :=
  let owner := h.declaration owner
  if !e.isSubtype h receiver owner then
    (Traced.reported (.fail (.violation ⟨.notAMember receiver.name m.name, receiver, owner⟩)), e)
  else
    let (found, e) := e.locate h owner receiver
    (Traced.reported do
      let spec ←
        match ← found with
        | none => pure .empty
        | some use => h.createSpec .empty use
      resolveWith h spec (some receiver) m, e)

end Engine

end NominalGenerics
