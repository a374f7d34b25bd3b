import NominalGenerics.Ascent

/-!
# Connections

`connections actual pattern` binds the type parameters a pattern mentions to the matching parts of
an actual type: `Map<String, List<Integer>>` against `Map<K, List<V>>` binds `K` and `V`. An actual
type below the pattern's declaration is first seen as a use of it. The first binding of a name wins.
-/

namespace NominalGenerics

/-- What a slot contributes against a lower bound of a wildcard. -/
def Slot.belowPart? (s : Slot) : Option Ty :=
  if s.isWildcard then s.lower <|> s.upper.head? else some s.ty

/-- What a slot contributes against an upper bound of a wildcard. -/
def Slot.abovePart? (s : Slot) : Option Ty :=
  if s.isWildcard then s.upper.head? else some s.ty

namespace Context

/-- The arguments of `actual` as a use of the declaration of `pattern`, when there are `count`. -/
def viewedArguments (Γ : Context) (actual pattern : Ty) (count : Nat) :
    Traced (Option (List Slot)) := do
  let h := Γ.hierarchy
  let decl := h.declaration pattern
  let actual := if actual.isParam then h.erasure actual else actual
  if !actual.is pattern && !Γ.isSubtype actual decl then return none
  let viewed ← if actual.is pattern then pure actual else Γ.parameterize actual decl
  let args := h.args viewed
  return if args.length = count then some args else none

mutual

/-- Add the connections of a type with a pattern. A missing type has none. -/
def connect (Γ : Context) (actual : Ty) : Ty → Spec → Traced Spec
  | .param _ n _, bound =>
    pure (if actual.isMissing then bound else bound.insertNew n (.ofTy actual.site actual))
  | .array _ p, bound =>
    match actual with
    | .array _ a => Γ.connect a p bound
    | _ => pure bound
  | .bare _ _, bound => pure bound
  | .decl d, bound =>
    let params := Γ.hierarchy.params d
    if params.isEmpty || actual.isArray then pure bound
    else do
      match ← Γ.viewedArguments actual (.decl d) params.length with
      | none => return bound
      | some args =>
        return (params.zip args).foldl (fun acc (p, a) => acc.insertNew p.name a) bound
  | .app s d patterns, bound =>
    if patterns.isEmpty || actual.isArray then pure bound
    else do
      match ← Γ.viewedArguments actual (.app s d patterns) patterns.length with
      | none => return bound
      | some args => Γ.connectSlots args patterns bound
termination_by structural p => p

def connectSlot (Γ : Context) (actual : Slot) : Slot → Spec → Traced Spec
  | .param _ _ _ n _, bound => pure (bound.insertNew n actual)
  | .exact _ p, bound => Γ.connect actual.ty p bound
  | .rebound _ _ _ [], bound => pure bound
  | .rebound _ _ _ (p :: _), bound => Γ.connect actual.ty p bound
  | .wildcard _ none us, bound => Γ.connectUppers actual us bound
  | .wildcard _ (some l) us, bound => do
    let bound ←
      match actual.belowPart? with
      | some t => Γ.connect t l bound
      | none => pure bound
    Γ.connectUppers actual us bound
termination_by structural p => p

def connectUppers (Γ : Context) (actual : Slot) : List Ty → Spec → Traced Spec
  | [], bound => pure bound
  | p :: ps, bound => do
    let bound ←
      match actual.abovePart? with
      | some t => Γ.connect t p bound
      | none => pure bound
    Γ.connectUppers actual ps bound
termination_by structural ps => ps

def connectSlots (Γ : Context) (actuals : List Slot) : List Slot → Spec → Traced Spec
  | [], bound => pure bound
  | p :: ps, bound =>
    match actuals with
    | [] => pure bound
    | a :: as => do
      let bound ← Γ.connectSlot a p bound
      Γ.connectSlots as ps bound
termination_by structural ps => ps

end

/-- The type parameters of `pattern`, bound to the matching parts of `actual`. -/
def connections (Γ : Context) (actual pattern : Ty) : Traced Spec := Γ.connect actual pattern .empty

end Context

end NominalGenerics
