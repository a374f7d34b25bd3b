import NominalGenerics.Arguments
import NominalGenerics.Ascent

/-!
# Compatibility

Whether a candidate type may stand where a slot is expected. A one-type slot is invariant; wildcards
and type parameters are checked against their bounds, first nominally and then argument by argument.

Comparing arguments may lead to ever larger types, so the comparison takes the number of levels it
may descend and says so when it needs more.
-/

namespace NominalGenerics

def Slot.isUnbounded (s : Slot) : Bool := s.lower.isNone && s.upper.all Ty.isRoot

namespace Context

/-- Whether `candidate` may stand for `slot`, given how to compare arguments. -/
def accepts (Γ : Context) (matching : Ty → Ty → Traced Bool) (slot : Slot) (candidate : Ty) :
    Traced Bool :=
  let byBounds : Traced Bool :=
    match slot.lower with
    | some l => if Γ.isSubtype l candidate then matching l candidate else pure false
    | none =>
      if slot.upper.all (Γ.isSubtype candidate) then slot.upper.allM (matching candidate)
      else pure false
  -- the bound that a type parameter meets by being it
  let pivot := slot.lower <|> slot.upper.head?
  if candidate.isDiamond then pure true
  else if candidate.isParam && !slot.isWildcard then pure (candidate.name == slot.name)
  else if candidate.isParam && pivot.any (·.name == candidate.name) then pure true
  else
    match slot.kind with
    | .wildcard | .param => byBounds
    | .exact => if candidate.is slot.ty then matching candidate slot.ty else pure false

/-- Compare an argument with a wildcard, given which slots accept which types. Type parameters in
the wildcard's bounds are read from `candidateArgs`; a wildcard argument has to be contained in the
wildcard. -/
def fitsWildcard (accept : Slot → Ty → Traced Bool) (supplied wildcard : Slot)
    (candidateArgs : Spec) : Traced Bool :=
  let known (t : Ty) : Ty :=
    if t.isParam then ((candidateArgs.get? t.name).map Slot.ty).getD t else t
  let wildcard := wildcard.withBounds wildcard.site (wildcard.lower.map known)
    (wildcard.upper.map known)
  if !supplied.isWildcard then accept wildcard supplied.ty
  else
    match supplied.lower, wildcard.lower with
    | some l, some _ => accept wildcard l
    | some _, none => pure wildcard.isUnbounded
    | none, some _ => pure false
    | none, none =>
      if supplied.upper.isEmpty then pure wildcard.isUnbounded
      else supplied.upper.anyM (accept wildcard)

/-- Compare the argument supplied for `declared` with the one the bound supplies for it. -/
def fitsArgument (accept : Slot → Ty → Traced Bool) (supplied declared : Slot)
    (boundArgs candidateArgs : Spec) : Traced Bool :=
  if supplied.isParam then
    if supplied.name == declared.name then pure true
    else
      match boundArgs.get? declared.name with
      | none => pure false
      | some expected =>
        match expected.kind with
        | .param => pure true
        | .wildcard =>
          match expected.lower with
          | some l => accept declared l
          | none => expected.upper.anyM (accept declared)
        | .exact => accept ((candidateArgs.get? supplied.name).getD supplied) expected.ty
  else
    let expected := (boundArgs.get? declared.name).getD declared
    match expected.kind with
    | .wildcard => fitsWildcard accept supplied expected candidateArgs
    | .param =>
      -- a parameter of the bound may be an alias of one the candidate binds
      match candidateArgs.get? expected.name with
      | some actual => accept (if actual.isParam then expected else actual) supplied.ty
      | none => accept expected supplied.ty
    | .exact => accept expected supplied.ty

/-- Compare a candidate with a bound through its superclass, given how a type is seen from below. -/
def matchesSuperclass (Γ : Context) (seenFrom : Ty → Ty → Traced Ty)
    (matching : Ty → Ty → Traced Bool) (candidate bound : Ty) : Traced Bool :=
  let h := Γ.hierarchy
  if candidate.isRoot then pure false
  else
    match h.superclass candidate with
    | none => .fail (.violation ⟨.noSuperclass candidate.name, candidate, bound⟩)
    | some super => do
      let super ← if (h.args super).isEmpty then pure super else seenFrom candidate super
      matching super bound

section Superclass

variable {Γ : Context} {seenFrom : Ty → Ty → Traced Ty} {matching : Ty → Ty → Traced Bool}
  {candidate super bound : Ty}

theorem matchesSuperclass_of_none (root : Γ.hierarchy.superclass candidate = none) :
    Γ.matchesSuperclass seenFrom matching candidate bound = pure false := by
  unfold matchesSuperclass
  rw [Hierarchy.superclass_eq_none.mp root]
  rfl

theorem matchesSuperclass_of_some (above : Γ.hierarchy.superclass candidate = some super) :
    Γ.matchesSuperclass seenFrom matching candidate bound =
      if (Γ.hierarchy.args super).isEmpty then matching super bound
      else seenFrom candidate super >>= fun seen => matching seen bound := by
  have notRoot : candidate.isRoot = false := by
    rw [Bool.eq_false_iff, ne_eq, ← Hierarchy.superclass_eq_none (h := Γ.hierarchy), above]
    exact Option.some_ne_none super
  unfold matchesSuperclass
  simp only [notRoot, above, Bool.false_eq_true, if_false]
  split <;> rfl

end Superclass

/-- Compare a candidate with a bound that one of its ancestors uses, given how a type is seen from
below. -/
def matchesAncestor (Γ : Context) (seenFrom : Ty → Ty → Traced Ty)
    (matching : Ty → Ty → Traced Bool) (candidate bound : Ty) : Traced Bool := do
  let h := Γ.hierarchy
  let viaSuperclass := Γ.matchesSuperclass seenFrom matching candidate bound
  if h.isInterface bound then
    if candidate.isRoot then return false
    match (h.allInterfaces candidate).find? (·.is bound) with
    | some iface =>
      let seen ← seenFrom candidate iface
      matching seen bound
    | none => viaSuperclass
  else if h.isUnion bound then
    if ← (h.supertypes bound).allM (matching candidate) then return true
    viaSuperclass
  else viaSuperclass

/-- Compare two uses of one declaration argument by argument. -/
def matchesArguments (Γ : Context) (accept : Slot → Ty → Traced Bool) (candidate bound : Ty) :
    Traced Bool := do
  let h := Γ.hierarchy
  let declared := h.args (h.declaration bound)
  let supplied := h.args candidate
  if supplied.isEmpty then return true
  if declared.length ≠ supplied.length then
    .fail (.violation ⟨.argumentCount bound.name declared.length supplied.length,
      h.declaration bound, candidate⟩)
  else
    let boundArgs ← h.arguments bound
    let candidateArgs ← h.arguments candidate
    (declared.zip supplied).allM fun (d, s) => fitsArgument accept s d boundArgs candidateArgs

/-- Compare a class type with a bound that has arguments. -/
def matchesClass (Γ : Context) (matching : Ty → Ty → Traced Bool) (candidate bound : Ty) :
    Traced Bool :=
  if candidate.is bound then Γ.matchesArguments (Γ.accepts matching) candidate bound
  else Γ.matchesAncestor Γ.parameterize matching candidate bound

/-- One level of the comparison, given the comparison for what comes after. A bound without
arguments, and a candidate without an argument list, match by erasure. -/
def argumentsMatchStep (Γ : Context) (matching : Ty → Ty → Traced Bool) : Ty → Ty → Traced Bool
  | .array _ a, .array _ b => matching a b
  | _, .array _ _ => pure true
  | candidate, bound =>
    if (Γ.hierarchy.args bound).isEmpty || Γ.hierarchy.isRaw candidate then pure true
    else
      match candidate with
      | .param _ _ bounds =>
        match bounds.find? fun b => !b.isParam && Γ.isSubtype b bound with
        | some b => matching b bound
        | none => Γ.matchesClass matching .object bound
      | .array _ _ => pure false
      | _ => Γ.matchesClass matching candidate bound

/-- Whether the arguments of `candidate` match those of `bound`, once `candidate` is seen as a use
of the declaration of `bound`. Whether it extends `bound` at all is not checked. -/
def argumentsMatch (Γ : Context) : Nat → Ty → Ty → Traced Bool
  | 0, _, _ => .fail .exhausted
  | fuel + 1, candidate, bound =>
    Γ.argumentsMatchStep (Γ.argumentsMatch fuel) candidate bound

/-- Whether `candidate` may stand for `slot`: `? extends Number` accepts `Integer`, `? super
Integer` accepts `Number`, and `String` accepts only `String`. -/
def isCompatible (Γ : Context) (fuel : Nat) (slot : Slot) (candidate : Ty) : Traced Bool :=
  Γ.accepts (Γ.argumentsMatch fuel) slot candidate

end Context

end NominalGenerics
