import NominalGenerics.Engine.Trace

/-!
# Substitution

A spec is applied to a type by replacing the type parameters it mentions. A parameter the spec does
not know becomes the root type, so the result is always defined, and excluded names are left alone.
A parameter that stands for another bounded parameter is followed through the spec; each name is
followed once, so circular aliases come to an end.
-/

namespace NominalGenerics

/-- The bounded type parameter that an argument is, unless it is a wildcard. Looking up a type
parameter that stands for one leads on to that name. -/
def Slot.alias? (s : Slot) : Option String :=
  if s.isWildcard then none
  else
    match s.ty with
    | .param _ n (_ :: _) => some n
    | _ => none

namespace Spec

/-- How many names of the spec may still be followed. -/
def remaining (spec : Spec) (excluded : List String) : Nat :=
  (spec.keys.filter fun n => !excluded.contains n).length

theorem remaining_cons_lt {spec : Spec} {excluded : List String} {name : String} {s : Slot}
    (known : spec.get? name = some s) (free : ¬ excluded.contains name = true) :
    spec.remaining (name :: excluded) < spec.remaining excluded := by
  have member : name ∈ spec.keys := NameMap.mem_keys_of_get?_eq_some known
  have narrower : (spec.keys.filter fun n => !(name :: excluded).contains n) =
      (spec.keys.filter fun n => !excluded.contains n).filter fun n => n != name := by
    rw [List.filter_filter]
    congr 1
    funext n
    simp only [List.contains_cons, Bool.not_or]
    rfl
  unfold remaining
  rw [narrower]
  refine List.length_filter_lt_length_iff_exists.mpr ⟨name, ?_, by simp⟩
  exact List.mem_filter.mpr ⟨member, by simpa using free⟩

/-- What the type parameter `name` stands for. -/
def resolve (spec : Spec) (excluded : List String) (site : Site) (name : String)
    (bounds : List Ty) : Ty :=
  if free : excluded.contains name then .param site name bounds
  else
    match known : spec.get? name with
    | none => .object
    | some s =>
      if s.isWildcard then s.ty
      else
        match s.ty with
        | .param site' name' [] => .param site' name' [.param site' name' []]
        | .param site' name' (b :: bs) =>
          if spec.contains name' && name' != name then
            have := remaining_cons_lt known free
            spec.resolve (name :: excluded) site' name' (b :: bs)
          else .param site' name' (b :: bs)
        | t => t
termination_by spec.remaining excluded

/-- The name that `name` is an alias of: the bounded type parameter that it stands for, if the spec
maps this one too. -/
def next? (spec : Spec) (name : String) : Option String :=
  ((spec.get? name).bind Slot.alias?).filter spec.contains

/-- The slot that the type parameter `name` comes to, the last one along its aliases. -/
def lastSlot (spec : Spec) (excluded : List String) (name : String) : Option Slot :=
  if free : excluded.contains name then none
  else
    match known : spec.get? name with
    | none => none
    | some s =>
      match spec.next? name with
      | none => some s
      | some next =>
        if (name :: excluded).contains next then some s
        else
          have := remaining_cons_lt known free
          spec.lastSlot (name :: excluded) next
termination_by spec.remaining excluded

/-- What a type parameter slot stands for. -/
def resolveSlot (spec : Spec) (excluded : List String) (s : Slot) : Slot :=
  if excluded.contains s.name then s
  else (spec.get? s.name).getD (.exact ⟨s.site, false⟩ .object)

end Spec

namespace Hierarchy

mutual

/-- Replace the type parameters `t` mentions by what they stand for in `spec`. -/
def subst (h : Hierarchy) (spec : Spec) (excluded : List String) : Ty → Ty
  | .decl d =>
    match h.params d with
    | [] => .decl d
    | ps => .app ⟨0, 0⟩ d (ps.map (spec.resolveSlot excluded))
  | .bare s d => .bare s d
  | .app s d args => .app s d (h.substSlots spec excluded args)
  | .param s n bs => spec.resolve excluded s n bs
  | .array s e => .array s (h.subst spec excluded e)
termination_by structural t => t

def substSlot (h : Hierarchy) (spec : Spec) (excluded : List String) : Slot → Slot
  | .exact m t => .ofTy m.site (h.subst spec excluded t)
  | .rebound m _ _ [] => .exact ⟨m.site, false⟩ .object
  | .rebound m _ _ (u :: _) => .ofTy m.site (h.subst spec excluded u)
  | .param m l s n bs => spec.resolveSlot excluded (.param m l s n bs)
  | .wildcard m none us => .wildcard m none (h.substTypes spec excluded us)
  | .wildcard m (some l) us =>
    .wildcard m (some (h.subst spec excluded l)) (h.substTypes spec excluded us)
termination_by structural s => s

def substTypes (h : Hierarchy) (spec : Spec) (excluded : List String) : List Ty → List Ty
  | [] => []
  | t :: ts => h.subst spec excluded t :: h.substTypes spec excluded ts
termination_by structural ts => ts

def substSlots (h : Hierarchy) (spec : Spec) (excluded : List String) : List Slot → List Slot
  | [] => []
  | s :: ss => h.substSlot spec excluded s :: h.substSlots spec excluded ss
termination_by structural ss => ss

end

/-- Resolve one argument through `outer`. Parameters `outer` does not map are kept. -/
def resolveArgument (h : Hierarchy) (outer : Spec) (s : Slot) : Slot :=
  h.substSlot outer ((h.slotMentions s).filter fun n => !outer.contains n) s

/-- Key resolved arguments by the declared parameters. -/
def keyed (h : Hierarchy) (outer : Spec) : List Slot → List Slot → Spec → Spec
  | p :: ps, s :: ss, acc => h.keyed outer ps ss (acc.insert p.name (h.resolveArgument outer s))
  | _, _, acc => acc

/-- The arguments of `t` resolved through `outer`, keyed by the parameters of its declaration.
A type without arguments leaves `outer` as it is. -/
def createSpec (h : Hierarchy) (outer : Spec) : Ty → Except Failure Spec
  | .array _ e => h.createSpec outer e
  | t =>
    match t.head?, h.args t with
    | none, _ | _, [] => .ok outer
    | some d, args =>
      if (h.params d).length = args.length then .ok (h.keyed outer (h.params d) args .empty)
      else
        .error (.violation ⟨.argumentCount t.name (h.params d).length args.length,
          h.declaration t, t⟩)

/-- Extend `spec` with the type parameters of a method, which shadow entries of the same name. Each
stands for itself, bounded by the root when it declares no bound. Bounds are substituted, except
that parameters bounded by a parameter keep their bounds. -/
def addMethodParams (h : Hierarchy) (spec : Spec) (typeParams : List Slot) : Spec :=
  let own := typeParams.map Slot.name
  typeParams.foldl (fun acc p =>
    acc.insert p.name <|
      match p with
      | .param m _ _ n [] => .parameter m.site n [.object]
      | .param m _ _ n (b :: bs) =>
        .parameter m.site n (if b.isParam then b :: bs else h.substTypes spec own (b :: bs))
      | other => other) spec

end Hierarchy

end NominalGenerics
