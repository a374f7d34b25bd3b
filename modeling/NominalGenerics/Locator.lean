import NominalGenerics.Ascent

/-!
# Locating an inherited instantiation

`locate` looks for the use of a generic declaration that a receiver inherits. The hierarchy of the
receiver is walked breadth first, interfaces before the superclass, and every supertype is
parameterised from the type below it. Each declaration is visited once, so where the hierarchy
branches and meets again only the first path counts.
-/

namespace NominalGenerics.Hierarchy

/-- `super`, a direct supertype of `t` as written, with the arguments of `t`. -/
def instantiate (h : Hierarchy) (t super : Ty) : Except Failure Ty :=
  if !h.hasParams super then .ok super
  else if h.isRaw t || t.isDiamond then .ok (h.erasedUse t (h.declaration super))
  else do
    let spec ← h.createSpec .empty t
    return h.subst spec [] super

/-- The direct supertypes of `t` with the arguments of `t`, interfaces first. -/
def instantiateAll (h : Hierarchy) (t : Ty) : Except Failure (List Ty) :=
  (h.interfaces t ++ (h.superclass t).toList).mapM (h.instantiate t)

/-- Search a queue of types for a use of `d`, in at most `fuel` steps. A use without arguments ends
the search empty-handed. -/
def locateQueue (h : Hierarchy) (d : DeclId) : Nat → Queue Ty → List DeclId →
    Except Failure (Option Ty)
  | 0, _, _ => .error .exhausted
  | fuel + 1, queue, visited =>
    match queue.pop with
    | (none, _) => .ok none
    | (some t, queue) =>
      match t.head? with
      | none => h.locateQueue d fuel (queue.push t.bounds) visited
      | some e =>
        if e ∈ visited then h.locateQueue d fuel queue visited
        else if e = d ∧ t.isUse then
          let supplied := (h.args t).length
          let declared := (h.params d).length
          if supplied = 0 then .ok none
          else if supplied = declared then .ok (some t)
          else .error (.violation ⟨.argumentCount d.name declared supplied, .decl d, t⟩)
        else do
          let supers ← h.instantiateAll t
          h.locateQueue d fuel (queue.push supers) (e :: visited)

/-- The instantiation of `d` that `receiver` inherits, if there is one. -/
def locate (h : Hierarchy) (d : DeclId) (receiver : Ty) : Except Failure (Option Ty) :=
  h.locateQueue d (h.budget receiver.weight) (.ofList [receiver]) []

end NominalGenerics.Hierarchy
