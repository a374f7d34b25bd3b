import NominalGenerics.Collections.Queue
import NominalGenerics.Hierarchy.Basic

/-!
# Ancestors

Walks over the declared hierarchy. `lineage` is the superclass chain, `allInterfaces` every
interface inherited through superclasses and superinterfaces, and `ancestorNames` the names of all
proper supertypes. Each node of a breadth-first walk is expanded once.
-/

namespace NominalGenerics.Hierarchy

def lineageWithin (h : Hierarchy) : Nat → Ty → List Ty
  | 0, _ => []
  | fuel + 1, t =>
    match h.superclass t with
    | none => [t]
    | some s => t :: h.lineageWithin fuel s

/-- `t`, its superclass, the superclass of that, and so on up to the root. -/
def lineage (h : Hierarchy) (t : Ty) : List Ty := h.lineageWithin (h.budget t.weight) t

/-- The nodes reached from a queue, breadth first and each once; `found` holds those met so far,
latest first. -/
def reachQueue (next : Ty → List Ty) : Nat → Queue Ty → List Ty → List Ty
  | 0, _, found => found.reverse
  | fuel + 1, queue, found =>
    match queue.pop with
    | (none, _) => found.reverse
    | (some t, queue) =>
      if t ∈ found then reachQueue next fuel queue found
      else reachQueue next fuel (queue.push (next t)) (t :: found)

def reachDeclarations (h : Hierarchy) (next : Ty → List Ty) (start : List Ty) : List Ty :=
  reachQueue (fun d => (next d).map h.declaration) (h.budget (Ty.weights start))
    (.ofList (start.map h.declaration)) []

/-- The declarations of every interface `t` implements, directly or through its superclasses and
superinterfaces, each once. -/
def allInterfaces (h : Hierarchy) (t : Ty) : List Ty :=
  h.reachDeclarations h.interfaces ((h.lineage t).flatMap h.interfaces)

/-- The declarations of every proper supertype of `t`, each once. -/
def ancestors (h : Hierarchy) (t : Ty) : List Ty :=
  h.reachDeclarations h.supertypes (h.supertypes (h.declaration t))

/-- Keep one of each run of equal names. -/
def dropRepeats : List String → List String
  | a :: b :: rest => if a = b then dropRepeats (b :: rest) else a :: dropRepeats (b :: rest)
  | names => names

def ancestorNames (h : Hierarchy) (t : Ty) : List String :=
  dropRepeats (((h.ancestors t).map Ty.name).mergeSort fun a b => decide (a ≤ b))

end NominalGenerics.Hierarchy
