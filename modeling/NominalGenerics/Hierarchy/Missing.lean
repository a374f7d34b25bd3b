import NominalGenerics.Hierarchy.Ancestry
import NominalGenerics.Hierarchy.Rendering

/-!
# Missing types

Among bounds, upper bounds and interfaces a type may be missing. Such a list can be shown and
compared, but a question that has to look at the missing type has no answer. This module says what a
question looks at.
-/

namespace NominalGenerics.Hierarchy

mutual

/-- What is met when the type parameters a type mentions are looked for, in order: their names, and
nothing where a type is missing. -/
def look (h : Hierarchy) : Ty → List (Option String)
  | .decl d => if d == .missing then [none] else (h.params d).map (some ·.name)
  | .bare _ _ => []
  | .app _ _ args => h.lookSlots args
  | .param _ n _ => [some n]
  | .array _ e => h.look e

def lookSlot (h : Hierarchy) : Slot → List (Option String)
  | .exact _ t => h.look t
  | .rebound _ _ _ [] => []
  | .rebound _ _ _ (u :: _) => h.look u
  | .param _ _ _ n _ => [some n]
  | .wildcard _ none us => h.lookTypes us
  | .wildcard _ (some l) us => h.look l ++ h.lookTypes us

def lookTypes (h : Hierarchy) : List Ty → List (Option String)
  | [] => []
  | t :: ts => h.look t ++ h.lookTypes ts

def lookSlots (h : Hierarchy) : List Slot → List (Option String)
  | [] => []
  | s :: ss => h.lookSlot s ++ h.lookSlots ss

end

/-- Whether a walk over all of a type meets a missing one. -/
def isPartial (h : Hierarchy) (t : Ty) : Bool := (h.look t).contains none

/-- Whether a search for the first type parameter of a type meets a missing type instead. -/
def hidesParams (h : Hierarchy) (t : Ty) : Bool := (h.look t).head? == some none

def slotHidesParams (h : Hierarchy) (s : Slot) : Bool := (h.lookSlot s).head? == some none

/-- Whether a walk up from `t` meets a missing type. -/
def hasMissingAncestor (h : Hierarchy) (t : Ty) : Bool :=
  (h.declaration t :: h.ancestors t).any fun a => a.isMissing || a.bounds.any Ty.isMissing

/-- A missing type, or an array of one. Nothing that is written is such a type. -/
def isHollow : Ty → Bool
  | .decl d => d == .missing
  | .array _ e => isHollow e
  | _ => false

/-- Whether a type stands for nothing once arguments are forgotten. -/
def erasesToMissing (h : Hierarchy) (t : Ty) : Bool := isHollow (h.erasure t)

mutual

/-- Whether replacing type parameters put a missing type where one has to be. -/
def hasHole : Ty → Bool
  | .decl _ | .bare _ _ | .param _ _ _ => false
  | .app _ _ args => slotsHaveHole args
  | .array _ e => isHollow e || hasHole e

def slotHasHole : Slot → Bool
  | .exact _ t => isHollow t || hasHole t
  | .wildcard _ (some l) us => hasHole l || typesHaveHole us
  | .wildcard _ none us => typesHaveHole us
  | .rebound _ _ _ _ | .param _ _ _ _ _ => false

def typesHaveHole : List Ty → Bool
  | [] => false
  | t :: ts => hasHole t || typesHaveHole ts

def slotsHaveHole : List Slot → Bool
  | [] => false
  | s :: ss => slotHasHole s || slotsHaveHole ss

end

/-! ## Types that can be written with their bounds -/

/-- The type parameters whose bounds have been written once an item is written too, if it can be. -/
abbrev Written (α : Type) := α → List String → Option (List String)

def writtenAll {α : Type} (written : Written α) : Written (List α)
  | [], seen => some seen
  | a :: rest, seen => (written a seen).bind (writtenAll written rest)

/-- A type parameter whose only bound is missing cannot be written with its bound: that bound cannot
be told from the root, which is left out. -/
def writtenParam (written : Written Ty) (name : String) (bounds : List Ty) (seen : List String) :
    Option (List String) :=
  if seen.contains name then some seen
  else
    match bounds with
    | [] => some seen
    | [b] =>
      if b.isMissing then none else if b.isRoot then some seen else written b (name :: seen)
    | bs => writtenAll written bs (name :: seen)

def writtenSlot (written : Written Ty) : Written Slot
  | .param _ _ _ n bs, seen => writtenParam written n bs seen
  | .wildcard _ (some l) _, seen => written l seen
  | .wildcard _ none us, seen => writtenAll written us seen
  | s, seen => written s.ty seen

/-- Follow how a type is written with bounds, descending at most `fuel` levels. -/
def writtenTy (h : Hierarchy) : Nat → Written Ty
  | 0, _, seen => some seen
  | fuel + 1, t, seen =>
    match t with
    | .decl _ | .bare _ _ | .app _ _ _ =>
      writtenAll (writtenSlot (h.writtenTy fuel)) (h.args t) seen
    | .param _ n bs => writtenParam (h.writtenTy fuel) n bs seen
    | .array _ e => h.writtenTy fuel e seen

/-- Whether a type can be written with the bounds of every type parameter it mentions. -/
def isShowable (h : Hierarchy) (t : Ty) : Bool := (h.writtenTy (h.budget t.weight) t []).isSome

def areShowable (h : Hierarchy) (params : List Slot) : Bool :=
  (writtenAll (writtenSlot (h.writtenTy (h.budget (Slot.weights params)))) params []).isSome

def standsForMissing (t : Ty) : Bool := t.bounds.head?.any Ty.isMissing

def isDescribable (h : Hierarchy) (t : Ty) : Bool :=
  let d := h.declaration t
  h.isShowable d && !standsForMissing d

/-- Whether all there is to say about a type can be said: it can be shown and described, its type
parameters can be looked for, and what it stands for is there. -/
def isTellable (h : Hierarchy) (t : Ty) : Bool :=
  h.isShowable t && h.isDescribable t && !h.hidesParams t && !h.erasesToMissing t
    && !t.bounds.any Ty.isMissing

end NominalGenerics.Hierarchy
