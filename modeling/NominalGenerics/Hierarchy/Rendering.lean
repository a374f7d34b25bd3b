import NominalGenerics.Hierarchy.Basic

/-!
# Types as text

`render` writes a type as an expression. `renderBounded` adds the bounds of each type parameter
where its name is first met; bounds may refer back to the parameter, so later occurrences are bare.
`describe` is the head line of a declaration.
-/

namespace NominalGenerics.Hierarchy

mutual

def render (h : Hierarchy) : Ty → String
  | .decl d =>
    match h.params d with
    | [] => d.name
    | ps => d.name ++ "<" ++ ", ".intercalate (ps.map Slot.name) ++ ">"
  | .bare _ d => d.name
  | .app _ d args => d.name ++ "<" ++ ", ".intercalate (h.renderSlots args) ++ ">"
  | .param _ n _ => n
  | .array _ e => h.render e ++ "[]"

/-- A slot as an argument expression. A lower bound hides the upper ones. -/
def renderSlot (h : Hierarchy) : Slot → String
  | .exact _ t => h.render t
  | .rebound _ _ _ [] => DeclId.object.name
  | .rebound _ _ _ (u :: _) => h.render u
  | .param _ _ _ n _ => n
  | .wildcard _ (some l) _ => "? super " ++ h.render l
  | .wildcard _ none [] => "?"
  | .wildcard _ none (u :: us) =>
    "? extends " ++ " & ".intercalate (h.render u :: h.renderTypes us)

def renderTypes (h : Hierarchy) : List Ty → List String
  | [] => []
  | t :: ts => h.render t :: h.renderTypes ts

def renderSlots (h : Hierarchy) : List Slot → List String
  | [] => []
  | s :: ss => h.renderSlot s :: h.renderSlots ss

end

/-! ## With bounds -/

/-- Text, and the type parameters whose bounds have been written. -/
abbrev Seen (α : Type) := α → List String → String × List String

def writeAll {α : Type} (write : Seen α) (sep : String) : Seen (List α)
  | [], seen => ("", seen)
  | [a], seen => write a seen
  | a :: rest, seen =>
    let (text, seen) := write a seen
    let (texts, seen) := writeAll write sep rest seen
    (text ++ sep ++ texts, seen)

/-- Write a type parameter, with its bounds unless they are written already or say nothing. -/
def writeParam (write : Seen Ty) (name : String) (bounds : List Ty) (seen : List String) :
    String × List String :=
  let vacuous :=
    match bounds with
    | [] => true
    | [b] => b.isRoot
    | _ => false
  if vacuous || seen.contains name then (name, seen)
  else
    let (text, seen) := writeAll write " & " bounds (name :: seen)
    (name ++ " extends " ++ text, seen)

def writeSlot (write : Seen Ty) : Seen Slot
  | .param _ _ _ n bs, seen => writeParam write n bs seen
  | .wildcard _ (some l) _, seen =>
    let (text, seen) := write l seen
    ("? super " ++ text, seen)
  | .wildcard _ none [], seen => ("?", seen)
  | .wildcard _ none us, seen =>
    let (text, seen) := writeAll write " & " us seen
    ("? extends " ++ text, seen)
  | s, seen => write s.ty seen

/-- Write a type with bounds, descending at most `fuel` levels. -/
def writeTy (h : Hierarchy) : Nat → Seen Ty
  | 0, t, seen => (t.name, seen)
  | fuel + 1, t, seen =>
    let arguments (d : DeclId) (args : List Slot) :=
      let (text, seen) := writeAll (writeSlot (h.writeTy fuel)) ", " args seen
      (d.name ++ "<" ++ text ++ ">", seen)
    match t with
    | .decl d => if (h.params d).isEmpty then (d.name, seen) else arguments d (h.params d)
    | .bare _ d => (d.name, seen)
    | .app _ d args => arguments d args
    | .param _ n bs => writeParam (h.writeTy fuel) n bs seen
    | .array _ e =>
      let (text, seen) := h.writeTy fuel e seen
      (text ++ "[]", seen)

/-- A type with the bounds of every type parameter it mentions. -/
def renderBounded (h : Hierarchy) (t : Ty) : String :=
  (h.writeTy (h.budget t.weight) t []).1

def renderParams (h : Hierarchy) (params : List Slot) : String :=
  (writeAll (writeSlot (h.writeTy (h.budget (Slot.weights params)))) ", " params []).1

/-! ## Declarations -/

/-- The declaration of `t` with its parameters and written supertypes. -/
def describe (h : Hierarchy) (t : Ty) : String :=
  let d := h.declaration t
  let listed (word : String) (types : List Ty) :=
    if types.isEmpty then "" else word ++ ", ".intercalate (h.renderTypes types)
  -- a parameter or an array has no supertypes of its own, only those of what it stands for
  let written :=
    match d.head? with
    | some e => (h.content e).interfaces
    | none => []
  let super := (h.superclass d).toList.filter (fun s => !s.isRoot)
  if h.isInterface d then
    "interface " ++ h.renderBounded d ++ listed " extends " written
  else
    (if h.isUnion d then "union " else "class ") ++ h.renderBounded d
      ++ listed " extends " super ++ listed " implements " written

end NominalGenerics.Hierarchy
