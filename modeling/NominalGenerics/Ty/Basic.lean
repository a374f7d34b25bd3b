/-!
# Types and slots

A type is a declaration, a use of one, a type parameter or an array. A slot is one type argument or
one declared type parameter.

Every written node remembers the site it was written at. Two nodes of the same shape at different
sites are different nodes, which the locator's memory and the exact argument map can tell apart; a
node that substitution rebuilds keeps the site of the node it came from.
-/

namespace NominalGenerics

/-- Where a node was written: which text, and how far into it. -/
structure Site where
  source : Nat
  offset : Nat
deriving DecidableEq, Repr

/-- The identity of a declaration. Two declarations of one name differ in their index. -/
structure DeclId where
  name : String
  index : Nat
deriving DecidableEq, Repr

/-- The universal root type. -/
def DeclId.object : DeclId := ⟨"Object", 0⟩

/-- What stands where a type is missing. It is shown as such, and nothing can be asked about it. -/
def DeclId.missing : DeclId := ⟨"<nil>", 1⟩

/-- What a slot carries whatever it says: its site, and whether it was bound to an exact type. -/
structure Mark where
  site : Site
  resolved : Bool
deriving DecidableEq, Repr

mutual

inductive Ty where
  /-- A class or interface declaration itself, seen as a type. -/
  | decl (d : DeclId)
  /-- A use of a declaration without an argument list. -/
  | bare (site : Site) (d : DeclId)
  /-- A use of a declaration with an argument list; the empty list is the diamond. -/
  | app (site : Site) (d : DeclId) (args : List Slot)
  /-- A type parameter with its upper bounds. -/
  | param (site : Site) (name : String) (bounds : List Ty)
  /-- An array of its element type. -/
  | array (site : Site) (elem : Ty)

/-- One type argument, or one declared type parameter. -/
inductive Slot where
  /-- Exactly one type, such as `String` or `List<T>`. -/
  | exact (mark : Mark) (ty : Ty)
  /-- A one-type slot whose bounds were replaced. It stands for the first upper bound and keeps the
  name of the type it held. -/
  | rebound (mark : Mark) (name : String) (lower : Option Ty) (upper : List Ty)
  /-- A type parameter; `node` is the site of the parameter as a type. -/
  | param (mark : Mark) (lower : Option Ty) (node : Site) (name : String) (bounds : List Ty)
  /-- An unnamed argument between a lower bound and conjunctive upper bounds. -/
  | wildcard (mark : Mark) (lower : Option Ty) (upper : List Ty)

end

inductive Ty.Kind where
  | cls
  | param
  | array
deriving DecidableEq, Repr

inductive Slot.Kind where
  | exact
  | param
  | wildcard
deriving DecidableEq, Repr

namespace Ty

def object : Ty := .decl .object

instance : Inhabited Ty := ⟨object⟩

/-- A type that is not there, among bounds or interfaces. -/
def missing : Ty := .decl .missing

def isMissing : Ty → Bool
  | .decl d => d == .missing
  | _ => false

/-- A type that may be missing, as one among others. -/
def ofOption (t : Option Ty) : Ty := t.getD missing

/-- One of several types, unless it is missing. -/
def toOption (t : Ty) : Option Ty := if t.isMissing then none else some t

def kind : Ty → Kind
  | .decl _ | .bare _ _ | .app _ _ _ => .cls
  | .param _ _ _ => .param
  | .array _ _ => .array

def name : Ty → String
  | .decl d | .bare _ d | .app _ d _ => d.name
  | .param _ n _ => n
  | .array _ e => e.name ++ "[]"

/-- The declaration a class type is, or is a use of. -/
def head? : Ty → Option DeclId
  | .decl d | .bare _ d | .app _ d _ => some d
  | .param _ _ _ | .array _ _ => none

/-- The site of a written node; a declaration is not written anywhere and reads as the origin. -/
def site : Ty → Site
  | .decl _ => ⟨0, 0⟩
  | .bare s _ | .app s _ _ | .param s _ _ | .array s _ => s

/-- The same type written at another site. A declaration stays what it is. -/
def writtenAt (site : Site) : Ty → Ty
  | .decl d => .decl d
  | .bare _ d => .bare site d
  | .app _ d args => .app site d args
  | .param _ n bounds => .param site n bounds
  | .array _ e => .array site e

def isParam : Ty → Bool
  | .param _ _ _ => true
  | _ => false

def isArray : Ty → Bool
  | .array _ _ => true
  | _ => false

/-- A use of a declaration, as opposed to the declaration itself. -/
def isUse : Ty → Bool
  | .bare _ _ | .app _ _ _ => true
  | _ => false

/-- A use with an empty argument list. -/
def isDiamond : Ty → Bool
  | .app _ _ [] => true
  | _ => false

def isApplied : Ty → Bool
  | .app _ _ (_ :: _) => true
  | _ => false

/-- The universal root, or a use of it. -/
def isRoot (t : Ty) : Bool := t.head? == some .object

def bounds : Ty → List Ty
  | .param _ _ bs => bs
  | _ => []

/-- Whether two types denote the same declaration, whatever their arguments. Arrays compare their
elements and type parameters their names. -/
def is : Ty → Ty → Bool
  | .array _ a, .array _ b => a.is b
  | .param _ n _, .param _ m _ => n == m
  | a, b =>
    match a.head?, b.head? with
    | some d, some e => d == e
    | _, _ => false

end Ty

namespace Slot

/-- The slot of a type used as an argument: a type parameter gives a parameter slot. -/
def ofTy (site : Site) : Ty → Slot
  | .param node n bs => .param ⟨site, false⟩ none node n bs
  | t => .exact ⟨site, false⟩ t

def parameter (site : Site) (name : String) (bounds : List Ty) : Slot :=
  .param ⟨site, false⟩ none site name bounds

/-- The wildcard that accepts any argument. -/
def anything (site : Site) : Slot := .wildcard ⟨site, false⟩ none []

def extending (site : Site) (upper : List Ty) : Slot := .wildcard ⟨site, false⟩ none upper

def above (site : Site) (lower : Option Ty) : Slot := .wildcard ⟨site, false⟩ lower []

instance : Inhabited Slot := ⟨anything ⟨0, 0⟩⟩

def mark : Slot → Mark
  | .exact m _ | .rebound m _ _ _ | .param m _ _ _ _ | .wildcard m _ _ => m

def site (s : Slot) : Site := s.mark.site

def isResolved (s : Slot) : Bool := s.mark.resolved

def kind : Slot → Kind
  | .exact _ _ | .rebound _ _ _ _ => .exact
  | .param _ _ _ _ _ => .param
  | .wildcard _ _ _ => .wildcard

def isParam : Slot → Bool
  | .param _ _ _ _ _ => true
  | _ => false

def isWildcard : Slot → Bool
  | .wildcard _ _ _ => true
  | _ => false

def name : Slot → String
  | .exact _ t => t.name
  | .rebound _ n _ _ => n
  | .param _ _ _ n _ => n
  | .wildcard _ _ _ => "?"

/-- The single type a slot stands for when its kind is ignored. -/
def ty : Slot → Ty
  | .exact _ t => t
  | .rebound _ _ _ upper => upper.headD .object
  | .param _ _ node n bs => .param node n bs
  | .wildcard _ _ upper => upper.headD .object

def lower : Slot → Option Ty
  | .exact _ _ => none
  | .rebound _ _ l _ | .param _ l _ _ _ | .wildcard _ l _ => l

def upper : Slot → List Ty
  | .exact _ _ => []
  | .rebound _ _ _ us | .param _ _ _ _ us | .wildcard _ _ us => us

/-- The same slot written at `site`, with its bounds replaced. It keeps its kind and its name. -/
def withBounds (site : Site) (lower : Option Ty) (upper : List Ty) : Slot → Slot
  | .exact m t => .rebound ⟨site, m.resolved⟩ t.name lower upper
  | .rebound m n _ _ => .rebound ⟨site, m.resolved⟩ n lower upper
  | .param m _ _ n _ => .param ⟨site, m.resolved⟩ lower site n upper
  | .wildcard m _ _ => .wildcard ⟨site, m.resolved⟩ lower upper

/-- The same slot written at `site`, marked as bound to an exact type. -/
def asResolved (site : Site) : Slot → Slot
  | .exact _ t => .exact ⟨site, true⟩ t
  | .rebound _ n l us => .rebound ⟨site, true⟩ n l us
  | .param _ l node n bs => .param ⟨site, true⟩ l node n bs
  | .wildcard _ l us => .wildcard ⟨site, true⟩ l us

/-- The slot as an argument of a use. One whose bounds were replaced is a node of its own in every
place it is used, at `site`. -/
def asArgument (site : Site) : Slot → Slot
  | .rebound m n l us => .rebound ⟨site, m.resolved⟩ n l us
  | s => s

end Slot

/-- A use of a declaration, written at `site`, with arguments taken from elsewhere. -/
def Ty.applied (site : Site) (d : DeclId) (args : List Slot) : Ty :=
  .app site d (args.mapIdx fun i s => s.asArgument ⟨site.source, site.offset + i + 1⟩)

mutual

/-- The number of nodes a type is written with. -/
def Ty.weight : Ty → Nat
  | .decl _ | .bare _ _ => 1
  | .app _ _ args => 1 + Slot.weights args
  | .param _ _ bounds => 1 + Ty.weights bounds
  | .array _ e => 1 + e.weight

def Slot.weight : Slot → Nat
  | .exact _ t => 1 + t.weight
  | .rebound _ _ none us | .param _ none _ _ us | .wildcard _ none us => 1 + Ty.weights us
  | .rebound _ _ (some l) us | .param _ (some l) _ _ us | .wildcard _ (some l) us =>
    1 + l.weight + Ty.weights us

def Ty.weights : List Ty → Nat
  | [] => 0
  | t :: ts => t.weight + Ty.weights ts

def Slot.weights : List Slot → Nat
  | [] => 0
  | s :: ss => s.weight + Slot.weights ss

end

end NominalGenerics
