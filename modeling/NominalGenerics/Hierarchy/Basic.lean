import NominalGenerics.Ty.Identity

/-!
# Declarations

A hierarchy is the table of every declaration there is, in the order they were made. Types refer to
declarations by identity, so a declaration may mention itself in its own bounds and supertypes.
Superclasses and interfaces are read as written, in terms of the declaration's own parameters.
-/

namespace NominalGenerics

inductive DeclForm where
  | cls
  | iface
  /-- A synthesised least upper bound of a superclass and interfaces. -/
  | union
deriving DecidableEq, Repr

structure Decl where
  form : DeclForm := .cls
  /-- Still being compiled. -/
  pending : Bool := false
  params : List Slot := []
  /-- The written superclass; without one it is the root. -/
  super : Option Ty := none
  interfaces : List Ty := []
  /-- For a use made over a type parameter or an array, the node used in place of a declaration. -/
  standsFor : Option Ty := none

/-- The number of nodes a declaration is written with. -/
def Decl.weight (d : Decl) : Nat :=
  1 + Slot.weights d.params + Ty.weights d.super.toList + Ty.weights d.interfaces
    + Ty.weights d.standsFor.toList

def Decl.weights : List Decl → Nat
  | [] => 0
  | d :: ds => d.weight + Decl.weights ds

/-- Every declaration, and how many texts have been read so far. `weight` bounds every walk. -/
structure Hierarchy where
  decls : Array Decl
  sources : Nat
  weight : Nat
  weight_eq : weight = Decl.weights decls.toList

namespace Hierarchy

def ofDecls (decls : Array Decl) (sources : Nat) : Hierarchy :=
  ⟨decls, sources, Decl.weights decls.toList, rfl⟩

/-- The hierarchy of the root type alone, beside what stands for a missing type. -/
def root : Hierarchy := ofDecls #[{}, {}] 1

instance : Inhabited Hierarchy := ⟨root⟩

/-- Enough steps for any walk that starts from types of weight `w` and does not go in circles. -/
def budget (h : Hierarchy) (w : Nat) : Nat := (h.weight + w + 1) * (h.weight + w + 1)

/-! ## Growth -/

def declare (h : Hierarchy) (name : String) (content : Decl) : DeclId × Hierarchy :=
  (⟨name, h.decls.size⟩, ofDecls (h.decls.push content) h.sources)

def update (h : Hierarchy) (d : DeclId) (f : Decl → Decl) : Hierarchy :=
  ofDecls (h.decls.modify d.index f) h.sources

/-- The number of a text not read before. -/
def fresh (h : Hierarchy) (count : Nat) : Hierarchy :=
  { h with sources := h.sources + count }

/-! ## Content -/

/-- The content of a declaration; an identity that was never issued reads as an empty class. -/
def content (h : Hierarchy) (d : DeclId) : Decl := h.decls.getD d.index {}

def params (h : Hierarchy) (d : DeclId) : List Slot := (h.content d).params

/-- The declaration of a class type. Type parameters and arrays are their own declaration. -/
def declaration (h : Hierarchy) (t : Ty) : Ty :=
  match t.head? with
  | some d => (h.content d).standsFor.getD (.decl d)
  | none => t

def isInterface (h : Hierarchy) (t : Ty) : Bool :=
  match t.head? with
  | some d => (h.content d).form == .iface
  | none => false

def isUnion (h : Hierarchy) (t : Ty) : Bool :=
  match t.head? with
  | some d => (h.content d).form == .union
  | none => false

def isPending (h : Hierarchy) (t : Ty) : Bool :=
  match t.head? with
  | some d => (h.content d).pending
  | none => false

def isGeneric (h : Hierarchy) (t : Ty) : Bool :=
  match t.head? with
  | some d => !(h.params d).isEmpty
  | none => false

/-- A use of a generic declaration without an argument list. -/
def isRaw (h : Hierarchy) : Ty → Bool
  | .bare s d => h.isGeneric (.bare s d)
  | _ => false

/-- The slots of a type: the parameters of a declaration, or the arguments of a use. -/
def args (h : Hierarchy) : Ty → List Slot
  | .decl d => h.params d
  | .app _ _ as => as
  | .bare _ _ | .param _ _ _ | .array _ _ => []

/-- The superclass as written. Only the root has none. -/
def superclass (h : Hierarchy) : Ty → Option Ty
  | .array _ _ | .param _ _ [] => some .object
  | .param _ _ (b :: _) => if h.isInterface b then some .object else some b
  | .decl d | .bare _ d | .app _ d _ =>
    if d = .object then none else some ((h.content d).super.getD .object)

theorem superclass_eq_none {h : Hierarchy} {t : Ty} :
    h.superclass t = none ↔ t.isRoot = true := by
  cases t with
  | decl d | bare _ d | app _ d _ => simp [superclass, Ty.isRoot, Ty.head?]
  | array => simp [superclass, Ty.isRoot, Ty.head?]
  | param s n bs =>
    cases bs with
    | nil => simp [superclass, Ty.isRoot, Ty.head?]
    | cons b bs =>
      simp only [superclass, Ty.isRoot, Ty.head?]
      split <;> simp

/-- The interfaces as written, implemented by a class or extended by an interface. -/
def interfaces (h : Hierarchy) : Ty → List Ty
  | .array _ _ => []
  | .param _ _ bs => bs.filter h.isInterface
  | .decl d | .bare _ d | .app _ d _ => (h.content d).interfaces

/-- The direct supertypes as written, superclass first. -/
def supertypes (h : Hierarchy) (t : Ty) : List Ty :=
  (h.superclass t).toList ++ h.interfaces t

/-- What a type stands for once arguments are forgotten. -/
def erasure (h : Hierarchy) : Ty → Ty
  | .param _ _ [] => .object
  | .param _ _ (b :: _) => h.erasure b
  | .array s e => .array s (h.erasure e)
  | .decl d => h.declaration (.decl d)
  | .bare s d => h.declaration (.bare s d)
  | .app s d as => h.declaration (.app s d as)

mutual

/-- The type parameters a type mentions, in order and with repetition. Bounds of a mentioned
parameter do not count. -/
def mentions (h : Hierarchy) : Ty → List String
  | .decl d => (h.params d).map Slot.name
  | .bare _ _ => []
  | .app _ _ args => h.slotsMention args
  | .param _ n _ => [n]
  | .array _ e => h.mentions e

def slotMentions (h : Hierarchy) : Slot → List String
  | .exact _ t => h.mentions t
  | .rebound _ _ _ [] => []
  | .rebound _ _ _ (u :: _) => h.mentions u
  | .param _ _ _ n _ => [n]
  | .wildcard _ none us => h.typesMention us
  | .wildcard _ (some l) us => h.mentions l ++ h.typesMention us

def typesMention (h : Hierarchy) : List Ty → List String
  | [] => []
  | t :: ts => h.mentions t ++ h.typesMention ts

def slotsMention (h : Hierarchy) : List Slot → List String
  | [] => []
  | s :: ss => h.slotMentions s ++ h.slotsMention ss

end

def hasParams (h : Hierarchy) (t : Ty) : Bool := !(h.mentions t).isEmpty

def slotHasParams (h : Hierarchy) (s : Slot) : Bool := !(h.slotMentions s).isEmpty

/-! ## Uses -/

/-- The declaration to use for `t`. A type parameter or an array gets a stand-in, one per node. -/
def headOf (h : Hierarchy) (t : Ty) : DeclId × Hierarchy :=
  match t.head? with
  | some d => (d, h)
  | none =>
    match h.decls.findIdx? (fun c => c.standsFor == some t) with
    | some i => (⟨t.name, i⟩, h)
    | none => h.declare t.name { standsFor := some t }

end Hierarchy

end NominalGenerics
