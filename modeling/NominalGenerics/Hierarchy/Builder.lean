import NominalGenerics.Hierarchy.Rendering

/-!
# Building declarations

A declaration may be referred to before it is complete, so that its bounds and supertypes can
mention it. It is completed step by step and then published; nothing changes it afterwards.
-/

namespace NominalGenerics

structure Builder where
  id : DeclId
  published : Bool

inductive BuilderError where
  | published (name : String)
  /-- A slot that is not a type parameter, as text. -/
  | notAParameter (slot name : String)
deriving DecidableEq, Repr

def BuilderError.message : BuilderError → String
  | .published name => s!"types: declaration {name} is already published"
  | .notAParameter slot name => s!"types: declared parameter {slot} of {name} is not a placeholder"

namespace Builder

def start (h : Hierarchy) (name : String) (isInterface : Bool) : Builder × Hierarchy :=
  let (d, h) := h.declare name { form := if isInterface then .iface else .cls }
  (⟨d, false⟩, h)

def ty (b : Builder) : Ty := .decl b.id

def change (b : Builder) (h : Hierarchy) (f : Decl → Decl) : Except BuilderError Hierarchy :=
  if b.published then .error (.published b.id.name) else .ok (h.update b.id f)

/-- Declare the type parameters, in place of those declared before. -/
def declareParams (b : Builder) (h : Hierarchy) (params : List Slot) :
    Except BuilderError Hierarchy :=
  match params.find? fun p => !p.isParam with
  | some p =>
    if b.published then .error (.published b.id.name)
    else .error (.notAParameter (h.renderSlot p) b.id.name)
  | none => b.change h fun c => { c with params := params }

/-- Give the superclass; without one it is the root. -/
def extend (b : Builder) (h : Hierarchy) (super : Option Ty) : Except BuilderError Hierarchy :=
  b.change h fun c => { c with super := super }

/-- Add interfaces after those already there. -/
def implement (b : Builder) (h : Hierarchy) (interfaces : List Ty) :
    Except BuilderError Hierarchy :=
  b.change h fun c => { c with interfaces := c.interfaces ++ interfaces }

def markPending (b : Builder) (h : Hierarchy) : Except BuilderError Hierarchy :=
  b.change h fun c => { c with pending := true }

def publish (b : Builder) : Except BuilderError Builder :=
  if b.published then .error (.published b.id.name) else .ok { b with published := true }

end Builder

def Decl.union (super : Ty) (interfaces : List Ty) : Decl :=
  { form := .union, super := some super, interfaces := interfaces }

/-- Declare a union. It is complete at once, and without a superclass it has the root. -/
def Hierarchy.declareUnion (h : Hierarchy) (name : String) (super : Option Ty)
    (interfaces : List Ty) : Ty × Hierarchy :=
  let (d, h) := h.declare name (.union (super.getD .object) interfaces)
  (.decl d, h)

end NominalGenerics
