import NominalGenerics.Arguments

/-!
# Declared parameters and actual arguments

Bindings pair the parameters of a declaration with the arguments a receiver supplies for them. The
exact bindings leave no argument a type parameter: such an argument is connected to other bindings
or to the receiver's own arguments, and whatever remains is resolved to its erasure.
-/

namespace NominalGenerics

structure Binding where
  declared : Slot
  actual : Slot

abbrev Bindings := List Binding

namespace Bindings

def get? (b : Bindings) (name : String) : Option Slot :=
  (b.find? fun e => e.declared.name == name).map Binding.actual

def toSpec (b : Bindings) : Spec :=
  b.foldl (fun spec e => spec.insert e.declared.name e.actual) .empty

/-- Where a type parameter argument leads: to another binding of its name, or to what the receiver
supplies for that name. -/
def next? (b : Bindings) (receiverArgs : Spec) (actual : Slot) : Option Slot :=
  match b.get? actual.name with
  | some other => if other = actual then receiverArgs.get? actual.name else some other
  | none => receiverArgs.get? actual.name

/-- Follow a type parameter argument until it leads to something else, nowhere, or to a name met
before. Every step meets a new name, so as many steps as there are names suffice. -/
def follow (b : Bindings) (receiverArgs : Spec) : Nat → List String → Slot → Slot
  | 0, _, actual => actual
  | fuel + 1, met, actual =>
    if !actual.isParam || met.contains actual.name then actual
    else
      match b.next? receiverArgs actual with
      | some other => b.follow receiverArgs fuel (actual.name :: met) other
      | none => actual

/-- The exact argument for one that may be a type parameter. -/
def connect (h : Hierarchy) (b : Bindings) (receiverArgs : Spec) (actual : Slot) : Slot :=
  let reached := b.follow receiverArgs (b.length + receiverArgs.size + 2) [] actual
  if reached.isParam then
    (Slot.ofTy reached.site (h.erasure reached.ty)).asResolved reached.site
  else reached

/-- The bindings with no argument left a type parameter. -/
def exact (h : Hierarchy) (b : Bindings) (receiver : Ty) : Except Failure Bindings := do
  let receiverArgs ← h.arguments receiver
  return b.map fun e => ⟨e.declared, b.connect h receiverArgs e.actual⟩

end Bindings

end NominalGenerics
