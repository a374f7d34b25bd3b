import NominalGenerics.Hierarchy.Rendering

/-!
# Method signatures

A signature names its owner, its own type parameters, its parameter types and its result, which is
missing for a method that returns nothing. A signature put together by hand may also lack a
parameter type; it can be shown, but not resolved.
-/

namespace NominalGenerics

structure Signature where
  name : String
  owner : Option Ty
  typeParams : List Slot
  params : List (Option Ty)
  returns : Option Ty

def Hierarchy.renderOption (h : Hierarchy) : Option Ty → String
  | some t => h.render t
  | none => "<nil>"

/-- A signature as text: `<T extends A> R Owner.name(P, Q)`. -/
def Signature.render (h : Hierarchy) (m : Signature) : String :=
  let typeParams :=
    if m.typeParams.isEmpty then "" else "<" ++ h.renderParams m.typeParams ++ "> "
  let returns :=
    match m.returns with
    | some t => h.render t
    | none => "void"
  let owner :=
    match m.owner with
    | some t => (h.declaration t).name ++ "."
    | none => ""
  typeParams ++ returns ++ " " ++ owner ++ m.name
    ++ "(" ++ ", ".intercalate (m.params.map h.renderOption) ++ ")"

end NominalGenerics
