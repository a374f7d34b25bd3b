/-!
# Class models

A class model is a list of type declarations as an author writes them: names, flags, and expressions
still to be read.
-/

namespace NominalGenerics

/-- A method as written. The result is empty or `void` for a method that returns nothing. -/
structure MethodDecl where
  name : String := ""
  typeParams : List String := []
  params : List String := []
  returns : String := ""
deriving DecidableEq, Repr

/-- A class or interface as written. What a class extends is its superclass; an interface extends
its superinterfaces. -/
structure TypeDecl where
  name : String := ""
  isInterface : Bool := false
  params : List String := []
  extended : List String := []
  implemented : List String := []
  inCompilation : Bool := false
  methods : List MethodDecl := []
deriving DecidableEq, Repr

structure ClassModel where
  types : List TypeDecl := []
deriving DecidableEq, Repr

end NominalGenerics
