import NominalGenerics.Hierarchy.Ancestry
import NominalGenerics.NameMap
import NominalGenerics.Signature

/-!
# Registries

A registry gives names to declarations and lists the methods declared under each name. Registries
are values: a copy can be extended without the other noticing.
-/

namespace NominalGenerics

structure Registry where
  names : NameMap DeclId
  methods : NameMap (List Signature)

inductive RegistryError where
  | notADeclaration (text : String)
  | redefined (name : String)
  | unknownOwner (method owner : String)
deriving DecidableEq, Repr

def RegistryError.message : RegistryError → String
  | .notADeclaration text => text ++ " is not a class or interface declaration"
  | .redefined name => s!"type {name} is already defined"
  | .unknownOwner method owner => s!"method {method} is declared on unknown type {owner}"

namespace Registry

def root : Registry := ⟨.ofList [(DeclId.object.name, .object)], .empty⟩

instance : Inhabited Registry := ⟨root⟩

def lookup? (r : Registry) (name : String) : Option DeclId := r.names.get? name

def methodsOf (r : Registry) (owner : String) : List Signature := (r.methods.get? owner).getD []

def name (r : Registry) (d : DeclId) : Except RegistryError Registry :=
  if r.names.contains d.name then .error (.redefined d.name)
  else .ok { r with names := r.names.insert d.name d }

/-- Name the declaration that `t` is. -/
def define (r : Registry) (h : Hierarchy) (t : Ty) : Except RegistryError Registry :=
  match t with
  | .decl d => r.name d
  | _ => .error (.notADeclaration (h.render t))

/-- List a method under the name of its owner, after those already there. -/
def addMethod (r : Registry) (owner : String) (m : Signature) : Registry :=
  { r with methods := r.methods.insert owner (r.methodsOf owner ++ [m]) }

/-- List a method under the name of its owner, which has to be known. -/
def defineMethod (r : Registry) (owner : String) (m : Signature) :
    Except RegistryError Registry :=
  if r.names.contains owner then .ok (r.addMethod owner m)
  else .error (.unknownOwner m.name owner)

/-- The names under which methods visible on `t` are listed: its own, then its ancestors'. -/
def owners (h : Hierarchy) (t : Ty) : List String :=
  (h.declaration t).name :: h.ancestorNames t

/-- The first method called `name` on `t` or, failing that, on one of its ancestors. -/
def findMethod? (r : Registry) (h : Hierarchy) (t : Ty) (name : String) : Option Signature :=
  ((owners h t).flatMap r.methodsOf).find? (·.name == name)

end Registry

end NominalGenerics
