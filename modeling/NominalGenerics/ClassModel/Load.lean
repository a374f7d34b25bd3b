import NominalGenerics.ClassModel.Basic
import NominalGenerics.Expression.Reader

/-!
# Loading class models

The declarations of a model may refer to each other and to what is registered already, in any order.
So loading goes through the model several times: first every name is registered, then the number of
parameters of each type is fixed, and only then are bounds, supertypes and methods read. A model
that fails changes nothing.
-/

namespace NominalGenerics

inductive TypeProblem where
  | expression (error : ExpressionError)
  | notASupertype (text : String)
  | implementingInterface
  | interfaceExtendsClass (text : String)
  | severalSuperclasses (count : Nat)
  | classExtendsInterface (text : String)
  | classImplementsClass (text : String)
  | unnamedMethod
  | inMethod (name : String) (error : ExpressionError)
deriving DecidableEq, Repr

def TypeProblem.message : TypeProblem → String
  | .expression error => error.message
  | .notASupertype text => text ++ " cannot be a supertype"
  | .implementingInterface =>
    "an interface extends its superinterfaces, it does not implement them"
  | .interfaceExtendsClass text => "interface cannot extend class " ++ text
  | .severalSuperclasses count => s!"a class extends at most one class, found {count}"
  | .classExtendsInterface text => "class cannot extend interface " ++ text
  | .classImplementsClass text => "class cannot implement class " ++ text
  | .unnamedMethod => "method has no name"
  | .inMethod name error => s!"in method {name}: " ++ error.message

inductive LoadError where
  | unnamed (position : Nat)
  | registry (error : RegistryError)
  | inType (name : String) (problem : TypeProblem)
  | circular (name : String)
deriving DecidableEq, Repr

def LoadError.message : LoadError → String
  | .unnamed position => s!"declaration #{position} has no name"
  | .registry error => error.message
  | .inType name problem => s!"in {name}: " ++ problem.message
  | .circular name => s!"{name} is its own supertype"

/-- What ends a call that takes for granted what does not hold. -/
inductive Panic where
  | unknownType (name : String)
  | expression (error : ExpressionError)
deriving DecidableEq, Repr

def Panic.message : Panic → String
  | .unknownType name => "classmodel: unknown type " ++ name
  | .expression error => error.message

/-- Declarations together with their names. -/
structure Library where
  hierarchy : Hierarchy
  registry : Registry

instance : Inhabited Library := ⟨⟨.root, .root⟩⟩

namespace Library

def root : Library := ⟨.root, .root⟩

/-- Read expressions against the library, as the next text. -/
def reader (l : Library) (scope : Scope) : Reader :=
  ⟨l.hierarchy, l.registry, scope, l.hierarchy.sources⟩

/-- Count the texts that have been read. -/
def read (l : Library) (count : Nat) : Library := { l with hierarchy := l.hierarchy.fresh count }

/-- Read an expression in an empty scope. -/
def readType (l : Library) (text : String) : Except ExpressionError (Ty × Library) := do
  let t ← (l.reader .empty).parseType text
  return (t, l.read 1)

/-- Look up a name that is taken to be registered. -/
def mustLookup (l : Library) (name : String) : Except Panic DeclId :=
  match l.registry.lookup? name with
  | some d => .ok d
  | none => .error (.unknownType name)

/-- Read an expression that is taken to denote a type. -/
def mustParse (l : Library) (text : String) : Except Panic (Ty × Library) :=
  (l.readType text).mapError .expression

def update (l : Library) (d : DeclId) (f : Decl → Decl) : Library :=
  { l with hierarchy := l.hierarchy.update d f }

/-- A type of a model and the declaration made for it. -/
abbrev Entry := TypeDecl × DeclId

/-- Register every type of a model, counting from `position`. -/
def declareTypes (l : Library) (position : Nat) :
    List TypeDecl → Except LoadError (Library × List Entry)
  | [] => .ok (l, [])
  | t :: ts => do
    if t.name = "" then .error (.unnamed position)
    let form := if t.isInterface then .iface else .cls
    let (d, h) := l.hierarchy.declare t.name { form := form, pending := t.inCompilation }
    let r ← (l.registry.name d).mapError .registry
    let (l, entries) ← declareTypes ⟨h, r⟩ (position + 1) ts
    return (l, (t, d) :: entries)

/-- Parameters without bounds, as many as are declared. -/
def bareParams (source : Nat) (texts : List String) : Except ExpressionError (List Slot) := do
  let names ← texts.mapM Reader.paramName
  return (names.zipIdx).map fun (name, i) => .parameter ⟨source, i⟩ name []

def countParams (l : Library) : List Entry → Except LoadError Library
  | [] => .ok l
  | (t, d) :: rest => do
    let params ← (bareParams l.hierarchy.sources t.params).mapError fun e =>
      .inType t.name (.expression e)
    ((l.update d fun c => { c with params := params }).read 1).countParams rest

/-- A type of a model, its declaration, and its parameters as a scope. -/
structure Scoped where
  type : TypeDecl
  id : DeclId
  scope : Scope

def readParams (l : Library) : List Entry → Except LoadError (Library × List Scoped)
  | [] => .ok (l, [])
  | (t, d) :: rest => do
    let (params, scope) ← ((l.reader .empty).parseParams t.params).mapError fun e =>
      .inType t.name (.expression e)
    let l := (l.update d fun c => { c with params := params }).read (Reader.paramSources t.params)
    let (l, types) ← l.readParams rest
    return (l, ⟨t, d, scope⟩ :: types)

/-- Read supertypes, each a text of its own. Parameters and arrays are refused. -/
def parseSupertypes (r : Reader) : List String → Except TypeProblem (List Ty)
  | [] => .ok []
  | text :: texts => do
    let t ← (r.parseType text).mapError .expression
    if t.isParam || t.isArray then .error (.notASupertype (r.hierarchy.render t))
    let ts ← parseSupertypes { r with source := r.source + 1 } texts
    return t :: ts

/-- The superclass and interfaces of a type: a class extends at most one class and implements
interfaces, an interface extends interfaces. -/
def checkSupertypes (h : Hierarchy) (isInterface : Bool) (extended implemented : List Ty) :
    Except TypeProblem (Option Ty × List Ty) :=
  if isInterface then
    if !implemented.isEmpty then .error .implementingInterface
    else
      match extended.find? fun t => !h.isInterface t with
      | some t => .error (.interfaceExtendsClass (h.render t))
      | none => .ok (none, extended)
  else
    match extended, implemented.find? fun t => !h.isInterface t with
    | _ :: _ :: _, _ => .error (.severalSuperclasses extended.length)
    | [super], refused =>
      if h.isInterface super then .error (.classExtendsInterface (h.render super))
      else
        match refused with
        | some t => .error (.classImplementsClass (h.render t))
        | none => .ok (some super, implemented)
    | [], some t => .error (.classImplementsClass (h.render t))
    | [], none => .ok (none, implemented)

def supertypesOf (l : Library) (s : Scoped) : Except TypeProblem (Option Ty × List Ty) := do
  let r := l.reader s.scope
  let extended ← parseSupertypes r s.type.extended
  let implemented ←
    parseSupertypes { r with source := r.source + s.type.extended.length } s.type.implemented
  checkSupertypes l.hierarchy s.type.isInterface extended implemented

def readSupertypes (l : Library) : List Scoped → Except LoadError Library
  | [] => .ok l
  | s :: rest => do
    let (super, interfaces) ← (l.supertypesOf s).mapError (.inType s.type.name)
    let l := l.update s.id fun c => { c with super := super, interfaces := interfaces }
    (l.read (s.type.extended.length + s.type.implemented.length)).readSupertypes rest

/-- Visit a declaration and its supertypes depth first. `path` is what the visit came through and
`done` what needs no further visit; meeting the path again is an error. -/
def visit (h : Hierarchy) : Nat → List Ty → List Ty → Ty → Except LoadError (List Ty)
  | 0, _, done, _ => .ok done
  | fuel + 1, path, done, d =>
    if d ∈ done then .ok done
    else if d ∈ path then .error (.circular d.name)
    else do
      let done ← (h.supertypes d).foldlM
        (fun done s => visit h fuel (d :: path) done (h.declaration s)) done
      return d :: done

/-- Refuse a hierarchy where one of the declarations is its own ancestor. -/
def checkAcyclic (h : Hierarchy) (ids : List DeclId) : Except LoadError Unit := do
  let _ ← ids.foldlM (fun done d => visit h (h.budget 0) [] done (.decl d)) []
  return ()

/-- Read types, each a text of its own. -/
def parseTypes (r : Reader) : List String → Except ExpressionError (List Ty)
  | [] => .ok []
  | text :: texts => do
    let t ← r.parseType text
    let ts ← parseTypes { r with source := r.source + 1 } texts
    return t :: ts

/-- How many texts a method takes up. -/
def methodSources (m : MethodDecl) : Nat := Reader.paramSources m.typeParams + m.params.length + 1

def parseSignature (r : Reader) (owner : DeclId) (m : MethodDecl) :
    Except ExpressionError Signature := do
  let (typeParams, scope) ← r.parseParams m.typeParams
  let r := { r with scope := scope, source := r.source + Reader.paramSources m.typeParams }
  let params ← parseTypes r m.params
  let returns ←
    if m.returns = "" || m.returns = "void" then pure none
    else some <$> Reader.parseType { r with source := r.source + m.params.length } m.returns
  return ⟨m.name, some (.decl owner), typeParams, params.map some, returns⟩

def readTypeMethods (l : Library) (s : Scoped) : List MethodDecl → Except LoadError Library
  | [] => .ok l
  | m :: ms => do
    if m.name = "" then .error (.inType s.type.name .unnamedMethod)
    let signature ← (parseSignature (l.reader s.scope) s.id m).mapError fun e =>
      .inType s.type.name (.inMethod m.name e)
    let r ← (l.registry.defineMethod s.id.name signature).mapError .registry
    ({ l with registry := r }.read (methodSources m)).readTypeMethods s ms

def readMethods (l : Library) : List Scoped → Except LoadError Library
  | [] => .ok l
  | s :: rest => do
    let l ← l.readTypeMethods s s.type.methods
    l.readMethods rest

def load (l : Library) (model : ClassModel) : Except LoadError Library := do
  let (l, entries) ← l.declareTypes 1 model.types
  let l ← l.countParams entries
  let (l, types) ← l.readParams entries
  let l ← l.readSupertypes types
  checkAcyclic l.hierarchy (entries.map Prod.snd)
  l.readMethods types

end Library

end NominalGenerics
