import NominalGenerics.ClassModel.Load
import NominalGenerics.Yaml.Decode

/-!
# Class models as documents

A model file is a document with a list of `types`. What a type extends or implements, and the
parameters of a method, may be one expression or a list.
-/

namespace NominalGenerics

open Yaml

def MethodDecl.decode (fields : Fields) : Option MethodDecl := do
  return {
    name := ← fields.text "name"
    typeParams := ← (fields.get "typeParams").texts?
    params := ← (fields.get "params").oneOrMoreTexts?
    returns := ← fields.text "returns" }

def TypeDecl.decode (fields : Fields) : Option TypeDecl := do
  return {
    name := ← fields.text "name"
    isInterface := ← fields.bool "interface"
    params := ← (fields.get "params").texts?
    extended := ← (fields.get "extends").oneOrMoreTexts?
    implemented := ← (fields.get "implements").oneOrMoreTexts?
    inCompilation := ← fields.bool "inCompilation"
    methods := ← fields.list "methods" MethodDecl.decode }

def ClassModel.decode (document : Node) : Option ClassModel := do
  let fields ← document.fields?
  return { types := ← fields.list "types" TypeDecl.decode }

inductive ModelError where
  /-- The file cannot be read, with the reason as the file system gives it. -/
  | unreadable (reason : String)
  | undecodable (file : String)
  | invalid (file : String) (error : LoadError)
deriving DecidableEq, Repr

def ModelError.message : ModelError → String
  | .unreadable reason => "could not read class model: " ++ reason
  | .undecodable file => "could not decode class model " ++ file
  | .invalid file error => s!"invalid class model {file}: " ++ error.message

namespace Library

/-- Load a model file, already read as a document if it is one. -/
def loadDocument (l : Library) (file : String) (document : Option Node) :
    Except ModelError Library :=
  match document >>= ClassModel.decode with
  | none => .error (.undecodable file)
  | some model => (l.load model).mapError (.invalid file)

def loadText (l : Library) (file text : String) : Except ModelError Library :=
  l.loadDocument file (Yaml.read text)

end Library

end NominalGenerics
