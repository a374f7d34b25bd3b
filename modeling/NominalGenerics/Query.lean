import NominalGenerics.ClassModel.Decode
import NominalGenerics.Engine.Basic

/-!
# Queries

A query names one operation on expressions and, optionally, the text its answer should have. A query
file lists the models to load and the queries to answer.
-/

namespace NominalGenerics

namespace Query

inductive Operation where
  | compatible (slot candidate : String) (params : List String)
  | parameterize (hint target : String)
  | find (decl receiver : String)
  | bindings (decl receiver : String) (exact : Bool)
  | method (receiver name : String)
deriving DecidableEq, Repr

inductive Error where
  | expression (error : ExpressionError)
  | unknownType (name : String)
  | noMethod (receiver name : String)
  | noOperation
  | failed (failure : Failure)

def Error.message (h : Hierarchy) : Error → String
  | .expression error => error.message
  | .unknownType name => s!"unknown type {name}"
  | .noMethod receiver name => receiver ++ " has no method " ++ name
  | .noOperation => "query names no operation"
  | .failed (.violation v) => v.message h
  | .failed .missingType => "a type is missing"
  | .failed .exhausted => "the comparison does not come to an end"

end Query

structure Query where
  /-- Missing in an empty query. -/
  operation : Option Query.Operation
  expect : Option String
deriving DecidableEq, Repr

structure QueryFile where
  model : List String
  queries : List Query
deriving DecidableEq, Repr

namespace Query

/-! ## Decoding -/

open Yaml

/-- The first operation that a query names, in a fixed order. -/
def decode (fields : Fields) : Option Query := do
  let compatible ← fields.optional "compatible" fun f => do
    return Operation.compatible (← f.text "slot") (← f.text "candidate") (← (f.get "params").texts?)
  let parameterize ← fields.optional "parameterize" fun f => do
    return Operation.parameterize (← f.text "hint") (← f.text "target")
  let find ← fields.optional "find" fun f => do
    return Operation.find (← f.text "decl") (← f.text "receiver")
  let bindings ← fields.optional "declmap" fun f => do
    return Operation.bindings (← f.text "decl") (← f.text "receiver") (← f.bool "exact")
  let method ← fields.optional "method" fun f => do
    return Operation.method (← f.text "receiver") (← f.text "name")
  return {
    operation := compatible <|> parameterize <|> find <|> bindings <|> method
    expect := ← fields.optionalText "expect" }

end Query

def QueryFile.decode (document : Yaml.Node) : Option QueryFile := do
  let fields ← document.fields?
  return {
    model := ← (fields.get "model").texts?
    queries := ← fields.list "queries" Query.decode }

namespace Query

/-! ## Answers -/

/-- The answer to a query: the query in words, its output, and what is wrong with it. A failed query
may have output too. -/
structure Answer where
  query : String
  output : String
  error : Option Error
  /-- The output is not what was expected. -/
  mismatch : Bool

def Answer.failed (a : Answer) : Bool := a.error.isSome || a.mismatch

/-- An answer on its way, with the events it left and the library and engine after it. -/
structure Evaluation where
  query : String
  output : String
  error : Option Error
  events : List Event
  library : Library
  engine : Engine

def readType (l : Library) (text : String) : Except Error (Ty × Library) :=
  (l.readType text).mapError .expression

def readPair (l : Library) (decl receiver : String) : Except Error (Ty × Ty × Library) := do
  match l.registry.lookup? decl with
  | none => .error (.unknownType decl)
  | some d =>
    let (t, l) ← readType l receiver
    return (.decl d, t, l)

/-- Read a slot and a candidate that may mention declared parameters. -/
def readCandidate (l : Library) (slot candidate : String) (params : List String) :
    Except Error (Slot × Ty × Library) := do
  let (_, scope) ← ((l.reader .empty).parseParams params).mapError .expression
  let l := l.read (Reader.paramSources params)
  let s ← ((l.reader scope).parseSlot slot).mapError .expression
  let l := l.read 1
  let t ← ((l.reader scope).parseType candidate).mapError .expression
  return (s, t, l.read 1)

/-- A query refused before the engine was asked. -/
def refused (l : Library) (e : Engine) (query : String) (error : Error) : Evaluation :=
  ⟨query, "", some error, [], l, e⟩

/-- The evaluation of an engine's answer; a failure has the output `otherwise`. -/
def answered {α : Type} (l : Library) (query : String) (answer : Traced α × Engine)
    (otherwise : String) (output : α → String) : Evaluation :=
  match answer.1.result with
  | .ok a => ⟨query, output a, none, answer.1.events, l, answer.2⟩
  | .error f => ⟨query, otherwise, some (.failed f), answer.1.events, l, answer.2⟩

def evaluate (l : Library) (e : Engine) : Operation → Evaluation
  | .compatible slot candidate params =>
    let query := "compatible " ++ slot ++ " <- " ++ candidate
    match readCandidate l slot candidate params with
    | .error error => refused l e query error
    | .ok (s, t, l) =>
      answered l query (e.isCompatible l.hierarchy s t, e) "false" fun b =>
        if b then "true" else "false"
  | .parameterize hint target =>
    let query := "parameterize " ++ hint ++ " as " ++ target
    let operands := do
      let (hint, l) ← readType l hint
      let (target, l) ← readType l target
      return (hint, target, l)
    match operands with
    | .error error => refused l e query error
    | .ok (hint, target, l) =>
      answered l query (e.parameterize l.hierarchy hint target, e) "" l.hierarchy.render
  | .find decl receiver =>
    let query := "find " ++ decl ++ " in " ++ receiver
    match readPair l decl receiver with
    | .error error => refused l e query error
    | .ok (d, t, l) =>
      answered l query (e.find l.hierarchy d t) "none" fun found =>
        match found with
        | some use => l.hierarchy.render use
        | none => "none"
  | .bindings decl receiver exact =>
    let query := "declmap " ++ decl ++ " in " ++ receiver
    match readPair l decl receiver with
    | .error error => refused l e query error
    | .ok (d, t, l) =>
      if exact then
        answered l (query ++ " (exact)") (e.exactBindings l.hierarchy d t) "" fun b =>
          b.toSpec.render l.hierarchy
      else
        answered l query (e.bindings l.hierarchy d t) "" fun b => b.toSpec.render l.hierarchy
  | .method receiver name =>
    let query := "method " ++ receiver ++ "." ++ name
    match readType l receiver with
    | .error error => refused l e query error
    | .ok (t, l) =>
      let h := l.hierarchy
      match l.registry.findMethod? h t name with
      | none => refused l e query (.noMethod (h.render t) name)
      | some m =>
        answered l query (e.resolve h t (m.owner.getD .object) m) "" (·.render h)

def run (l : Library) (e : Engine) (q : Query) : Evaluation :=
  match q.operation with
  | some operation => evaluate l e operation
  | none => refused l e "empty query" .noOperation

def answer (q : Query) (v : Evaluation) : Answer :=
  ⟨v.query, v.output, v.error, v.error.isNone && q.expect.any (· != v.output)⟩

def runAll (l : Library) (e : Engine) : List Query → List Answer × List Event × Library × Engine
  | [] => ([], [], l, e)
  | q :: qs =>
    let v := run l e q
    let (answers, events, rest) := runAll v.library v.engine qs
    (answer q v :: answers, v.events ++ events, rest)

inductive Interruption where
  | cancelled
deriving DecidableEq, Repr

def Interruption.message : Interruption → String
  | .cancelled => "context canceled"

/-- Answer queries in order, if there is any and the request was not cancelled before. -/
def answerAll (l : Library) (e : Engine) (cancelled : Bool) (queries : List Query) :
    Except Interruption (List Answer × List Event × Library × Engine) :=
  if cancelled && !queries.isEmpty then .error .cancelled else .ok (runAll l e queries)

end Query

end NominalGenerics
