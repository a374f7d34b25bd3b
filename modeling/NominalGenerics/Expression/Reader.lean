import NominalGenerics.Expression.Token
import NominalGenerics.Registry.Basic
import NominalGenerics.Text.Blank

/-!
# Reading type expressions

The grammar, over tokens:

    type  = name [ "<" [ arg { "," arg } [ "," ] ] ">" ] { "[" "]" }
    arg   = "?" [ "extends" bounds | "super" type ] | type
    param = word [ "extends" bounds ]
    bounds = type { "&" type }

where a name is words joined by points. A name in scope is a type parameter and takes no arguments;
any other name has to be registered, and a non-empty argument list has to have the declared length.
-/

namespace NominalGenerics

inductive ReadProblem where
  | unexpected (found : Token.Form)
  | expected (c : Char) (found : Token.Form)
  | noTypeName (found : Token.Form)
  | noWordAfterPoint (found : Token.Form)
  | noParamName (found : Token.Form)
  | appliedParam (name : String)
  | unknownType (name : String)
  | argumentCount (name : String) (declared found : Nat)
deriving DecidableEq, Repr

def ReadProblem.message : ReadProblem → String
  | .unexpected found => "unexpected " ++ found.describe
  | .expected c found => "expected '" ++ c.toString ++ "', found " ++ found.describe
  | .noTypeName found => "expected a type name, found " ++ found.describe
  | .noWordAfterPoint found => "expected an identifier after '.', found " ++ found.describe
  | .noParamName found => "expected a type parameter name, found " ++ found.describe
  | .appliedParam name => s!"type parameter {name} cannot have type arguments"
  | .unknownType name => s!"unknown type {name}"
  | .argumentCount name declared found =>
    s!"{name} expects {declared} type arguments, found {found}"

/-- A problem and the column of the token it was noticed at. -/
structure ReadError where
  column : Nat
  problem : ReadProblem
deriving DecidableEq, Repr

def ReadError.message (e : ReadError) : String :=
  "column " ++ toString e.column ++ ": " ++ e.problem.message

abbrev Scope := NameMap Ty

structure Reader where
  hierarchy : Hierarchy
  registry : Registry
  scope : Scope
  /-- The number of the text being read. -/
  source : Nat

namespace Reader

def fail {α : Type} (tokens : List Token) (problem : Token.Form → ReadProblem) :
    Except ReadError α :=
  match tokens with
  | t :: _ => .error ⟨t.column, problem t.form⟩
  | [] => .error ⟨0, problem .stop⟩

def atMark (c : Char) : List Token → Bool
  | ⟨.mark m, _, _⟩ :: _ => m == c
  | _ => false

def expect (c : Char) : List Token → Except ReadError (List Token)
  | ⟨.mark m, o, k⟩ :: rest =>
    if m = c then .ok rest else fail (⟨.mark m, o, k⟩ :: rest) (.expected c)
  | tokens => fail tokens (.expected c)

/-- Read the rest of a name whose first part is `name`. -/
def readNameRest (name : String) : List Token → Except ReadError (String × List Token)
  | ⟨.mark '.', _, _⟩ :: ⟨.word w, _, _⟩ :: rest => readNameRest (name ++ "." ++ w) rest
  | ⟨.mark '.', _, _⟩ :: rest => fail rest .noWordAfterPoint
  | tokens => .ok (name, tokens)

def readArrays (source : Nat) (t : Ty) : List Token → Except ReadError (Ty × List Token)
  | ⟨.mark '[', offset, _⟩ :: ⟨.mark ']', _, _⟩ :: rest =>
    readArrays source (.array ⟨source, offset⟩ t) rest
  | ⟨.mark '[', _, _⟩ :: rest => fail rest (.expected ']')
  | tokens => .ok (t, tokens)

mutual

/-- Read a type, nesting at most `fuel` rules. -/
def readType (r : Reader) : Nat → List Token → Except ReadError (Ty × List Token)
  | 0, tokens => fail tokens .unexpected
  | fuel + 1, ⟨.word w, offset, _⟩ :: rest => do
    let (name, rest) ← readNameRest w rest
    match r.scope.get? name with
    | some param =>
      if atMark '<' rest then fail rest fun _ => .appliedParam name
      else readArrays r.source param rest
    | none =>
      match r.registry.lookup? name with
      | none => fail rest fun _ => .unknownType name
      | some d =>
        let (t, rest) ← r.readUse fuel ⟨r.source, offset⟩ d rest
        readArrays r.source t rest
  | _ + 1, tokens => fail tokens .noTypeName

/-- Read the optional argument list of a use of `d`. -/
def readUse (r : Reader) : Nat → Site → DeclId → List Token → Except ReadError (Ty × List Token)
  | fuel + 1, site, d, ⟨.mark '<', _, _⟩ :: rest => do
    let (args, rest) ← r.readArgs fuel rest
    let rest ← expect '>' rest
    let declared := (r.hierarchy.params d).length
    if !args.isEmpty && args.length != declared then
      fail rest fun _ => .argumentCount d.name declared args.length
    else return (.app site d args, rest)
  | _, site, d, tokens =>
    .ok (if (r.hierarchy.params d).isEmpty then .decl d else .bare site d, tokens)

def readArgs (r : Reader) : Nat → List Token → Except ReadError (List Slot × List Token)
  | 0, tokens => fail tokens .unexpected
  | fuel + 1, tokens =>
    if atMark '>' tokens then .ok ([], tokens)
    else do
      let (arg, rest) ← r.readArg fuel tokens
      match rest with
      | ⟨.mark ',', _, _⟩ :: rest =>
        let (args, rest) ← r.readArgs fuel rest
        return (arg :: args, rest)
      | _ => return ([arg], rest)

def readArg (r : Reader) : Nat → List Token → Except ReadError (Slot × List Token)
  | 0, tokens => fail tokens .unexpected
  | fuel + 1, ⟨.mark '?', offset, _⟩ :: ⟨.word "extends", _, _⟩ :: rest => do
    let (bounds, rest) ← r.readBounds fuel rest
    return (.extending ⟨r.source, offset⟩ bounds, rest)
  | fuel + 1, ⟨.mark '?', offset, _⟩ :: ⟨.word "super", _, _⟩ :: rest => do
    let (lower, rest) ← r.readType fuel rest
    return (.above ⟨r.source, offset⟩ (some lower), rest)
  | _ + 1, ⟨.mark '?', offset, _⟩ :: rest => .ok (.anything ⟨r.source, offset⟩, rest)
  | fuel + 1, tokens => do
    let offset := (tokens.head?.map Token.offset).getD 0
    let (t, rest) ← r.readType fuel tokens
    return (.ofTy ⟨r.source, offset⟩ t, rest)

def readBounds (r : Reader) : Nat → List Token → Except ReadError (List Ty × List Token)
  | 0, tokens => fail tokens .unexpected
  | fuel + 1, tokens => do
    let (t, rest) ← r.readType fuel tokens
    match rest with
    | ⟨.mark '&', _, _⟩ :: rest =>
      let (ts, rest) ← r.readBounds fuel rest
      return (t :: ts, rest)
    | _ => return ([t], rest)

end

def readParam (r : Reader) (fuel : Nat) : List Token → Except ReadError (Slot × List Token)
  | ⟨.word name, offset, _⟩ :: ⟨.word "extends", _, _⟩ :: rest => do
    let (bounds, rest) ← r.readBounds fuel rest
    return (.parameter ⟨r.source, offset⟩ name bounds, rest)
  | ⟨.word name, offset, _⟩ :: rest => .ok (.parameter ⟨r.source, offset⟩ name [], rest)
  | tokens => fail tokens .noParamName

/-- Read a whole text by a rule. Every token nests at most three rules. -/
def readWhole {α : Type} (rule : Nat → List Token → Except ReadError (α × List Token))
    (text : String) : Except ReadError α := do
  let tokens := Token.scan text.toList
  let (a, rest) ← rule (3 * tokens.length) tokens
  match rest with
  | ⟨.stop, _, _⟩ :: _ => return a
  | _ => fail rest .unexpected

end Reader

inductive Subject where
  | type
  | argument
  | param
deriving DecidableEq, Repr

inductive ExpressionError where
  | malformed (subject : Subject) (text : String) (error : ReadError)
  /-- A parameter declaration without a word. -/
  | emptyParam
deriving DecidableEq, Repr

def ExpressionError.message : ExpressionError → String
  | .malformed subject text error =>
    let noun :=
      match subject with
      | .type => "type"
      | .argument => "generic argument"
      | .param => "type parameter"
    "could not parse " ++ noun ++ " '" ++ text ++ "': " ++ error.message
  | .emptyParam => "empty type parameter declaration"

namespace Reader

def parseType (r : Reader) (text : String) : Except ExpressionError Ty :=
  (readWhole r.readType text).mapError (.malformed .type text)

def parseSlot (r : Reader) (text : String) : Except ExpressionError Slot :=
  (readWhole r.readArg text).mapError (.malformed .argument text)

def parseParam (r : Reader) (text : String) : Except ExpressionError Slot :=
  (readWhole r.readParam text).mapError (.malformed .param text)

/-- The name a parameter declaration introduces: its first word. -/
def paramName (text : String) : Except ExpressionError String :=
  match Text.firstWord? text.toList with
  | some word => .ok (String.ofList word)
  | none => .error .emptyParam

/-- The parameters named by declarations, without their bounds, on top of a scope. -/
def bareScope (source : Nat) : List String → Nat → Scope → Except ExpressionError Scope
  | [], _, scope => .ok scope
  | text :: texts, i, scope => do
    let name ← paramName text
    bareScope source texts (i + 1) (scope.insert name (.param ⟨source, i⟩ name []))

/-- Read parameter declarations one after the other, each a text of its own. -/
def parseEach (r : Reader) : List String → Scope → Except ExpressionError (List Slot × Scope)
  | [], declared => .ok ([], declared)
  | text :: texts, declared => do
    let param ← r.parseParam text
    let next := { r with source := r.source + 1 }
    let (params, declared) ← next.parseEach texts (declared.insert param.name param.ty)
    return (param :: params, declared)

/-- How many texts reading parameter declarations takes up. -/
def paramSources (texts : List String) : Nat := texts.length + 1

/-- Read parameter declarations. Bounds may refer to any of the parameters being declared and to the
scope around them; the result is the parameters and the scope with them in it. -/
def parseParams (r : Reader) (texts : List String) :
    Except ExpressionError (List Slot × Scope) := do
  let bare ← bareScope r.source texts 0 r.scope
  let inner := { r with scope := bare, source := r.source + 1 }
  inner.parseEach texts r.scope

end Reader

def Hierarchy.scopeOf (h : Hierarchy) (d : DeclId) : Scope :=
  .ofList ((h.params d).map fun p => (p.name, p.ty))

end NominalGenerics
