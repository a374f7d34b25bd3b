import NominalGenerics.Text.Integer
import NominalGenerics.Yaml.Document

/-!
# Decoding documents

Mappings are decoded field by field. Unknown keys are ignored, a missing field or one that means
nothing has its default, and items of a list that mean nothing are dropped. The key `<<`, written
plain, brings the fields of another mapping, or of several, that the mapping itself does not have. A
key that occurs twice, or a node of the wrong kind, makes the whole document undecodable.
-/

namespace NominalGenerics.Yaml

abbrev Fields := List (String × Node)

/-! ## Scalars -/

namespace Scalar

def isNull (text : String) : Bool := ["", "~", "null", "Null", "NULL"].contains text

/-- The truth value of a plain text. -/
def bool? (text : String) : Option Bool :=
  if ["true", "True", "TRUE"].contains text then some true
  else if ["false", "False", "FALSE"].contains text then some false
  else none

/-- The truth value of a word that older versions of the format know. -/
def oldBool? (text : String) : Option Bool :=
  if ["y", "Y", "yes", "on"].contains text then some true
  else if ["n", "N", "no", "off"].contains text then some false
  else none

def isInteger (text : String) : Bool :=
  match Text.integer (String.ofList (text.toList.filter (· != '_'))) with
  | .ok _ => true
  | .error _ => false

/-- Digits with a point or an exponent in it. -/
def isDecimal (text : String) : Bool :=
  let unsigned (cs : List Char) : List Char :=
    match cs with
    | '+' :: rest => rest
    | '-' :: rest => rest
    | rest => rest
  let isPlain (cs : List Char) : Bool :=
    let whole := cs.takeWhile Char.isDigit
    match cs.dropWhile Char.isDigit with
    | [] => !whole.isEmpty
    | '.' :: fraction => (!whole.isEmpty || !fraction.isEmpty) && fraction.all Char.isDigit
    | _ => false
  let isExponent (c : Char) : Bool := c == 'e' || c == 'E'
  let cs := unsigned text.toList
  match cs.dropWhile (!isExponent ·) with
  | [] => isPlain cs
  | _ :: exponent =>
    let digits := unsigned exponent
    isPlain (cs.takeWhile (!isExponent ·)) && !digits.isEmpty && digits.all Char.isDigit

/-- Whether a text is what a tag says. -/
def fits (tag text : String) : Bool :=
  match tag with
  | "!!str" => true
  | "!!bool" => (bool? text).isSome
  | "!!int" => isInteger text
  | "!!float" => isInteger text || isDecimal text
  | _ => false

end Scalar

namespace Node

def isNull (n : Node) : Bool :=
  match n.target? with
  | some (.scalar text plain none) => plain && Scalar.isNull text
  | some (.scalar text _ (some tag)) => tag == "!!null" && Scalar.isNull text
  | _ => false

def text? (n : Node) : Option String :=
  match n.target? with
  | some (.scalar text _ none) => some text
  | some (.scalar text _ (some tag)) => if Scalar.fits tag text then some text else none
  | _ => none

/-- The truth value of a scalar. The words of older versions count in any style, `true` and `false`
only plain. -/
def bool? (n : Node) : Option Bool :=
  match n.target? with
  | some (.scalar text plain none) =>
    (if plain then Scalar.bool? text else none) <|> Scalar.oldBool? text
  | some (.scalar text _ (some "!!bool")) => Scalar.bool? text
  | some (.scalar text _ (some "!!str")) => Scalar.oldBool? text
  | _ => none

/-! ## Mappings -/

def isSameKey : Node → Node → Bool
  | .scalar a .., .scalar b .. => a == b
  | .reference a _, .reference b _ => a == b
  | .seq _, .seq _ => true
  | .map _, .map _ => true
  | _, _ => false

def hasRepeatedKey : List (Node × Node) → Bool
  | [] => false
  | (key, _) :: rest => rest.any (fun e => e.1.isSameKey key) || hasRepeatedKey rest

/-- Whether a key brings the fields of other mappings. -/
def isMerge : Node → Bool
  | .scalar "<<" plain none => plain
  | .scalar "<<" _ (some "!!merge") => true
  | _ => false

/-- The fields that a mapping itself has. Their keys have to be scalars; those that mean nothing are
left out. -/
def ownFields : List (Node × Node) → Option Fields
  | [] => some []
  | (key, value) :: rest => do
    if key.isMerge || key.isNull then ownFields rest
    else return (← key.text?, value) :: (← ownFields rest)

/-- Fields with those of `more` that are not among them. -/
def union (fields more : Fields) : Fields :=
  fields ++ more.filter fun f => !fields.any (·.1 == f.1)

mutual

/-- The fields of a mapping, with those it takes from others. -/
def mapFields : Node → Option Fields
  | .map entries => do
    guard !(hasRepeatedKey entries)
    return union (← ownFields entries) (← mergedFields entries)
  | .reference _ (some n) => n.mapFields
  | _ => none

def mergedFields : List (Node × Node) → Option Fields
  | [] => some []
  | (key, value) :: rest =>
    if key.isMerge then
      match value with
      | .seq items => mapsFields items
      | value => value.mapFields
    else mergedFields rest

/-- The fields of several mappings, of which the first that has one counts. -/
def mapsFields : List Node → Option Fields
  | [] => some []
  | n :: rest => do return union (← n.mapFields) (← mapsFields rest)

end

/-- The fields of a mapping; nothing is a mapping without fields. -/
def fields? (n : Node) : Option Fields := if n.isNull then some [] else n.mapFields

/-! ## Sequences -/

/-- The items of a sequence that mean something; nothing is an empty sequence. -/
def items? (n : Node) : Option (List Node) :=
  match n.target? with
  | some (.seq items) => some (items.filter fun i => !i.isNull)
  | _ => if n.isNull then some [] else none

def texts? (n : Node) : Option (List String) := do (← n.items?).mapM Node.text?

/-- The texts of a sequence of scalars, or of one scalar by itself. Whatever its tag, it counts as
written, unless the tag says that it means nothing and it does not. -/
def oneOrMoreTexts? (n : Node) : Option (List String) :=
  match n.target? with
  | some (.scalar text _ tag) =>
    if n.isNull then some [] else if tag == some "!!null" then none else some [text]
  | _ => n.texts?

end Node

/-! ## Fields -/

namespace Fields

/-- The value of a field; a missing field means nothing. -/
def get (fields : Fields) (name : String) : Node := (fields.lookup name).getD .null

def text (fields : Fields) (name : String) : Option String :=
  let n := fields.get name
  if n.isNull then some "" else n.text?

def bool (fields : Fields) (name : String) : Option Bool :=
  let n := fields.get name
  if n.isNull then some false else n.bool?

def optionalText (fields : Fields) (name : String) : Option (Option String) :=
  let n := fields.get name
  if n.isNull then some none else n.text?.map some

def list {α : Type} (fields : Fields) (name : String) (decode : Fields → Option α) :
    Option (List α) := do
  (← (fields.get name).items?).mapM fun item => do decode (← item.fields?)

def optional {α : Type} (fields : Fields) (name : String) (decode : Fields → Option α) :
    Option (Option α) := do
  let n := fields.get name
  if n.isNull then return none
  let value ← decode (← n.fields?)
  return some value

end Fields

end NominalGenerics.Yaml
