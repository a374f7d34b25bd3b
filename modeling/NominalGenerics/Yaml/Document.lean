import NominalGenerics.Yaml.Node
import NominalGenerics.Yaml.Token.Layout

/-!
# From tokens to a document

The first document of a text is read; what follows it does not count, except that the token behind
it has to be there. Where a key, a value or an entry is left out, nothing stands in its place.
-/

namespace NominalGenerics.Yaml

/-- An anchor met so far. The node it marks is missing while it is being read. -/
structure Anchor where
  name : String
  node : Option Node

/-- What is left of the tokens of a document, and what was declared before them. -/
structure Reading where
  tokens : List Token
  /-- The handles of tags and what they stand for. -/
  handles : List (String × String) := []
  /-- In the order they were met. -/
  anchors : Array Anchor := #[]

namespace Document

abbrev Build := StateT Reading Option

def peek : Build Token := do (← get).tokens.head?

def pass : Build Unit := modify fun r => { r with tokens := r.tokens.tail }

def reference (name : String) : Build Node := do
  let anchor ← (← get).anchors.findRev? (·.name == name)
  return .reference name anchor.node

/-- What handles stand for that no document has to declare. -/
def defaultHandles : List (String × String) := [("!", "!"), ("!!", "tag:yaml.org,2002:")]

/-- A tag, in short form where it is one of the format's own. The exclamation mark by itself says
nothing. -/
def tag? (handle suffix : String) : Build (Option String) := do
  let whole ←
    if handle.isEmpty then pure suffix
    else do
      let expansion ← ((← get).handles ++ defaultHandles).lookup handle
      pure (expansion ++ suffix)
  guard (!whole.isEmpty)
  let own := "tag:yaml.org,2002:"
  return if whole == "!" then none
    else if whole.startsWith own then some ("!!" ++ String.ofList (whole.toList.drop own.length))
    else some whole

/-- What may stand in front of a node: an anchor and a tag, in either order. The last part of the
answer tells whether there was any of them. -/
def properties : Build (Option String × Option String × Bool) := do
  match ← peek with
  | .anchor name =>
    pass
    match ← peek with
    | .tag handle suffix =>
      pass
      return (some name, ← tag? handle suffix, true)
    | _ => return (some name, none, true)
  | .tag handle suffix =>
    pass
    match ← peek with
    | .anchor name =>
      pass
      return (some name, ← tag? handle suffix, true)
    | _ => return (none, ← tag? handle suffix, true)
  | _ => return (none, none, false)

/-- Build a node under an anchor, if there is one. -/
def anchored (anchor : Option String) (build : Build Node) : Build Node := do
  match anchor with
  | none => build
  | some name =>
    let number := (← get).anchors.size
    modify fun r => { r with anchors := r.anchors.push ⟨name, none⟩ }
    let node ← build
    modify fun r => { r with anchors := r.anchors.set! number ⟨name, some node⟩ }
    return node

mutual

/-- A node. Blocks may start only where `block` holds, and a sequence that is not indented only
where `indentless` does. -/
def node (block indentless : Bool) : Nat → Build Node
  | 0 => failure
  | fuel + 1 => do
    if let .reference name ← peek then
      pass
      return ← reference name
    let (anchor, tag, isMarked) ← properties
    let token ← peek
    anchored anchor do
      match token with
      | .scalar text plain => pass; return .scalar text plain tag
      | .flowSeqStart => pass; return .seq (← flowSeq true fuel)
      | .flowMapStart => pass; return .map (← flowMap true fuel)
      | _ =>
        if indentless && token == .blockEntry then return .seq (← blockSeq true fuel)
        else if block && token == .blockSeqStart then
          pass
          return .seq (← blockSeq false fuel)
        else if block && token == .blockMapStart then
          pass
          return .map (← blockMap fuel)
        else if isMarked then return .scalar "" true tag
        else failure

/-- A node, or nothing if one of the given tokens comes next. -/
def nodeUnless (block indentless : Bool) (ends : List Token) : Nat → Build Node
  | 0 => failure
  | fuel + 1 => do
    if ends.contains (← peek) then return .null
    node block indentless fuel

/-- The entries of a sequence of a block. One that is not indented ends before the next key. -/
def blockSeq (indentless : Bool) : Nat → Build (List Node)
  | 0 => failure
  | fuel + 1 => do
    match ← peek with
    | .blockEntry =>
      pass
      let keys := if indentless then [Token.key, .value] else []
      let item ← nodeUnless true false (.blockEntry :: .blockEnd :: keys) fuel
      return item :: (← blockSeq indentless fuel)
    | token =>
      if indentless then return []
      guard (token == .blockEnd)
      pass
      return []

def blockMap : Nat → Build (List (Node × Node))
  | 0 => failure
  | fuel + 1 => do
    match ← peek with
    | .key =>
      pass
      let ends := [Token.key, .value, .blockEnd]
      let key ← nodeUnless true true ends fuel
      let value ←
        if (← peek) == .value then
          pass
          nodeUnless true true ends fuel
        else pure .null
      return (key, value) :: (← blockMap fuel)
    | token =>
      guard (token == .blockEnd)
      pass
      return []

/-- The entries of a sequence in brackets, of which the first has no comma before it. An entry may
be a key with a value, which makes a mapping. -/
def flowSeq (isFirst : Bool) : Nat → Build (List Node)
  | 0 => failure
  | fuel + 1 => do
    if (← peek) == .flowSeqEnd then
      pass
      return []
    unless isFirst do
      guard ((← peek) == .flowEntry)
      pass
    match ← peek with
    | .flowSeqEnd => pass; return []
    | .key =>
      pass
      let entry ← flowPair fuel
      return .map [entry] :: (← flowSeq false fuel)
    | _ =>
      let item ← node false false fuel
      return item :: (← flowSeq false fuel)

/-- A key with its value in a sequence in brackets. A token that comes in place of the key is passed
with it. -/
def flowPair : Nat → Build (Node × Node)
  | 0 => failure
  | fuel + 1 => do
    let key ←
      if [Token.value, .flowEntry, .flowSeqEnd].contains (← peek) then
        pass
        pure .null
      else node false false fuel
    let value ←
      if (← peek) == .value then
        pass
        nodeUnless false false [.flowEntry, .flowSeqEnd] fuel
      else pure .null
    discard peek
    return (key, value)

/-- The entries of a mapping in brackets, of which the first has no comma before it. A node that is
not marked as a key is one without a value. -/
def flowMap (isFirst : Bool) : Nat → Build (List (Node × Node))
  | 0 => failure
  | fuel + 1 => do
    if (← peek) == .flowMapEnd then
      pass
      return []
    unless isFirst do
      guard ((← peek) == .flowEntry)
      pass
    match ← peek with
    | .flowMapEnd => pass; return []
    | .key =>
      pass
      let key ← nodeUnless false false [.value, .flowEntry, .flowMapEnd] fuel
      let value ←
        if (← peek) == .value then
          pass
          nodeUnless false false [.flowEntry, .flowMapEnd] fuel
        else pure .null
      return (key, value) :: (← flowMap false fuel)
    | _ =>
      let key ← node false false fuel
      discard peek
      return (key, .null) :: (← flowMap false fuel)

end

/-- The directives before a document. The version may be given once and has to be 1.1, and a handle
may be declared once. -/
def directives (hasVersion : Bool) : Nat → Build Unit
  | 0 => failure
  | fuel + 1 => do
    match ← peek with
    | .version major minor =>
      guard (!hasVersion && major == 1 && minor == 1)
      pass
      directives true fuel
    | .tagHandle handle expansion =>
      guard !((← get).handles.any (·.1 == handle))
      pass
      modify fun r => { r with handles := (handle, expansion) :: r.handles }
      directives hasVersion fuel
    | _ => return ()

def first (fuel : Nat) : Build Node := do
  let token ← peek
  if token == .streamEnd then return .null
  let isExplicit := token.isOutside && token != .documentEnd
  if isExplicit then
    directives false fuel
    guard ((← peek) == .documentStart)
    pass
  let root ←
    if isExplicit && (← peek).isOutside then pure .null
    else node true false fuel
  discard peek
  return root

end Document

/-- The first document of a text. A text without one means nothing. -/
def read (text : String) : Option Node := do
  let tokens := Token.ofSource (← Source.ofString? text)
  let (document, _) ← (Document.first (3 * tokens.length + 3)).run { tokens }
  return document

end NominalGenerics.Yaml
