import NominalGenerics.Yaml.Token.Property

/-!
# From a text to tokens

Blocks are opened and closed by indentation. A key is only known to be one when the colon behind it
is met, so tokens wait until it is clear whether a key starts with them. A key stands on one line
and the colon follows within 1024 characters. A token is handed out when two more are known behind
it; the tokens of a text end where that fails.
-/

namespace NominalGenerics.Yaml

/-- A place where a key may have started. -/
structure PossibleKey where
  /-- How many tokens come before it. -/
  number : Nat
  /-- At the column of the block nothing but a key can start. -/
  isRequired : Bool
  index : Nat
  line : Nat
  column : Nat
deriving DecidableEq, Repr

namespace PossibleKey

/-- Whether a colon at the start of a source comes too late for a key. -/
def isLate (k : PossibleKey) (s : Source) : Bool :=
  k.line < s.line || k.index + 1024 < s.index

end PossibleKey

/-- What is left of a text, and what was met before it. -/
structure Layout where
  source : Source
  /-- The columns of the open blocks, innermost first. -/
  columns : List Nat := []
  /-- Where a key may have started: in the innermost open bracket, those around it, and outside. -/
  keys : List (Option PossibleKey) := [none]
  /-- Whether a key may start here. -/
  keyAllowed : Bool := true
  /-- The tokens that wait. -/
  waiting : List Token := []
  /-- How many tokens were handed out. -/
  passed : Nat := 0

namespace Layout

/-- The deepest nesting of brackets, and of blocks. -/
def maxDepth : Nat := 10000

def inFlow (l : Layout) : Bool :=
  match l.keys with
  | _ :: _ :: _ => true
  | _ => false

def add (l : Layout) (t : Token) : Layout := { l with waiting := l.waiting ++ [t] }

/-- Put a token in front of the one with a number. -/
def insert (l : Layout) (number : Nat) (t : Token) : Layout :=
  { l with waiting := l.waiting.insertIdx (number - l.passed) t }

/-- Close the blocks whose columns have a property. -/
def closeBlocks (l : Layout) (isClosed : Nat → Bool) : Layout :=
  if l.inFlow then l
  else
    { l with
      columns := l.columns.dropWhile isClosed
      waiting := l.waiting ++ (l.columns.takeWhile isClosed).map fun _ => .blockEnd }

/-- Open a block at a column, unless one is open there. Its token comes before the one with the
given number, or last. -/
def openBlock (l : Layout) (column : Nat) (number : Option Nat) (t : Token) : Option Layout :=
  if l.inFlow || !l.columns.head?.all (· < column) then some l
  else if l.columns.length == maxDepth then none
  else
    let l := { l with columns := column :: l.columns }
    some (match number with
      | some n => l.insert n t
      | none => l.add t)

/-- Give up the key that may have started in the innermost bracket. -/
def dropKey (l : Layout) : Option Layout :=
  match l.keys with
  | some key :: keys => if key.isRequired then none else some { l with keys := none :: keys }
  | _ => some l

def saveKey (l : Layout) : Option Layout :=
  if !l.keyAllowed then some l
  else do
    let l ← l.dropKey
    let s := l.source
    let key : PossibleKey :=
      { number := l.passed + l.waiting.length
        isRequired := !l.inFlow && l.columns.head? == some s.column
        index := s.index
        line := s.line
        column := s.column }
    return { l with keys := some key :: l.keys.tail }

/-! ## Between tokens -/

/-- The index of a comment that goes on after the break that ends one: further comments may follow
on lines of their own. -/
def nextComment? (s : Source) : Option Nat :=
  if s.char != '\n' then none
  else
    let isSkipped (p : Placed) := isBlank p.char || p.char == '\n'
    let rest : Source := s.tail.dropWhile isSkipped
    if rest.char == '#' && (s.tail.takeWhile isSkipped).length < 511 then some rest.index else none

/-- Skip what stands before the next token; inside a comment, the index is where it starts. Tabs
count as blanks where no key may start. The answer also tells whether a key may start. -/
def skip (inFlow : Bool) : Bool → Option Nat → Source → Bool × Source
  | allowed, _, [] => (allowed, [])
  | allowed, none, p :: rest =>
    if p.char == ' ' || (p.char == '\t' && (inFlow || !allowed)) then skip inFlow allowed none rest
    else if p.char == '#' then skip inFlow allowed (some p.index) rest
    else if isBreak p.char then skip inFlow (allowed || !inFlow) none rest
    else (allowed, p :: rest)
  | allowed, some start, p :: rest =>
    if p.index < start || !isBreakOrEnd p.char then skip inFlow allowed (some start) rest
    else
      match nextComment? (p :: rest) with
      | some start => skip inFlow allowed (some start) rest
      | none =>
        if isBreak p.char then skip inFlow (allowed || !inFlow) none rest else (allowed, p :: rest)

/-- Skip a comment on the line of the last token. -/
def skipLineComment (s : Source) : Source :=
  let blanks := s.takeWhile fun p => isBlank p.char
  let rest := s.dropBlanks
  if !s.isLeading && blanks.length < 512 && rest.char == '#' then rest.dropLine else s

/-! ## Tokens -/

def drop (l : Layout) (n : Nat) : Layout := { l with source := l.source.drop n }

/-- The end of the text, which counts as a line of its own. -/
def addStreamEnd (l : Layout) : Option Layout := do
  let l := l.closeBlocks fun _ => true
  let l ← l.dropKey
  let s := l.source
  let line := if s.column = 0 then s.line else s.line + 1
  let source := [⟨endMark, s.index, line, 0, false⟩]
  return { l with source, keyAllowed := false }.add .streamEnd

def addDirective (l : Layout) : Option Layout := do
  let l ← (l.closeBlocks fun _ => true).dropKey
  let (token, source) ← Property.directive (l.source.drop 1)
  return { l with source, keyAllowed := false }.add token

def addMarker (l : Layout) : Option Layout := do
  let l ← (l.closeBlocks fun _ => true).dropKey
  let token := if l.source.char == '-' then .documentStart else .documentEnd
  return ({ l with keyAllowed := false }.add token).drop 3

def openFlow (l : Layout) (t : Token) : Option Layout := do
  let l ← l.saveKey
  guard (l.keys.length ≤ maxDepth)
  return ({ l with keys := none :: l.keys, keyAllowed := true }.add t).drop 1

def closeFlow (l : Layout) (t : Token) : Option Layout := do
  let l ← l.dropKey
  let keys := if l.inFlow then l.keys.tail else l.keys
  return ({ l with keys, keyAllowed := false }.add t).drop 1

def addFlowEntry (l : Layout) : Option Layout := do
  let l ← l.dropKey
  return ({ l with keyAllowed := true }.add .flowEntry).drop 1

/-- The start of a sequence entry or of an explicit key, at a place where a key may start. -/
def addIndicator (l : Layout) (block t : Token) (allowed : Bool) : Option Layout := do
  guard (l.inFlow || l.keyAllowed)
  let l ← l.openBlock l.source.column none block
  let l ← l.dropKey
  return ({ l with keyAllowed := allowed }.add t).drop 1

/-- A colon. It makes a key of what may have been one; else it stands where a key may start. -/
def addValue (l : Layout) : Option Layout := do
  let l ←
    match l.keys with
    | some key :: keys =>
      if !key.isLate l.source then do
        let l := { l with keys := none :: keys, keyAllowed := false }
        (l.insert key.number .key).openBlock key.column (some key.number) .blockMapStart
      else if key.isRequired then none
      else complexValue { l with keys := none :: keys }
    | _ => complexValue l
  return (l.add .value).drop 1
where
  complexValue (l : Layout) : Option Layout := do
    guard (l.inFlow || l.keyAllowed)
    let l ← l.openBlock l.source.column none .blockMapStart
    return { l with keyAllowed := !l.inFlow }

def addAnchor (l : Layout) (token : String → Token) : Option Layout := do
  let l ← l.saveKey
  let (name, source) ← Property.anchorName (l.source.drop 1)
  return { l with source, keyAllowed := false }.add (token name)

def addTag (l : Layout) : Option Layout := do
  let l ← l.saveKey
  let (token, source) ← Property.tag l.source
  return { l with source, keyAllowed := false }.add token

def addBlockScalar (l : Layout) : Option Layout := do
  let l ← l.dropKey
  let literal := l.source.char == '|'
  let (text, source) ← Scalar.block literal l.columns.head? (l.source.drop 1)
  return { l with source, keyAllowed := true }.add (.scalar text false)

def addQuoted (l : Layout) : Option Layout := do
  let l ← l.saveKey
  let rest := l.source.drop 1
  let (text, source) ←
    if l.source.char == '"' then Scalar.double "" .empty none rest else Scalar.single "" .empty rest
  return { l with source, keyAllowed := false }.add (.scalar text false)

def addPlain (l : Layout) : Option Layout := do
  let l ← l.saveKey
  let indent := (l.columns.head?.map (· + 1)).getD 0
  let (text, isBroken, source) ← Scalar.plain l.inFlow indent "" .empty l.source
  return { l with source, keyAllowed := isBroken }.add (.scalar text true)

def startsPlain (inFlow : Bool) (c next : Char) : Bool :=
  let indicators := ['-', '?', ':', ',', '[', ']', '\x7b', '\x7d', '#', '&', '*', '!', '|', '>',
    '\x27', '"', '%', '@', '\x60']
  !(isBlankOrEnd c || indicators.contains c)
    || (c == '-' && !isBlank next)
    || (!inFlow && (c == '?' || c == ':') && !isBlankOrEnd next)

/-- Read the token that starts with `c` before `next`. -/
def addToken (l : Layout) (c next : Char) : Option Layout :=
  let flow := l.inFlow
  if c == '[' then l.openFlow .flowSeqStart
  else if c == '\x7b' then l.openFlow .flowMapStart
  else if c == ']' then l.closeFlow .flowSeqEnd
  else if c == '\x7d' then l.closeFlow .flowMapEnd
  else if c == ',' then l.addFlowEntry
  else if c == '-' && isBlankOrEnd next then l.addIndicator .blockSeqStart .blockEntry true
  else if c == '?' && (flow || isBlankOrEnd next) then l.addIndicator .blockMapStart .key !flow
  else if c == ':' && (flow || isBlankOrEnd next) then l.addValue
  else if c == '*' then l.addAnchor .reference
  else if c == '&' then l.addAnchor .anchor
  else if c == '!' then l.addTag
  else if (c == '|' || c == '>') && !flow then l.addBlockScalar
  else if c == '\x27' || c == '"' then l.addQuoted
  else if startsPlain flow c next then l.addPlain
  else none

/-- Read on until there is a further token. -/
def advance (l : Layout) : Option Layout :=
  let (keyAllowed, source) := skip l.inFlow l.keyAllowed none l.source
  let l := { l with source, keyAllowed }.closeBlocks (Source.column source < ·)
  let c := Source.char source
  if c == endMark then l.addStreamEnd
  else if Source.column source = 0 && c == '%' then l.addDirective
  else if Source.isMarker source then l.addMarker
  else do
    let l ← l.addToken c (Source.second source)
    return if l.waiting.getLast? == some .blockEntry then l
      else { l with source := skipLineComment l.source }

/-- Whether the next token to hand out may turn out to be a key, and the layout once a key that came
too late is given up. -/
def settleKey (l : Layout) : Option (Bool × Layout) :=
  match l.keys.find? (fun k => k.any (·.number == l.passed)) with
  | some (some key) =>
    if !key.isLate l.source then some (true, l)
    else if key.isRequired then none
    else some (false, { l with keys := l.keys.map fun k => if k == some key then none else k })
  | _ => some (false, l)

/-- The next token, once two more are known behind it and it cannot turn out to be a key. -/
def next (l : Layout) : Nat → Option (Token × Layout)
  | 0 => none
  | fuel + 1 =>
    match l.waiting with
    | t :: second :: third :: rest => do
      let (mayBeKey, l) ← l.settleKey
      if mayBeKey then next (← l.advance) fuel
      else return (t, { l with waiting := second :: third :: rest, passed := l.passed + 1 })
    | _ => do next (← l.advance) fuel

/-- Hand out tokens up to the end of the text, or to the first that cannot be handed out. -/
def tokens : Nat → Layout → List Token
  | 0, _ => []
  | fuel + 1, l =>
    match l.next (fuel + 4) with
    | none => []
    | some (t, l) => if t = .streamEnd then [t] else t :: tokens fuel l

end Layout

/-- The tokens of a text. A character brings four tokens at most. -/
def Token.ofSource (s : Source) : List Token := Layout.tokens (4 * s.length + 4) { source := s }

end NominalGenerics.Yaml
