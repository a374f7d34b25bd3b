/-!
# The characters of a YAML text

A text is read as a list of characters that each know their place, closed by a mark for its end. A
line ends with a line feed, a carriage return, both, or one of three other break characters.
-/

namespace NominalGenerics.Yaml

def isAllowed (c : Char) : Bool :=
  let n := c.toNat
  n == 0x09 || n == 0x0A || n == 0x0D || (0x20 ≤ n && n ≤ 0x7E) || n == 0x85
    || (0xA0 ≤ n && n ≤ 0xFFFD) || 0x10000 ≤ n

def isBlank (c : Char) : Bool := c == ' ' || c == '\t'

def isBreak (c : Char) : Bool :=
  c == '\n' || c == '\u0085' || c == '\u2028' || c == '\u2029'

/-- The mark that closes a text. No text holds this character. -/
def endMark : Char := '\x00'

def isBreakOrEnd (c : Char) : Bool := isBreak c || c == endMark

def isBlankOrEnd (c : Char) : Bool := isBlank c || isBreakOrEnd c

/-- The character a break is read as: the separators keep their own, all others are line feeds. -/
def breakText (c : Char) : Char :=
  if c == '\u2028' || c == '\u2029' then c else '\n'

/-- A letter, digit, underscore or hyphen: what names of anchors and directives are made of. -/
def isWordChar (c : Char) : Bool := c.isAlphanum || c == '_' || c == '-'

/-- A character with its place: how many stand before it, its line and column, and whether only
blanks stand before it on a line that is not the first. -/
structure Placed where
  char : Char
  index : Nat
  line : Nat
  column : Nat
  isLeading : Bool
deriving DecidableEq, Repr

abbrev Source := List Placed

namespace Source

/-- Place characters. A carriage return is read as a line feed, together with one that follows. -/
def place (index line column : Nat) (leading : Bool) : List Char → Source
  | [] => [⟨endMark, index, line, column, leading⟩]
  | '\r' :: '\n' :: rest =>
    ⟨'\n', index, line, column, leading⟩ :: place (index + 2) (line + 1) 0 true rest
  | c :: rest =>
    let c := if c == '\r' then '\n' else c
    ⟨c, index, line, column, leading⟩ ::
      if isBreak c then place (index + 1) (line + 1) 0 true rest
      else place (index + 1) line (column + 1) (leading && isBlank c) rest

/-- The characters of a text, unless one is not allowed. A byte order mark in front does not
count. -/
def ofString? (text : String) : Option Source :=
  let chars :=
    match text.toList with
    | '\ufeff' :: rest => rest
    | chars => chars
  if chars.all isAllowed then some (place 0 0 0 false chars) else none

def char : Source → Char
  | [] => endMark
  | p :: _ => p.char

def second (s : Source) : Char := char s.tail

def column (s : Source) : Nat := (s.head?.map (·.column)).getD 0

def line (s : Source) : Nat := (s.head?.map (·.line)).getD 0

def index (s : Source) : Nat := (s.head?.map (·.index)).getD 0

def isLeading (s : Source) : Bool := (s.head?.map (·.isLeading)).getD false

/-- Whether a line begins here that starts or ends a document. -/
def isMarker : Source → Bool
  | a :: b :: c :: rest =>
    a.column == 0 && a.char == b.char && b.char == c.char && (a.char == '-' || a.char == '.')
      && isBlankOrEnd (char rest)
  | _ => false

/-- The characters up to the first one without a property, and what is left. -/
def span (s : Source) (p : Char → Bool) : String × Source :=
  (String.ofList ((s.takeWhile fun c => p c.char).map (·.char)), s.dropWhile fun c => p c.char)

/-- What is left from the end of the line on. -/
def dropLine (s : Source) : Source := s.dropWhile fun c => !isBreakOrEnd c.char

def dropBlanks (s : Source) : Source := s.dropWhile fun c => isBlank c.char

/-- What is left behind a break, if one is next. -/
def dropBreak (s : Source) : Source := if isBreak s.char then s.tail else s

end Source

end NominalGenerics.Yaml
