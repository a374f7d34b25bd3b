import NominalGenerics.Yaml.Source

/-!
# Scalars

Plain and quoted scalars may run over several lines, which are folded: a single break is read as a
space, and of several breaks the first is dropped. Block scalars keep their lines, or fold them.
-/

namespace NominalGenerics.Yaml

/-- Blanks and breaks between two words of a scalar. Blanks around a break do not count. -/
inductive Gap where
  | empty
  | blanks (text : String)
  /-- The first break, unless it was escaped, and those after it. -/
  | breaks (first : Option Char) (more : String)
deriving DecidableEq, Repr

namespace Gap

def addBlank (c : Char) : Gap → Gap
  | .empty => .blanks (String.singleton c)
  | .blanks text => .blanks (text.push c)
  | .breaks first more => .breaks first more

def addBreak (c : Char) : Gap → Gap
  | .breaks first more => .breaks first (more.push (breakText c))
  | _ => .breaks (some (breakText c)) ""

def isBroken : Gap → Bool
  | .breaks .. => true
  | _ => false

def isEmpty : Gap → Bool
  | .empty => true
  | _ => false

def text : Gap → String
  | .empty => ""
  | .blanks text => text
  | .breaks none more => more
  | .breaks (some '\n') more => if more.isEmpty then " " else more
  | .breaks (some c) more => String.singleton c ++ more

end Gap

namespace Scalar

/-- Whether a character ends a plain scalar inside brackets. -/
def isFlowEnd (c : Char) : Bool :=
  c == ',' || c == '?' || c == '[' || c == ']' || c == '\x7b' || c == '\x7d'

/-- Read a plain scalar, indented by `indent` columns at least unless it stands in brackets. The
gap before its end is read too; the answer says whether there was a break in it. -/
def plain (inFlow : Bool) (indent : Nat) : String → Gap → Source → Option (String × Bool × Source)
  | done, gap, [] => some (done, gap.isBroken, [])
  | done, gap, p :: rest =>
    let c := p.char
    if isBlank c then
      if gap.isBroken && p.column < indent && c == '\t' then none
      else plain inFlow indent done (gap.addBlank c) rest
    else if isBreak c then plain inFlow indent done (gap.addBreak c) rest
    else if c == endMark
        || (!gap.isEmpty && (c == '#' || Source.isMarker (p :: rest)
          || (!inFlow && p.column < indent)))
        || (c == ':' && isBlankOrEnd (Source.char rest))
        || (inFlow && isFlowEnd c) then
      some (done, gap.isBroken, p :: rest)
    else plain inFlow indent ((done ++ gap.text).push c) .empty rest

/-- Read a scalar in single quotes, behind the first. A quote in it is written twice. -/
def single : String → Gap → Source → Option (String × Source)
  | done, gap, p :: q :: rest =>
    let c := p.char
    if c == endMark || Source.isMarker (p :: q :: rest) then none
    else if isBlank c then single done (gap.addBlank c) (q :: rest)
    else if isBreak c then single done (gap.addBreak c) (q :: rest)
    else if c != '\x27' then single ((done ++ gap.text).push c) .empty (q :: rest)
    else if q.char == '\x27' then single ((done ++ gap.text).push c) .empty rest
    else some (done ++ gap.text, q :: rest)
  | _, _, _ => none

def escaped : Char → Option Char
  | '0' => some '\x00'
  | 'a' => some '\x07'
  | 'b' => some '\x08'
  | 't' | '\t' => some '\t'
  | 'n' => some '\n'
  | 'v' => some '\x0b'
  | 'f' => some '\x0c'
  | 'r' => some '\r'
  | 'e' => some '\x1b'
  | ' ' => some ' '
  | '"' => some '"'
  | '\x27' => some '\x27'
  | '\\' => some '\\'
  | 'N' => some '\u0085'
  | '_' => some '\u00a0'
  | 'L' => some '\u2028'
  | 'P' => some '\u2029'
  | _ => none

/-- How many hexadecimal digits follow an escape letter. -/
def codeLength : Char → Option Nat
  | 'x' => some 2
  | 'u' => some 4
  | 'U' => some 8
  | _ => none

def hexDigit? (c : Char) : Option Nat :=
  if c.isDigit then some (c.toNat - 48)
  else if 'a' ≤ c && c ≤ 'f' then some (c.toNat - 87)
  else if 'A' ≤ c && c ≤ 'F' then some (c.toNat - 55)
  else none

def ofCode? (n : Nat) : Option Char := if n.isValidChar then some (Char.ofNat n) else none

/-- Read a scalar in double quotes, behind the first. In the midst of a code, `code` holds how many
digits are missing and the value so far. -/
def double : String → Gap → Option (Nat × Nat) → Source → Option (String × Source)
  | done, gap, some (missing, value), p :: rest => do
    let value := value * 16 + (← hexDigit? p.char)
    if missing = 1 then double (done.push (← ofCode? value)) gap none rest
    else double done gap (some (missing - 1, value)) rest
  | done, gap, none, p :: q :: rest =>
    let c := p.char
    if c == endMark || Source.isMarker (p :: q :: rest) then none
    else if isBlank c then double done (gap.addBlank c) none (q :: rest)
    else if isBreak c then double done (gap.addBreak c) none (q :: rest)
    else if c == '"' then some (done ++ gap.text, q :: rest)
    else if c != '\\' then double ((done ++ gap.text).push c) .empty none (q :: rest)
    else if isBreak q.char then double (done ++ gap.text) (.breaks none "") none rest
    else
      match codeLength q.char, escaped q.char with
      | some length, _ => double (done ++ gap.text) .empty (some (length, 0)) rest
      | none, some e => double ((done ++ gap.text).push e) .empty none rest
      | none, none => none
  | _, _, _, _ => none

/-! ## Block scalars -/

inductive Chomping where
  | clip
  | strip
  | keep
deriving DecidableEq, Repr

def chomping? : Char → Option Chomping
  | '+' => some .keep
  | '-' => some .strip
  | _ => none

/-- Read what may follow the indicator of a block scalar: how its end is treated and how far it is
indented, in either order. -/
def blockHeader (s : Source) : Option (Chomping × Option Nat × Source) :=
  let digit? (c : Char) : Option Nat := if c.isDigit then some (c.toNat - 48) else none
  let found :=
    match chomping? s.char, digit? s.char with
    | some chomping, _ =>
      match digit? s.second with
      | some n => (chomping, some n, s.drop 2)
      | none => (chomping, none, s.tail)
    | none, some n =>
      match chomping? s.second with
      | some chomping => (chomping, some n, s.drop 2)
      | none => (.clip, some n, s.tail)
    | none, none => (.clip, none, s)
  if found.2.1 == some 0 then none else some found

/-- Skip indentation and empty lines. The answer holds the widest indentation met and the breaks. -/
def emptyLines (limit : Option Nat) (widest : Nat) (breaks : String) :
    Source → Option (Nat × String × Source)
  | [] => some (widest, breaks, [])
  | p :: rest =>
    let isBelow := limit.all (p.column < ·)
    let widest := max widest p.column
    if isBelow && p.char == ' ' then emptyLines limit widest breaks rest
    else if isBelow && p.char == '\t' then none
    else if isBreak p.char then emptyLines limit widest (breaks.push (breakText p.char)) rest
    else some (widest, breaks, p :: rest)

/-- The lines of a block scalar read so far: their text, the break that ended the last one, the
empty lines after it, and whether that line began with a blank. -/
structure Lines where
  text : String := ""
  lineEnd : String := ""
  empty : String := ""
  isIndented : Bool := false

/-- The text of lines with the break that a further line brings. -/
def Lines.joined (l : Lines) (literal : Bool) (nextIsIndented : Bool) : String :=
  let folds := !literal && !l.isIndented && !nextIsIndented && l.lineEnd == "\n"
  let lineEnd := if !folds then l.lineEnd else if l.empty.isEmpty then " " else ""
  l.text ++ lineEnd ++ l.empty

/-- Read the lines of a block scalar, which begin at column `indent`. -/
def blockLines (literal : Bool) (indent : Nat) : Nat → Lines → Source → Option (Lines × Source)
  | 0, lines, s => some (lines, s)
  | fuel + 1, lines, s =>
    if s.column != indent || s.char == endMark then some (lines, s)
    else do
      let isIndented := isBlank s.char
      let (line, s) := s.span (!isBreakOrEnd ·)
      let lineEnd := if isBreak s.char then String.singleton (breakText s.char) else ""
      let (_, empty, s) ← emptyLines (some indent) 0 "" s.dropBreak
      let text := lines.joined literal isIndented ++ line
      blockLines literal indent fuel ⟨text, lineEnd, empty, isIndented⟩ s

/-- Read a block scalar behind its indicator, inside a block that begins at column `outer`. -/
def block (literal : Bool) (outer : Option Nat) (s : Source) : Option (String × Source) := do
  let (chomping, increment, s) ← blockHeader s
  let s := s.dropBlanks
  let s := if s.char == '#' then s.dropLine else s
  guard (isBreakOrEnd s.char)
  let limit := increment.map (outer.getD 0 + ·)
  let (widest, empty, s) ← emptyLines limit 0 "" s.dropBreak
  let indent := limit.getD (max widest (max ((outer.map (· + 1)).getD 0) 1))
  let (lines, s) ← blockLines literal indent s.length { empty } s
  let lineEnd := if chomping == .strip then "" else lines.lineEnd
  return (lines.text ++ lineEnd ++ (if chomping == .keep then lines.empty else ""), s)

end Scalar

end NominalGenerics.Yaml
