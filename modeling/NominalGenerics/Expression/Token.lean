import NominalGenerics.Text.DecimalDigit
import NominalGenerics.Text.Letter

/-!
# Tokens of type expressions

An expression is cut into words and single marks. Blanks, tabs and line ends separate tokens and are
dropped; every other character that cannot be part of a word is a mark. The list of tokens always
ends with a stop, which has a column too: messages point at it when the input ends early.
-/

namespace NominalGenerics

inductive Token.Form where
  | word (text : String)
  | mark (c : Char)
  | stop
deriving DecidableEq, Repr

/-- A token, where it begins in the text, and its column in its line, counted from one. -/
structure Token where
  form : Token.Form
  offset : Nat
  column : Nat
deriving DecidableEq, Repr

namespace Token

def isSeparator (c : Char) : Bool := c == ' ' || c == '\t' || c == '\n' || c == '\r'

def startsWord (c : Char) : Bool := c == '_' || Text.isLetter c

def continuesWord (c : Char) : Bool := startsWord c || Text.isDecimalDigit c

/-- A word being read: its characters, latest first, and where it begins. -/
structure Pending where
  chars : List Char
  offset : Nat
  column : Nat

def Pending.token (p : Pending) : Token :=
  ⟨.word (String.ofList p.chars.reverse), p.offset, p.column⟩

def finish : Option Pending → List Token
  | none => []
  | some p => [p.token]

/-- Cut the rest of a text, with `offset` characters before it, `column` of them in its line. -/
def scanFrom : List Char → Option Pending → Nat → Nat → List Token
  | [], word, offset, column => finish word ++ [⟨.stop, offset, column + 1⟩]
  | c :: rest, word, offset, column =>
    let column' := if c == '\n' then 0 else column + 1
    match word with
    | some p =>
      if continuesWord c then
        scanFrom rest (some { p with chars := c :: p.chars }) (offset + 1) column'
      else if isSeparator c then p.token :: scanFrom rest none (offset + 1) column'
      else p.token :: ⟨.mark c, offset, column + 1⟩ :: scanFrom rest none (offset + 1) column'
    | none =>
      if startsWord c then scanFrom rest (some ⟨[c], offset, column + 1⟩) (offset + 1) column'
      else if isSeparator c then scanFrom rest none (offset + 1) column'
      else ⟨.mark c, offset, column + 1⟩ :: scanFrom rest none (offset + 1) column'

/-- The tokens of a text. A byte order mark in front is dropped but takes a column, and an empty
text ends at column zero. -/
def scan (text : List Char) : List Token :=
  match text with
  | [] => [⟨.stop, 0, 0⟩]
  | c :: rest => if c == '\uFEFF' then scanFrom rest none 1 1 else scanFrom (c :: rest) none 0 0

def Form.describe : Form → String
  | .word text => "'" ++ text ++ "'"
  | .mark c => "'" ++ c.toString ++ "'"
  | .stop => "end of input"

end Token

end NominalGenerics
