import NominalGenerics.Text.Graphic

/-!
# Quoted text in messages

Text between double quotes, and a character between single quotes, with what cannot be shown written
as an escape.
-/

namespace NominalGenerics.Text

/-- Whether a character shows up as itself in a message: a graphic character, or a space. -/
def isVisible (c : Char) : Bool := c == ' ' || isGraphic c

/-- A number as hexadecimal digits, at least `width` of them. -/
def hexText (width n : Nat) : List Char :=
  let digits := Nat.toDigits 16 n
  List.replicate (width - digits.length) '0' ++ digits

/-- A character inside quotes of the given kind. -/
def quoteChar (quote c : Char) : List Char :=
  if c == quote || c == '\\' then ['\\', c]
  else if isVisible c then [c]
  else
    match c with
    | '\x07' => ['\\', 'a']
    | '\x08' => ['\\', 'b']
    | '\x0c' => ['\\', 'f']
    | '\n' => ['\\', 'n']
    | '\r' => ['\\', 'r']
    | '\t' => ['\\', 't']
    | '\x0b' => ['\\', 'v']
    | c =>
      let n := c.toNat
      if n < 0x80 then '\\' :: 'x' :: hexText 2 n
      else if n < 0x10000 then '\\' :: 'u' :: hexText 4 n
      else '\\' :: 'U' :: hexText 8 n

def quoted (text : String) : String :=
  String.ofList ('"' :: text.toList.flatMap (quoteChar '"') ++ ['"'])

def quotedChar (c : Char) : String := String.ofList ('\'' :: quoteChar '\'' c ++ ['\''])

end NominalGenerics.Text
