/-!
# Integers on the command line

An integer has an optional sign and an optional base: `0b`, `0o`, `0x`, or a plain leading zero for
octal. Underscores may separate digits. The value has to fit into 64 bits.
-/

namespace NominalGenerics.Text

inductive IntegerError where
  | malformed
  | outOfRange
deriving DecidableEq, Repr

def IntegerError.message : IntegerError → String
  | .malformed => "invalid syntax"
  | .outOfRange => "value out of range"

/-- The value of a digit of any base up to 36. -/
def digit? (c : Char) : Option Nat :=
  if c.isDigit then some (c.toNat - '0'.toNat)
  else if c.isLower then some (c.toNat - 'a'.toNat + 10)
  else if c.isUpper then some (c.toNat - 'A'.toNat + 10)
  else none

/-- The value of digits, separators aside. It has to stay below 2⁶⁴ from digit to digit. -/
def digits (base : Nat) : List Char → Nat → Except IntegerError Nat
  | [], value => .ok value
  | '_' :: rest, value => digits base rest value
  | c :: rest, value =>
    match digit? c with
    | none => .error .malformed
    | some d =>
      if base ≤ d then .error .malformed
      else if UInt64.size ≤ value * base + d then .error .outOfRange
      else digits base rest (value * base + d)

/-- Whether every underscore stands between digits; a base counts as one. -/
def separatorsFit (afterDigit : Bool) : List Char → Bool
  | [] => true
  | ['_'] => false
  | '_' :: c :: rest => afterDigit && c != '_' && separatorsFit false (c :: rest)
  | _ :: rest => separatorsFit true rest

/-- The base of a numeral and the digits after its mark. -/
def baseOf : List Char → Nat × List Char
  | '0' :: b :: d :: rest =>
    if b.toLower == 'b' then (2, d :: rest)
    else if b.toLower == 'o' then (8, d :: rest)
    else if b.toLower == 'x' then (16, d :: rest)
    else (8, b :: d :: rest)
  | '0' :: rest => (8, rest)
  | digits => (10, digits)

/-- The value of a numeral without a sign. Misplaced underscores are found last. -/
def natural (numeral : List Char) : Except IntegerError Nat := do
  let (base, rest) := baseOf numeral
  if numeral.isEmpty then throw .malformed
  let value ← digits base rest 0
  if separatorsFit (base != 10) rest then return value else throw .malformed

def integer (text : String) : Except IntegerError Int := do
  let (negative, numeral) :=
    match text.toList with
    | '-' :: rest => (true, rest)
    | '+' :: rest => (false, rest)
    | rest => (false, rest)
  let n ← natural numeral
  if negative then if n ≤ UInt64.size / 2 then return -n else throw .outOfRange
  else if n < UInt64.size / 2 then return n else throw .outOfRange

end NominalGenerics.Text
