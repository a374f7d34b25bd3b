import NominalGenerics.Yaml.Token.Basic
import NominalGenerics.Yaml.Token.Scalar

/-!
# Anchors, tags and directives

The smaller tokens: names of anchors, tags with their handles, and the directives that may stand in
front of a document.
-/

namespace NominalGenerics.Yaml

namespace Property

def endsAnchor (c : Char) : Bool :=
  isBlankOrEnd c || ['?', ':', ',', ']', '\x7d', '%', '@', '\x60'].contains c

def anchorName (s : Source) : Option (String × Source) :=
  let (name, s) := s.span isWordChar
  if name.isEmpty || !endsAnchor s.char then none else some (name, s)

def isTagChar (c : Char) : Bool :=
  isWordChar c || [';', '/', '?', ':', '@', '&', '=', '+', '$', '.', '!', '~', '*', '\x27', '(',
    ')', '%'].contains c

/-- The bytes of a tag in which some are written as percent signs and two hexadecimal digits. -/
def tagBytes : List Char → Option (List UInt8)
  | [] => some []
  | '%' :: a :: b :: rest => do
    let high ← Scalar.hexDigit? a
    let low ← Scalar.hexDigit? b
    return (high * 16 + low).toUInt8 :: (← tagBytes rest)
  | '%' :: _ => none
  | c :: rest => do return (String.singleton c).toUTF8.toList ++ (← tagBytes rest)

/-- Read the characters of a tag, of which `done` are read already. There has to be one. -/
def tagText (done : String) (hasHead : Bool) (s : Source) : Option (String × Source) := do
  let (text, s) := s.span isTagChar
  guard (hasHead || !text.isEmpty)
  let bytes ← tagBytes text.toList
  return (done ++ (← String.fromUTF8? ⟨bytes.toArray⟩), s)

/-- Read a handle: an exclamation mark, and a name with a second one if there is. -/
def handle (s : Source) : String × Source :=
  let (name, s) := Source.span s.tail isWordChar
  if s.char == '!' then ("!" ++ name ++ "!", s.tail) else ("!" ++ name, s)

def isHandle (h : String) : Bool := 1 < h.length && h.endsWith "!"

/-- Read a tag. A tag in angle brackets, and the exclamation mark by itself, have no handle. -/
def tag (s : Source) : Option (Token × Source) := do
  let (token, s) ←
    if s.second == '<' then do
      let (text, s) ← tagText "" false (s.drop 2)
      guard (s.char == '>')
      pure (Token.tag "" text, s.tail)
    else do
      let (h, s) := handle s
      if isHandle h then do
        let (suffix, s) ← tagText "" false s
        pure (.tag h suffix, s)
      else do
        let (suffix, s) ← tagText (String.ofList h.toList.tail) true s
        pure (if suffix.isEmpty then .tag "" "!" else .tag "!" suffix, s)
  guard (isBlankOrEnd (Source.char s))
  return (token, s)

/-- Read a number of a version, which has one or two digits. -/
def versionNumber (s : Source) : Option (Nat × Source) := do
  let (digits, s) := s.span Char.isDigit
  guard (digits.length ≤ 2)
  return (← digits.toNat?, s)

/-- Read a directive up to the end of its line, behind the percent sign. -/
def directive (s : Source) : Option (Token × Source) := do
  let (name, s) := s.span isWordChar
  guard (isBlankOrEnd s.char)
  let (token, s) ←
    if name == "YAML" then do
      let (major, s) ← versionNumber s.dropBlanks
      guard (s.char == '.')
      let (minor, s) ← versionNumber s.tail
      pure (Token.version major minor, s)
    else if name == "TAG" then do
      let s := s.dropBlanks
      guard (s.char == '!')
      let (h, s) := handle s
      guard (h == "!" || isHandle h)
      guard (isBlank s.char)
      let (expansion, s) ← tagText "" false s.dropBlanks
      guard (isBlankOrEnd s.char)
      pure (.tagHandle h expansion, s)
    else none
  let s := s.dropBlanks
  let s := if s.char == '#' then s.dropLine else s
  guard (isBreakOrEnd s.char)
  return (token, s.dropBreak)

end Property

end NominalGenerics.Yaml
