/-!
# White space

The characters that separate words: the Unicode property `White_Space`.
-/

namespace NominalGenerics.Text

def isBlank (c : Char) : Bool :=
  let n := c.toNat
  (0x09 ≤ n && n ≤ 0x0D) || n == 0x20 || n == 0x85 || n == 0xA0 || n == 0x1680
    || (0x2000 ≤ n && n ≤ 0x200A) || n == 0x2028 || n == 0x2029 || n == 0x202F || n == 0x205F
    || n == 0x3000

/-- The first word of a text, split at white space. -/
def firstWord? (text : List Char) : Option (List Char) :=
  match (text.dropWhile isBlank).takeWhile (fun c => !isBlank c) with
  | [] => none
  | word => some word

end NominalGenerics.Text
