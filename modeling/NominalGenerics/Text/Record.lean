/-!
# Comma-separated records

A record is a line of fields with commas between them. A field in double quotes may hold commas,
breaks, and quotes, which are written twice. Only the first record of a text is read; empty lines
before it do not count.
-/

namespace NominalGenerics.Text

inductive QuoteFault where
  /-- A quote in a field that does not start with one. -/
  | bare
  /-- Text behind the closing quote of a field, or no closing quote. -/
  | unbalanced
deriving DecidableEq, Repr

def QuoteFault.message : QuoteFault → String
  | .bare => "bare \" in non-quoted-field"
  | .unbalanced => "extraneous or missing \" in quoted-field"

/-- Why a record is not read. Lines and columns count from one, columns in bytes. -/
inductive RecordError where
  /-- There are only empty lines. -/
  | missing
  | fault (start line column : Nat) (kind : QuoteFault)
deriving DecidableEq, Repr

def RecordError.message : RecordError → String
  | .missing => "EOF"
  | .fault start line column kind =>
    (if start = line then "" else s!"record on line {start}; ")
      ++ s!"parse error on line {line}, column {column}: " ++ kind.message

/-- How far a field is read. -/
inductive FieldState where
  | start
  | unquoted
  | quoted
deriving DecidableEq, Repr

/-- Read fields from a place on, with what is read of the first. The break that ends a text does not
start a line of its own. -/
def fields (start : Nat) : (line column : Nat) → FieldState → String → List Char →
    Except RecordError (List String)
  | line, column, .quoted, _, [] => .error (.fault start line column .unbalanced)
  | _, _, .quoted, field, ['"'] | _, _, .quoted, field, '"' :: '\n' :: _ => .ok [field]
  | line, column, .quoted, field, '"' :: '"' :: rest =>
    fields start line (column + 2) .quoted (field.push '"') rest
  | line, column, .quoted, field, '"' :: ',' :: rest => do
    return field :: (← fields start line (column + 2) .start "" rest)
  | line, column, .quoted, _, '"' :: _ :: _ => .error (.fault start line column .unbalanced)
  | line, column, .quoted, field, c :: rest =>
    if c == '\n' && !rest.isEmpty then fields start (line + 1) 1 .quoted (field.push c) rest
    else fields start line (column + c.utf8Size) .quoted (field.push c) rest
  | line, column, .start, _, '"' :: rest => fields start line (column + 1) .quoted "" rest
  | _, _, _, field, [] | _, _, _, field, '\n' :: _ => .ok [field]
  | line, column, _, field, ',' :: rest => do
    return field :: (← fields start line (column + 1) .start "" rest)
  | line, column, _, _, '"' :: _ => .error (.fault start line column .bare)
  | line, column, _, field, c :: rest =>
    fields start line (column + c.utf8Size) .unquoted (field.push c) rest

/-- The characters of a text whose lines end with line feeds. A carriage return before a line feed,
and one at the end, is dropped. -/
def lines : List Char → List Char
  | [] => []
  | ['\r'] => []
  | '\r' :: '\n' :: rest => '\n' :: lines rest
  | c :: rest => c :: lines rest

/-- The fields of the first record of a text. An empty text is a record without fields. -/
def record (text : String) : Except RecordError (List String) :=
  if text.isEmpty then .ok []
  else
    let cs := lines text.toList
    let line := (cs.takeWhile (· == '\n')).length + 1
    match cs.dropWhile (· == '\n') with
    | [] => .error .missing
    | cs => fields line line 1 .start "" cs

end NominalGenerics.Text
