/-!
# YAML tokens

The structure of a document is told by tokens: indicators, properties, scalars, and marks for blocks
that indentation opens and closes.
-/

namespace NominalGenerics.Yaml

inductive Token where
  | streamEnd
  /-- The declared version of the format. -/
  | version (major minor : Nat)
  /-- A handle for tags, with what it stands for. -/
  | tagHandle (handle expansion : String)
  | documentStart
  | documentEnd
  | blockSeqStart
  | blockMapStart
  | blockEnd
  | flowSeqStart
  | flowSeqEnd
  | flowMapStart
  | flowMapEnd
  | blockEntry
  | flowEntry
  | key
  | value
  | reference (name : String)
  | anchor (name : String)
  | tag (handle suffix : String)
  | scalar (text : String) (plain : Bool)
deriving DecidableEq, Repr

namespace Token

/-- Whether a token stands outside documents. -/
def isOutside : Token → Bool
  | .streamEnd | .version .. | .tagHandle .. | .documentStart | .documentEnd => true
  | _ => false

end Token

end NominalGenerics.Yaml
