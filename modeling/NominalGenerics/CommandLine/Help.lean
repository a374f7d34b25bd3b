import NominalGenerics.CommandLine.Options

/-!
# Help

The help of a command says what it does, how it is called, and lists its options in a table.
-/

namespace NominalGenerics.CommandLine

namespace Command

def name : Command → String
  | .check => "check"
  | .describe => "describe"

def summary : Command → String
  | .check => "Evaluate a file of generics queries"
  | .describe => "Show a type\x27s declaration and the ancestors it instantiates"

def usage : Command → String
  | .check => "check queries.yaml"
  | .describe => "describe \x27ArrayList<String>\x27"

end Command

namespace Flag

/-- What stands for the value of an option. -/
def valueName : Flag → String
  | .cacheSize | .logLevel | .jobs => "int"
  | .marker => "string"
  | .model => "strings"
  | .noCache | .stats | .methods | .help => ""

def purpose (command : Command) : Flag → String
  | .cacheSize => "maximum number of memoized parameterised-type lookups"
  | .noCache => "disable the parameterised-type lookup cache"
  | .marker => "interface implicitly implemented by classes still in compilation"
  | .logLevel => "log level"
  | .model => "YAML class model to load on top of the core library"
  | .jobs => "number of queries evaluated concurrently"
  | .stats => "print locator cache statistics"
  | .methods => "also list the methods visible on the type"
  | .help => "help for " ++ command.name

/-- The default of an option, where it says something. -/
def default? : Flag → Option String
  | .cacheSize => some (toString ({} : Options).cacheSize)
  | .marker => some (Text.quoted ({} : Options).marker)
  | .logLevel => some (toString ({} : Options).logLevel)
  | .jobs => some (toString ({} : Options).jobs)
  | _ => none

/-- The left column of the table of options. -/
def synopsis (o : Flag) : String :=
  let letter :=
    match o.letter? with
    | some c => "  -" ++ c.toString ++ ", --"
    | none => "      --"
  letter ++ o.name ++ (if o.valueName.isEmpty then "" else " " ++ o.valueName)

/-- A line of the table of options, whose left column has the given width. -/
def line (command : Command) (width : Nat) (o : Flag) : String :=
  let padding := "".pushn ' ' (width - o.synopsis.length)
  let default := (o.default?.map fun d => " (default " ++ d ++ ")").getD ""
  o.synopsis ++ padding ++ "   " ++ o.purpose command ++ default ++ "\n"

end Flag

def Command.help (command : Command) : String :=
  let flags := Flag.ofCommand command
  let width := (flags.map (·.synopsis.length)).foldl max 0
  command.summary ++ "\n\nUsage:\n  " ++ command.usage ++ " [flags]\n\nFlags:\n"
    ++ String.join (flags.map (·.line command width))

end NominalGenerics.CommandLine
