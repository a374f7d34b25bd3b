import NominalGenerics.Engine.Basic
import NominalGenerics.Text.Integer
import NominalGenerics.Text.Quoted
import NominalGenerics.Text.Record

/-!
# Options

Options are written `--name value` or `--name=value`, and those with a letter also `-n value`,
`-nvalue` or `-n=value`. A switch takes a value only after an equals sign. Options and arguments
mix, and `--` ends the options.
-/

namespace NominalGenerics.CommandLine

inductive Command where
  | check
  | describe
deriving DecidableEq, Repr

inductive Flag where
  | cacheSize
  | noCache
  | marker
  | logLevel
  | model
  | jobs
  | stats
  | methods
  | help
deriving DecidableEq, Repr

namespace Flag

def name : Flag → String
  | .cacheSize => "cache-size"
  | .noCache => "no-cache"
  | .marker => "marker"
  | .logLevel => "log-level"
  | .model => "model"
  | .jobs => "jobs"
  | .stats => "stats"
  | .methods => "methods"
  | .help => "help"

def letter? : Flag → Option Char
  | .logLevel => some 'l'
  | .model => some 'm'
  | .jobs => some 'j'
  | .help => some 'h'
  | _ => none

/-- A switch is on when it is given without a value. -/
def isSwitch : Flag → Bool
  | .noCache | .stats | .methods | .help => true
  | _ => false

def label (o : Flag) : String :=
  match o.letter? with
  | some c => "-" ++ c.toString ++ ", --" ++ o.name
  | none => "--" ++ o.name

/-- The options of a command, in the order of their names. -/
def ofCommand : Command → List Flag
  | .check => [.cacheSize, .help, .jobs, .logLevel, .marker, .model, .noCache, .stats]
  | .describe => [.cacheSize, .help, .logLevel, .marker, .methods, .model, .noCache]

end Flag

/-- The values of all options, by default as the engine has them. -/
structure Options where
  cacheSize : Int := 4096
  noCache : Bool := false
  marker : String := "GroovyObject"
  logLevel : Int := 4
  models : List String := []
  jobs : Int := 1
  stats : Bool := false
  methods : Bool := false
  help : Bool := false
deriving DecidableEq, Repr

def Options.settings (o : Options) : Settings :=
  { cacheSize := if o.noCache then 0 else o.cacheSize, marker := o.marker }

inductive ValueError where
  | notAnInteger (text : String) (error : Text.IntegerError)
  | notABoolean (text : String)
  | notARecord (error : Text.RecordError)
deriving DecidableEq, Repr

def ValueError.message : ValueError → String
  | .notAnInteger text error =>
    "strconv.ParseInt: parsing " ++ Text.quoted text ++ ": " ++ error.message
  | .notABoolean text =>
    "strconv.ParseBool: parsing " ++ Text.quoted text ++ ": invalid syntax"
  | .notARecord error => error.message

inductive OptionError where
  | malformed (text : String)
  | unknown (name : String)
  | unknownLetter (c : Char) (letters : String)
  | missingValue (text : String)
  | missingLetterValue (c : Char) (letters : String)
  | unsuitable (value : String) (option : Flag) (error : ValueError)
  | argumentCount (found : Nat)
deriving DecidableEq, Repr

def OptionError.message : OptionError → String
  | .malformed text => "bad flag syntax: " ++ text
  | .unknown name => "unknown flag: --" ++ name
  | .unknownLetter c letters =>
    "unknown shorthand flag: " ++ Text.quotedChar c ++ " in -" ++ letters
  | .missingValue text => "flag needs an argument: " ++ text
  | .missingLetterValue c letters =>
    "flag needs an argument: " ++ Text.quotedChar c ++ " in -" ++ letters
  | .unsuitable value option error =>
    "invalid argument " ++ Text.quoted value ++ " for " ++ Text.quoted option.label ++ " flag: "
      ++ error.message
  | .argumentCount found => s!"accepts 1 arg(s), received {found}"

def boolean (text : String) : Except ValueError Bool :=
  if ["1", "t", "T", "TRUE", "true", "True"].contains text then .ok true
  else if ["0", "f", "F", "FALSE", "false", "False"].contains text then .ok false
  else .error (.notABoolean text)

def integer (text : String) : Except ValueError Int :=
  (Text.integer text).mapError (.notAnInteger text)

/-- The items of a list value, which is a record of them. -/
def listItems (text : String) : Except ValueError (List String) :=
  (Text.record text).mapError .notARecord

namespace Options

/-- Give an option its value. A list option adds to what it has. -/
def set (o : Options) (option : Flag) (value : String) : Except ValueError Options :=
  match option with
  | .cacheSize => do return { o with cacheSize := ← integer value }
  | .noCache => do return { o with noCache := ← boolean value }
  | .marker => .ok { o with marker := value }
  | .logLevel => do return { o with logLevel := ← integer value }
  | .model => do return { o with models := o.models ++ (← listItems value) }
  | .jobs => do return { o with jobs := ← integer value }
  | .stats => do return { o with stats := ← boolean value }
  | .methods => do return { o with methods := ← boolean value }
  | .help => do return { o with help := ← boolean value }

def assign (o : Options) (option : Flag) (value : String) : Except OptionError Options :=
  (o.set option value).mapError (.unsuitable value option)

/-- Read an option written out, which may use up the next argument. -/
def readLong (known : List Flag) (o : Options) (text : String) (args : List String) :
    Except OptionError (Options × List String) :=
  let body := text.toList.drop 2
  if body.head?.any (fun c => c == '-' || c == '=') then .error (.malformed text)
  else
    let name := String.ofList (body.takeWhile (· != '='))
    let value := body.dropWhile (· != '=')
    match known.find? (·.name == name) with
    | none => .error (.unknown name)
    | some option => do
      match value, args with
      | '=' :: value, _ => return (← o.assign option (String.ofList value), args)
      | _, next :: rest =>
        if option.isSwitch then return (← o.assign option "true", args)
        else return (← o.assign option next, rest)
      | _, [] =>
        if option.isSwitch then return (← o.assign option "true", args)
        else .error (.missingValue text)

/-- The character a message shows for a letter: the one whose code is the first byte of it. -/
def shownLetter (c : Char) : Char :=
  match c.toString.toUTF8.toList with
  | byte :: _ => Char.ofNat byte.toNat
  | [] => c

/-- Read options given as letters behind one dash. The last one may use up the next argument. -/
def readLetters (known : List Flag) : List Char → Options → List String →
    Except OptionError (Options × List String)
  | [], o, args => .ok (o, args)
  | c :: letters, o, args =>
    let shown := String.ofList (c :: letters)
    match known.find? (·.letter? == some c), letters, args with
    | none, _, _ => .error (.unknownLetter (shownLetter c) shown)
    | some option, '=' :: v :: value, _ => do
      return (← o.assign option (String.ofList (v :: value)), args)
    | some option, v :: value, _ => do
      if option.isSwitch then readLetters known (v :: value) (← o.assign option "true") args
      else return (← o.assign option (String.ofList (v :: value)), args)
    | some option, [], next :: rest => do
      if option.isSwitch then return (← o.assign option "true", args)
      else return (← o.assign option next, rest)
    | some option, [], [] => do
      if option.isSwitch then return (← o.assign option "true", args)
      else .error (.missingLetterValue c shown)

/-- Read options and arguments, at most `fuel` of them. -/
def readArgs (known : List Flag) : Nat → List String → Options → List String →
    Except OptionError (Options × List String)
  | 0, _, o, found | _, [], o, found => .ok (o, found)
  | fuel + 1, text :: args, o, found =>
    match text.toList with
    | ['-', '-'] => .ok (o, found ++ args)
    | '-' :: '-' :: _ => do
      let (o, args) ← readLong known o text args
      readArgs known fuel args o found
    | '-' :: c :: letters => do
      let (o, args) ← readLetters known (c :: letters) o args
      readArgs known fuel args o found
    | _ => readArgs known fuel args o (found ++ [text])

inductive Request where
  | help
  | run (options : Options) (argument : String)
deriving DecidableEq, Repr

/-- Read the options of a command and its one argument, which help does not need. -/
def parse (command : Command) (args : List String) : Except OptionError Request := do
  let (o, found) ← readArgs (Flag.ofCommand command) args.length args {} []
  if o.help then return .help
  match found with
  | [argument] => return .run o argument
  | _ => .error (.argumentCount found.length)

end Options

end NominalGenerics.CommandLine
