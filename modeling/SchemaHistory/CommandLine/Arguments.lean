import SchemaHistory.Json.Reader

/-!
# The arguments of a command

The arguments are options that say where the properties and the log are, then the name of
the command, then options of that command. An option and its value are two arguments, or
one with `=` between them. In two, a value does not look like an option, so a value that
starts with a dash has to be given with `=`; a single dash is a value.
Asking for help is left out: `help`, `--help` and `-h` have no place here, like any other
argument that is not known.

An attribute is a key and a value in one text, which the first `=` divides. Most values are
texts; one that reads as a JSON number or truth value is that, so that a position can be
given as it would stand in a document.
-/

namespace SchemaHistory

/-! ## Attributes -/

/-- A text that is no attribute. -/
structure AttributeError where
  /-- The text as it was given. -/
  raw : String
  deriving DecidableEq

/-- The wording of an attribute error. -/
def AttributeError.message (e : AttributeError) : String :=
  "expected key=value, got '" ++ e.raw ++ "'"

namespace Attribute

/-- The key and the value of an attribute. The key is not empty; the value may be, and may hold
further `=`. -/
def read (raw : String) : Except AttributeError (String × String) :=
  match raw.toList.takeWhile (· != '='), raw.toList.dropWhile (· != '=') with
  | c :: key, _ :: value => .ok (.ofList (c :: key), .ofList value)
  | _, _ => .error ⟨raw⟩

/-- What the text of a value means. -/
def value (text : String) : Json :=
  match Json.read text.toList with
  | .ok (.number n) => .number n
  | .ok (.boolean b) => .boolean b
  | _ => .string text

/-- The document that some attributes describe. A repeated key has its first place and its last
value. -/
def document (attributes : List (String × String)) : Members :=
  Assoc.ofPairs (attributes.map fun a => (a.1, value a.2))

end Attribute

/-! ## What is asked for -/

/-- A change to be recorded. -/
structure ChangeArguments where
  /-- The database the change applies to. -/
  database : Option String
  ddl : String
  /-- What the change came from. -/
  source : List (String × String)
  /-- Where the change stood there. -/
  position : List (String × String)
  deriving DecidableEq

/-- What is to be done. -/
inductive Command
  | record (change : ChangeArguments)
  | recover
  deriving DecidableEq

/-- All that the arguments say. -/
structure Arguments where
  config : String
  directory : String
  command : Command
  deriving DecidableEq

/-- Why arguments cannot be understood. -/
inductive UsageError
  /-- An argument that has no place here. -/
  | unexpected (argument : String)
  | noValue (option : String)
  | missing (option : String)
  /-- An option that may be given once was repeated. -/
  | repeated (option : String)
  | noCommand
  /-- A value that should be an attribute. -/
  | notAttribute (option : String) (error : AttributeError)
  deriving DecidableEq

/-- The wording of a usage error. -/
def UsageError.message : UsageError → String
  | unexpected argument => "unexpected argument '" ++ argument ++ "' found"
  | noValue option => "a value is required for '--" ++ option ++ "' but none was supplied"
  | missing option => "the required argument '--" ++ option ++ "' was not provided"
  | repeated option => "the argument '--" ++ option ++ "' cannot be used multiple times"
  | noCommand => "a command is required but none was provided"
  | notAttribute option e => "invalid value '" ++ e.raw ++ "' for '--" ++ option ++ "': " ++ e.message

namespace Arguments

/-- Options with their values, in the order in which they were given. -/
abbrev Given := List (String × String)

/-! ## Options and values -/

/-- The name in an argument that is an option, and the value that is attached to it. Two dashes
alone are no option. -/
def option? (argument : String) : Option (String × Option String) :=
  match argument.toList with
  | '-' :: '-' :: c :: rest =>
    let name := String.ofList ((c :: rest).takeWhile (· != '='))
    match (c :: rest).dropWhile (· != '=') with
    | [] => some (name, none)
    | _ :: value => some (name, some (.ofList value))
  | _ => none

/-- An argument that cannot be the value of the option before it. -/
def looksLikeOption (argument : String) : Bool :=
  match argument.toList with
  | '-' :: _ :: _ => true
  | _ => false

/-- Adds an option to those behind it. -/
def withOption (name value : String) (behind : Except UsageError (Given × List String)) :
    Except UsageError (Given × List String) :=
  behind.map fun r => ((name, value) :: r.1, r.2)

/-- Reads options with names from `known`, and gives what is behind them. -/
def readOptions (known : List String) : List String → Except UsageError (Given × List String)
  | [] => .ok ([], [])
  | argument :: rest =>
    match option? argument with
    | none => .ok ([], argument :: rest)
    | some (name, attached) =>
      if name ∉ known then .error (.unexpected argument)
      else
        match attached, rest with
        | some value, rest => withOption name value (readOptions known rest)
        | none, [] => .error (.noValue name)
        | none, value :: rest =>
          if looksLikeOption value then .error (.noValue name)
          else withOption name value (readOptions known rest)

/-- The values of an option. -/
def valuesOf (option : String) (given : Given) : List String :=
  (given.filter fun g => g.1 = option).map Prod.snd

/-- The value of an option that may be given once. -/
def optional (option : String) (given : Given) : Except UsageError (Option String) :=
  match valuesOf option given with
  | [] => .ok none
  | [value] => .ok (some value)
  | _ => .error (.repeated option)

/-- The value of an option that has to be given once. -/
def required (option : String) (given : Given) : Except UsageError String :=
  match optional option given with
  | .error e => .error e
  | .ok none => .error (.missing option)
  | .ok (some value) => .ok value

/-- The path under an option, which is not empty. -/
def path (option : String) (given : Given) : Except UsageError String :=
  match required option given with
  | .error e => .error e
  | .ok value => if value.isEmpty then .error (.noValue option) else .ok value

/-- The attribute in a value of an option. -/
def readAttribute (option raw : String) : Except UsageError (String × String) :=
  match Attribute.read raw with
  | .error e => .error (.notAttribute option e)
  | .ok a => .ok a

/-- The attributes under an option that may be given any number of times. -/
def attributes (option : String) (given : Given) : Except UsageError (List (String × String)) :=
  (valuesOf option given).mapM (readAttribute option)

/-! ## Commands -/

/-- Checks that no arguments are left. Two dashes may end the arguments. -/
def finished : List String → Except UsageError Unit
  | [] => .ok ()
  | ["--"] => .ok ()
  | argument :: _ => .error (.unexpected argument)

/-- Reads what the command `record` is told. -/
def readChange (arguments : List String) : Except UsageError ChangeArguments := do
  let (given, rest) ← readOptions ["database", "ddl", "source", "position"] arguments
  finished rest
  let database ← optional "database" given
  let ddl ← required "ddl" given
  let source ← attributes "source" given
  let position ← attributes "position" given
  return ⟨database, ddl, source, position⟩

/-- Reads the name of a command and what it is told. -/
def readCommand : List String → Except UsageError Command
  | [] => .error .noCommand
  | name :: rest =>
    if name = "record" then (readChange rest).map .record
    else if name = "recover" then do
      let (_, rest) ← readOptions [] rest
      finished rest
      return .recover
    else .error (.unexpected name)

/-- Reads all arguments. -/
def read (arguments : List String) : Except UsageError Arguments := do
  let (given, rest) ← readOptions ["config", "dir"] arguments
  let command ← readCommand rest
  let config ← path "config" given
  let directory ← path "dir" given
  return ⟨config, directory, command⟩

end Arguments

end SchemaHistory
