import SchemaHistory.CommandLine.Failure
import SchemaHistory.Files.Tree
import SchemaHistory.Json.Expected
import SchemaHistory.Json.Writer

/-!
# Properties in a file

The properties of a history come from a file that holds one JSON object. A property is a
text; a number or a truth value stands for the text it is written as, and any other value
is refused. Of several such values the one under the smallest key is named.
-/

namespace SchemaHistory

/-- Why a file gives no properties. -/
inductive PropertyFileError
  /-- The system does not give the file. -/
  | unreadable (error : SystemError)
  /-- The file is no text. -/
  | notText
  | malformed (error : Json.Error)
  /-- A value that a property cannot have. -/
  | notScalar (key : String) (value : Json)

/-- The error as a failure, for a file that goes by the name `path`. -/
def PropertyFileError.failure (path : String) : PropertyFileError → Failure
  | unreadable e => (Failure.plain e.message).within ("reading config " ++ path)
  | notText =>
    (Failure.plain "stream did not contain valid UTF-8").within ("reading config " ++ path)
  | malformed e => (Failure.plain e.message).within ("parsing config " ++ path)
  | notScalar key value =>
    .plain ("property `" ++ key ++ "` must be a string, number or boolean, got " ++ value.text)

namespace PropertyFile

/-- The text of a property with a value. -/
def textOf : Json → Option String
  | .string s => some s
  | .number n => some (Json.number n).text
  | .boolean b => some (Json.boolean b).text
  | _ => none

/-- The texts of values under keys, or the first value that has none. -/
def textsOf : List (String × Json) → Except PropertyFileError (List (String × String))
  | [] => .ok []
  | (key, value) :: rest =>
    match textOf value with
    | none => .error (.notScalar key value)
    | some text => (textsOf rest).map ((key, text) :: ·)

/-- The properties in a text. -/
def parse (text : List Char) : Except PropertyFileError Properties :=
  match Json.readPairs text with
  | .error e => .error (.malformed e)
  | .ok pairs => (textsOf (KeyMap.ofPairs pairs).entries).map KeyMap.ofPairs

/-- The properties in a file, from what the system gives for it. -/
def read (contents : Except SystemError Text.Bytes) : Except PropertyFileError Properties :=
  match contents with
  | .error e => .error (.unreadable e)
  | .ok bytes =>
    match Text.decode? bytes with
    | none => .error .notText
    | some text => parse text

end PropertyFile

end SchemaHistory
