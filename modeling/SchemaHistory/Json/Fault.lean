import SchemaHistory.Json.Writer
import SchemaHistory.Text.Quoted
import SchemaHistory.Text.Utf8

/-!
# What can be wrong with a JSON text

A fault has a cause and a position. Readers work on the text that is still unread, so a
fault carries the rest of the text and how many bytes of that rest count as seen; line
and column are worked out once, at the end, from the whole text. Columns count bytes.
-/

namespace SchemaHistory.Json

open Decimal

/-- What stood where a value of another kind was wanted. -/
inductive Found
  | null
  | boolean (b : Bool)
  | number (n : Number)
  | string (s : String)
  /-- A list, which is not looked into. -/
  | sequence
  /-- An object, which is not looked into. -/
  | map

/-- Why a text was refused. -/
inductive Cause
  /-- The text ends where a value or the rest of one is missing. -/
  | unfinishedValue
  | unfinishedList
  | unfinishedObject
  /-- The text ends inside a text between quotes. -/
  | unfinishedString
  /-- No value starts like this. -/
  | noValue
  /-- A word that starts like `true`, `false` or `null` and is none of them. -/
  | noWord
  | noColon
  | noCommaInList
  | noCommaInObject
  /-- A member does not start with a quote. -/
  | keyNotText
  /-- A comma stands before a closing bracket. -/
  | trailingComma
  | trailingText
  /-- A number breaks off or has a leading zero. -/
  | badNumber
  /-- A number is larger than every double. -/
  | numberTooLarge
  | badEscape
  /-- Half of a surrogate pair. -/
  | loneSurrogate
  /-- The first half of a surrogate pair has no second escape behind it. -/
  | missingSurrogate
  /-- A control character stands in a text. -/
  | controlCharacter
  | tooDeep
  /-- A value of another kind was wanted. -/
  | mismatch (found : Found) (wanted : String)
  | missingField (name : String)
  | repeatedField (name : String)
  /-- A list has too few items. -/
  | wrongLength (length : Nat) (wanted : String)

/-- How a message names what was found. -/
def Found.text : Found → String
  | null => "null"
  | boolean true => "boolean `true`"
  | boolean false => "boolean `false`"
  | number (.integer i h) => "integer `" ++ String.ofList (writeNumber (.integer i h)) ++ "`"
  | number (.double d) => "floating point `" ++ String.ofList (writeNumber (.double d)) ++ "`"
  | string s => "string " ++ Text.quoted s
  | sequence => "sequence"
  | map => "map"

/-- The wording of a cause. -/
def Cause.text : Cause → String
  | unfinishedValue => "EOF while parsing a value"
  | unfinishedList => "EOF while parsing a list"
  | unfinishedObject => "EOF while parsing an object"
  | unfinishedString => "EOF while parsing a string"
  | noValue => "expected value"
  | noWord => "expected ident"
  | noColon => "expected `:`"
  | noCommaInList => "expected `,` or `]`"
  | noCommaInObject => "expected `,` or `\x7d`"
  | keyNotText => "key must be a string"
  | trailingComma => "trailing comma"
  | trailingText => "trailing characters"
  | badNumber => "invalid number"
  | numberTooLarge => "number out of range"
  | badEscape => "invalid escape"
  | loneSurrogate => "lone leading surrogate in hex escape"
  | missingSurrogate => "unexpected end of hex escape"
  | controlCharacter => "control character (\\u0000-\\u001F) found while parsing a string"
  | tooDeep => "recursion limit exceeded"
  | mismatch found wanted => "invalid type: " ++ found.text ++ ", expected " ++ wanted
  | missingField name => "missing field `" ++ name ++ "`"
  | repeatedField name => "duplicate field `" ++ name ++ "`"
  | wrongLength n wanted => "invalid length " ++ toString n ++ ", expected " ++ wanted

/-- A cause at a place: `rest` was unread, and `seen` bytes of it count as seen. -/
structure Fault where
  cause : Cause
  /-- The unread text. -/
  rest : List Char
  /-- The bytes at the head of the unread text that are counted too. -/
  seen : Nat

/-- A fault behind everything read so far. -/
def Fault.behind (cause : Cause) (rest : List Char) : Fault := ⟨cause, rest, 0⟩

/-- A fault at the next byte, which is counted if there is one. -/
def Fault.next (cause : Cause) (rest : List Char) : Fault := ⟨cause, rest, 1⟩

/-- A fault with its place in the whole text. -/
structure Error where
  cause : Cause
  /-- The line, from one. -/
  line : Nat
  /-- The bytes of that line that were seen. -/
  column : Nat

/-- Line and column behind the first `offset` bytes of `text`, where `line` and `column` are
those before it. -/
def placeFrom (line column : Nat) : Nat → List Char → Nat × Nat
  | 0, _ => (line, column)
  | _ + 1, [] => (line, column)
  | offset + 1, c :: rest =>
    if offset + 1 < c.utf8Size then (line, column + (offset + 1))
    else if c = '\n' then placeFrom (line + 1) 0 (offset + 1 - c.utf8Size) rest
    else placeFrom line (column + c.utf8Size) (offset + 1 - c.utf8Size) rest

/-- The place of a fault in the text it was found in. -/
def Fault.locate (text : List Char) (f : Fault) : Error :=
  let total := Text.byteCount text
  let offset := min total (total - Text.byteCount f.rest + f.seen)
  let (line, column) := placeFrom 1 0 offset text
  ⟨f.cause, line, column⟩

/-- The wording of an error. -/
def Error.message (e : Error) : String :=
  e.cause.text ++ " at line " ++ toString e.line ++ " column " ++ toString e.column

end SchemaHistory.Json
