import SchemaHistory.Json.Basic
import SchemaHistory.Decimal.Shortest

/-!
# Writing JSON

A document is written compactly, without blanks or line breaks. In texts a quote, a
backslash and the controls are escaped and everything else stands as it is.
-/

namespace SchemaHistory.Json

open Decimal

/-- Doubles from a hundred-thousandth up to ten to the sixteenth are written positionally. -/
def doubleLayout : Layout := ⟨-5, 16⟩

example : (Double.ofDecimal 1 (-5)).map doubleLayout.double = some "0.00001".toList := by
  decide +kernel

example : (Double.ofDecimal 12 (-7)).map doubleLayout.double = some "1.2e-6".toList := by
  decide +kernel

example : (Double.ofDecimal 1 15).map doubleLayout.double = some "1000000000000000.0".toList := by
  decide +kernel

example : (Double.ofDecimal 1 16).map doubleLayout.double = some "1e+16".toList := by
  decide +kernel

/-- One character of a text, escaped where it must be. -/
def escaped (c : Char) : List Char :=
  if c = '"' then ['\\', '"']
  else if c = '\\' then ['\\', '\\']
  else if c = '\x08' then ['\\', 'b']
  else if c = '\x0c' then ['\\', 'f']
  else if c = '\n' then ['\\', 'n']
  else if c = '\r' then ['\\', 'r']
  else if c = '\t' then ['\\', 't']
  else if c.toNat < 0x20 then
    ['\\', 'u', '0', '0', Nat.digitChar (c.toNat / 16), Nat.digitChar (c.toNat % 16)]
  else [c]

/-- A text between quotes. -/
def writeString (s : String) : List Char := '"' :: s.toList.flatMap escaped ++ ['"']

/-- A number: an integer in decimal, a double by its shortest decimal. -/
def writeNumber : Number → List Char
  | .integer i _ => Text.ofInt i
  | .double d => doubleLayout.double d

mutual

/-- A value. -/
def write : Json → List Char
  | null => ['n', 'u', 'l', 'l']
  | boolean true => ['t', 'r', 'u', 'e']
  | boolean false => ['f', 'a', 'l', 's', 'e']
  | number n => writeNumber n
  | string s => writeString s
  | array items => '[' :: writeItems items ++ [']']
  | object members => '{' :: writeMembers members ++ ['}']

/-- The items of an array with commas between them. -/
def writeItems : List Json → List Char
  | [] => []
  | [v] => write v
  | v :: w :: rest => write v ++ ',' :: writeItems (w :: rest)

/-- The members of an object with commas between them. -/
def writeMembers : List (String × Json) → List Char
  | [] => []
  | [(k, v)] => writeString k ++ ':' :: write v
  | (k, v) :: m :: rest => writeString k ++ ':' :: write v ++ ',' :: writeMembers (m :: rest)

end

/-- The text of a value. -/
def text (v : Json) : String := .ofList v.write

end SchemaHistory.Json
