import SchemaHistory.Collections
import SchemaHistory.Decimal.Double

/-!
# JSON documents

The values of JSON with two refinements. A number is an integer of 64 bits or a finite
double, and never both. The members of an object stand in the order in which their keys
were first put in, so that a document is written the way it was built; equality of
contents does not look at that order.
-/

namespace SchemaHistory

open Decimal

/-- The integers a document can hold: those of 64 bits, signed or unsigned. -/
def FitsInteger (i : Int) : Prop := -0x8000000000000000 ≤ i ∧ i ≤ 0xFFFFFFFFFFFFFFFF

instance (i : Int) : Decidable (FitsInteger i) := inferInstanceAs (Decidable (_ ∧ _))

/-- A number in a document. -/
inductive Number
  /-- An integer of 64 bits. -/
  | integer (i : Int) (fits : FitsInteger i)
  /-- A finite double. -/
  | double (d : Double)
  deriving DecidableEq

/-- A JSON value. -/
inductive Json
  | null
  | boolean (b : Bool)
  | number (n : Number)
  | string (s : String)
  | array (items : List Json)
  /-- Keys with values, in the order in which the keys came. -/
  | object (members : List (String × Json))

/-- The members of an object. -/
abbrev Members := Assoc String Json

namespace Number

/-- Equality of values. An integer is never equal to a double. -/
def same : Number → Number → Bool
  | .integer i _, .integer j _ => i == j
  | .double a, .double b => a.sameValue b
  | _, _ => false

end Number

namespace Json

/-- How a message calls the kind of a value. -/
def kind : Json → String
  | null => "null"
  | boolean _ => "a boolean"
  | number _ => "a number"
  | string _ => "a string"
  | array _ => "an array"
  | object _ => "an object"

/-- The text, of a value that is one. -/
def text? : Json → Option String
  | string s => some s
  | _ => none

/-- The members, of a value that is an object. -/
def members? : Json → Option Members
  | object ms => some ms
  | _ => none

mutual

/-- Equality of contents: the order of an object's keys does not matter. -/
def same : Json → Json → Bool
  | null, null => true
  | boolean a, boolean b => a == b
  | number a, number b => a.same b
  | string a, string b => a == b
  | array xs, array ys => sameItems xs ys
  | object ms, object ns => ms.length == ns.length && sameMembers ms ns
  | _, _ => false

/-- Equality of contents, item by item. -/
def sameItems : List Json → List Json → Bool
  | [], [] => true
  | x :: xs, y :: ys => same x y && sameItems xs ys
  | _, _ => false

/-- Every member of the first list has an equal value under its key in the second. -/
def sameMembers : List (String × Json) → Members → Bool
  | [], _ => true
  | (k, v) :: rest, ns =>
    (match Assoc.get? ns k with
      | some w => same v w
      | none => false) && sameMembers rest ns

end

end Json

end SchemaHistory
