/-!
# Blank and integers in values

Names, topics and numbers are read after the blank at both ends has been cut off. A
character is blank when Unicode gives it the property `White_Space`, so the no-break
space and the ideographic space are blank while the zero-width space and the byte
order mark are not.

An integer is written as ASCII digits after an optional sign. Leading zeros are allowed
and the value has to lie in a given range. `-0` is a signed number only.
-/

namespace SchemaHistory.Text

/-! ## Blank -/

/-- The code points with the property `White_Space`, as closed ranges. -/
def blankRanges : List (Nat × Nat) :=
  [(0x09, 0x0D), (0x20, 0x20), (0x85, 0x85), (0xA0, 0xA0), (0x1680, 0x1680), (0x2000, 0x200A),
   (0x2028, 0x2029), (0x202F, 0x202F), (0x205F, 0x205F), (0x3000, 0x3000)]

/-- A code point lies in one of the ranges. -/
def inRanges (ranges : List (Nat × Nat)) (n : Nat) : Bool :=
  ranges.any fun r => r.1 ≤ n && n ≤ r.2

/-- A character Unicode counts as white space. -/
def isBlank (c : Char) : Bool := inRanges blankRanges c.toNat

/-- The text between the first and the last character that is not blank. -/
def trimChars (cs : List Char) : List Char :=
  ((cs.dropWhile isBlank).reverse.dropWhile isBlank).reverse

/-! ## Integers -/

/-- The value of an ASCII digit. -/
def digit? (c : Char) : Option Nat :=
  if '0' ≤ c ∧ c ≤ '9' then some (c.toNat - '0'.toNat) else none

/-- Reads digits behind those already read, whose value is `value`. -/
def digitsFrom? (value : Nat) : List Char → Option Nat
  | [] => some value
  | c :: cs => (digit? c).bind fun d => digitsFrom? (10 * value + d) cs

/-- The value of one or more ASCII digits. -/
def digits? : List Char → Option Nat
  | [] => none
  | cs => digitsFrom? 0 cs

/-- A number of at most `max`, with or without a plus sign. -/
def natural? (max : Nat) (cs : List Char) : Option Nat :=
  let unsigned := match cs with
    | '+' :: rest => rest
    | _ => cs
  (digits? unsigned).filter (· ≤ max)

/-- A number from `min` to `max`, with or without a sign. -/
def integer? (min max : Int) (cs : List Char) : Option Int :=
  let value : Option Int := match cs with
    | '+' :: rest => (digits? rest).map Int.ofNat
    | '-' :: rest => (digits? rest).map fun n => -(n : Int)
    | _ => (digits? cs).map Int.ofNat
  value.filter fun i => min ≤ i ∧ i ≤ max

/-- The decimal digits of a number, the only spelling without sign and leading zero. -/
def ofNat (n : Nat) : List Char := Nat.toDigits 10 n

/-- The decimal spelling of an integer: a minus sign only when it is negative. -/
def ofInt : Int → List Char
  | .ofNat n => ofNat n
  | .negSucc n => '-' :: ofNat (n + 1)

end SchemaHistory.Text
