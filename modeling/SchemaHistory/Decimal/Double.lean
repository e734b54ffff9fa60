/-!
# Doubles

A finite double is `± mantissa · 2 ^ exponent` with a mantissa of at most 53 bits. Every
operation here is exact arithmetic on naturals followed by one rounding to the nearest
double, a tie going to the even mantissa, so nothing depends on a machine. There is no
infinity and no NaN: an operation whose result is too large has none.
-/

namespace SchemaHistory.Decimal

/-- A power of two. -/
def powTwo (k : Nat) : Nat := Nat.pow 2 k

/-- A power of ten. -/
def powTen (k : Nat) : Nat := Nat.pow 10 k

/-- The least number of 53 bits, which is the 52nd power of two. -/
def leastFull : Nat := 0x10000000000000

/-- The form in which each magnitude is written once: a mantissa of exactly 53 bits, or of
fewer at the least exponent. -/
def Canonical (mantissa : Nat) (exponent : Int) : Prop :=
  mantissa < 2 * leastFull ∧ -1074 ≤ exponent ∧ exponent ≤ 971 ∧
    (leastFull ≤ mantissa ∨ exponent = -1074)

instance (m : Nat) (q : Int) : Decidable (Canonical m q) :=
  inferInstanceAs (Decidable (_ ∧ _ ∧ _ ∧ (_ ∨ _)))

/-- A finite double. Zero has a sign. -/
structure Double where
  /-- The sign, which zero has too. -/
  negative : Bool
  /-- The digits of the magnitude, to base two. -/
  mantissa : Nat
  /-- The power of two that the mantissa counts. -/
  exponent : Int
  /-- Each magnitude has one form. -/
  canonical : Canonical mantissa exponent
  deriving DecidableEq

namespace Double

/-- Positive zero. -/
def zero : Double := ⟨false, 0, -1074, by decide⟩

/-- The same magnitude with the sign turned. -/
def neg (d : Double) : Double := { d with negative := !d.negative }

/-- A double from its parts. The only parts that fail are too large. -/
def ofParts (negative : Bool) (mantissa : Nat) (exponent : Int) : Option Double :=
  if h : Canonical mantissa exponent then some ⟨negative, mantissa, exponent, h⟩ else none

/-- Equality of values: the two zeros are one value. -/
def sameValue (a b : Double) : Bool :=
  a.mantissa == b.mantissa && a.exponent == b.exponent &&
    (a.negative == b.negative || a.mantissa == 0)

end Double

/-- The quotient rounded to the nearest natural, a tie to the even one. -/
def roundDiv (num den : Nat) : Nat :=
  let k := num / den
  let r := num % den
  if 2 * r < den ∨ (2 * r = den ∧ k % 2 = 0) then k else k + 1

/-- The exponent of the doubles next to `num / den`: such that the mantissa has 53 bits, or the
least one there is. -/
def gridExponent (num den : Nat) : Int :=
  let guess : Int := (num.log2 : Int) - den.log2
  let floorLog : Int :=
    if num * powTwo (-guess).toNat < den * powTwo guess.toNat then guess - 1 else guess
  max (floorLog - 52) (-1074)

namespace Double

/-- The double nearest to `± num / den`, unless the magnitude is past the largest one. -/
def nearest (negative : Bool) (num den : Nat) : Option Double :=
  if num = 0 then some { zero with negative }
  else
    let q := gridExponent num den
    let m := roundDiv (num * powTwo (-q).toNat) (den * powTwo q.toNat)
    if m = 2 * leastFull then ofParts negative leastFull (q + 1) else ofParts negative m q

/-- The double nearest to the product. -/
def mul (a b : Double) : Option Double :=
  let q := a.exponent + b.exponent
  nearest (a.negative != b.negative) (a.mantissa * b.mantissa * powTwo q.toNat)
    (powTwo (-q).toNat)

/-- The double nearest to the quotient; the divisor is not zero. -/
def div (a b : Double) : Option Double :=
  let q := a.exponent - b.exponent
  nearest (a.negative != b.negative) (a.mantissa * powTwo q.toNat)
    (b.mantissa * powTwo (-q).toNat)

/-- The double nearest to a power of ten. -/
def tenPower (k : Nat) : Option Double := nearest false (powTen k) 1

/-- The double for `f · 10 ^ x`, computed by one product or quotient with a power of ten, which
is rounded itself. Powers past `10 ^ 308` are no doubles: a larger product is too large unless
`f` is zero, and a smaller quotient is taken in steps. -/
def scaleTen (f : Double) (x : Int) : Option Double :=
  if x.natAbs ≤ 308 then
    (tenPower x.natAbs).bind fun p => if 0 ≤ x then f.mul p else f.div p
  else if f.mantissa = 0 then some f
  else if 0 ≤ x then none
  else ((tenPower 308).bind f.div).bind fun g => g.scaleTen (x + 308)
termination_by (-x).toNat

/-- The double read from a significand and a power of ten. The significand is rounded first, so
the result can differ from the double nearest to the decimal. -/
def ofDecimal (significand : Nat) (x : Int) : Option Double :=
  (nearest false significand 1).bind (scaleTen · x)

end Double

end SchemaHistory.Decimal
