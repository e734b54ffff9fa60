import SchemaHistory.Decimal.Double
import SchemaHistory.Text.Value

/-!
# The shortest decimal of a double

A double stands for all reals that round to it. The shortest decimal is the one with the
fewest digits among those reals, and of these the one nearest to the double itself. The
search goes through the decimal grids from coarse to fine: on each grid only the two
neighbours of the value can be in the interval, and the first grid with a hit has the
fewest digits.

The digits of the shortest decimal are written positionally, with a point and at least
one digit on both sides of it, while the leading digit's power of ten lies in a given
range. Outside of it they are written with the point behind the leading digit, if there
is more than one, and a signed power of ten.
-/

namespace SchemaHistory.Decimal

/-- The decimal `coefficient · 10 ^ exponent`. -/
structure Numeral where
  /-- The digits, as one number. -/
  coefficient : Nat
  /-- The power of ten that the last digit counts. -/
  exponent : Int
  deriving DecidableEq

/-- A double's value and the ends of the interval that rounds to it, as numbers of quarters of
`unit / den`. -/
structure Interval where
  /-- Four times the mantissa. -/
  value : Nat
  /-- The lower end, half a step below; a quarter where the steps below are half as long. -/
  low : Nat
  /-- The upper end, half a step above. -/
  high : Nat
  /-- The ends round to an even mantissa. -/
  closed : Bool

/-- The interval of the doubles' reals around `mantissa · 2 ^ exponent`. -/
def interval (mantissa : Nat) (exponent : Int) : Interval where
  value := 4 * mantissa
  low := if mantissa = leastFull ∧ exponent ≠ -1074 then 4 * mantissa - 1 else 4 * mantissa - 2
  high := 4 * mantissa + 2
  closed := mantissa % 2 = 0

/-- `x / 4` of the unit lies in the interval, ends included when it is closed. -/
def Interval.holds (i : Interval) (x unit : Nat) : Bool :=
  let low := i.low * unit
  let high := i.high * unit
  if i.closed then low ≤ x && x ≤ high else low < x && x < high

/-- The multiple of `10 ^ p` in the interval that is nearest to `mantissa · 2 ^ exponent`, a tie
going to the even multiple. -/
def onGrid (mantissa : Nat) (exponent p : Int) (i : Interval) : Option Nat :=
  let unit := powTwo exponent.toNat * powTen (-p).toNat
  let den := powTwo (-exponent).toNat * powTen p.toNat
  let below := mantissa * unit / den
  let above := below + 1
  match i.holds (4 * below * den) unit, i.holds (4 * above * den) unit with
  | true, true => some (roundDiv (mantissa * unit) den)
  | true, false => some below
  | false, true => some above
  | false, false => none

/-- The first hit on the grids `10 ^ p`, `10 ^ (p - 1)`, …, of which `grids` are tried; on the
last one the value is cut off. -/
def searchGrids (mantissa : Nat) (exponent : Int) (i : Interval) : Nat → Int → Numeral
  | 0, p =>
    ⟨mantissa * (powTwo exponent.toNat * powTen (-p).toNat)
        / (powTwo (-exponent).toNat * powTen p.toNat), p⟩
  | grids + 1, p =>
    match onGrid mantissa exponent p i with
    | some n => ⟨n, p⟩
    | none => searchGrids mantissa exponent i grids (p - 1)

/-- The same decimal without zeros at its end. -/
def Numeral.strip (d : Numeral) : Numeral :=
  if h : d.coefficient ≠ 0 ∧ d.coefficient % 10 = 0 then
    strip ⟨d.coefficient / 10, d.exponent + 1⟩
  else d
termination_by d.coefficient
decreasing_by exact Nat.div_lt_self (Nat.pos_of_ne_zero h.1) (by decide)

/-- The shortest decimal of a double's magnitude. The first grid is one above the leading digit,
for which three tenths of the number of bits are a bound, and seventeen digits always suffice. -/
def Double.shortest (d : Double) : Numeral :=
  if d.mantissa = 0 then ⟨0, 0⟩
  else
    let bits : Int := d.exponent + d.mantissa.log2 + 1
    let top : Int := bits * 30103 / 100000 + 1
    (searchGrids d.mantissa d.exponent (interval d.mantissa d.exponent) 22 top).strip

/-! ## How a double is spelled -/

/-- The powers of ten of the leading digit for which a number is written positionally. -/
structure Layout where
  /-- The least one. -/
  leastPositional : Int
  /-- The first one past them. -/
  endPositional : Int

/-- Digits around a point: `e` is the power of ten of the leading digit. -/
def positional (digits : List Char) (e : Int) : List Char :=
  if e < 0 then ['0', '.'] ++ List.replicate (-e - 1).toNat '0' ++ digits
  else
    let whole := e.toNat + 1
    if digits.length ≤ whole then
      digits ++ List.replicate (whole - digits.length) '0' ++ ['.', '0']
    else digits.take whole ++ '.' :: digits.drop whole

/-- Digits with the point behind the first one, then the power of ten of that digit. -/
def scientific (digits : List Char) (e : Int) : List Char :=
  let sign := if e < 0 then '-' else '+'
  let power := 'e' :: sign :: Text.ofNat e.natAbs
  match digits with
  | first :: second :: rest => first :: '.' :: second :: rest ++ power
  | short => short ++ power

/-- The spelling of a decimal without sign. -/
def Layout.spell (l : Layout) (d : Numeral) : List Char :=
  let digits := Text.ofNat d.coefficient
  let e := d.exponent + digits.length - 1
  if l.leastPositional ≤ e ∧ e < l.endPositional then positional digits e
  else scientific digits e

/-- The spelling of a double: a sign, which zero has too, and its shortest decimal. -/
def Layout.double (l : Layout) (d : Double) : List Char :=
  let magnitude := l.spell d.shortest
  if d.negative then '-' :: magnitude else magnitude

end SchemaHistory.Decimal
