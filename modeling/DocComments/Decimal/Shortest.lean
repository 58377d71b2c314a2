import DocComments.Decimal.Binary64

/-!
# Shortest decimals

The fewest decimal digits that read back as a given binary number. The reals that round to a
number form an interval around it, whose ends belong to it when the significand is even. For one,
two, up to seventeen digits, the two neighbours of the number on the decimal grid of that many
digits are tried; the first grid with a neighbour in the interval gives the digits.

All arithmetic is exact: the magnitude is the fraction `4 · significand / scale`, counted in
quarters of the last binary place, so that both ends of the interval are whole as well.
-/

namespace DocComments.Decimal

/-- A positive decimal `0.digits · 10 ^ point`; the first digit is not zero. -/
structure Digits where
  digits : List Char
  point : Int
deriving Repr

namespace Shortest

/-- A magnitude with the interval of reals that round to it, all over one denominator. -/
structure Interval where
  low : Nat
  value : Nat
  high : Nat
  scale : Nat
  closed : Bool

/-- The rounding interval of a finite, non-zero magnitude. -/
def Interval.ofParts (significand exponent : Nat) : Interval :=
  let up := powerOfTwo (exponent - 1077)
  let down := powerOfTwo (1077 - exponent)
  let narrow := significand = powerOfTwo 52 ∧ 1 < exponent
  { low := (4 * significand - if narrow then 1 else 2) * up
    value := 4 * significand * up
    high := (4 * significand + 2) * up
    scale := down
    closed := significand % 2 = 0 }

/-- Does `n · scale` lie in the interval, everything scaled by `factor`? -/
def Interval.admits (i : Interval) (factor unit n : Nat) : Bool :=
  let x := n * i.scale * unit
  if i.closed then i.low * factor ≤ x && x ≤ i.high * factor
  else i.low * factor < x && x < i.high * factor

/-- The least `point` with `value < 10 ^ point`, searched upwards from `start`. -/
def Interval.pointFrom (i : Interval) : Nat → Int → Int
  | 0, point => point
  | fuel + 1, point =>
    if i.value * powerOfTen (-point).toNat < i.scale * powerOfTen point.toNat then point
    else i.pointFrom fuel (point + 1)

/-- The nearer neighbour of the value on the grid of `count` digits, if one is in the interval. -/
def Interval.onGrid (i : Interval) (point : Int) (count : Nat) : Option Nat :=
  let factor := powerOfTen (count - point).toNat
  let unit := powerOfTen (point - count).toNat
  let below := i.value * factor / (i.scale * unit)
  let remainder := i.value * factor % (i.scale * unit)
  match i.admits factor unit below, i.admits factor unit (below + 1) with
  | true, true =>
    if 2 * remainder < i.scale * unit ∨ (2 * remainder = i.scale * unit ∧ below % 2 = 0) then
      some below
    else some (below + 1)
  | true, false => some below
  | false, true => some (below + 1)
  | false, false => none

end Shortest

/-- The digits of a whole number without the zeros at its end. -/
def significantDigits (n : Nat) : List Char :=
  ((Nat.toDigits 10 n).reverse.dropWhile (· == '0')).reverse

/-- The fewest digits that read back as the finite, non-zero number. -/
def shortest (x : Binary64) : Digits :=
  let (significand, exponent) := x.parts
  let i := Shortest.Interval.ofParts significand exponent
  let point := i.pointFrom 700 (-330)
  let hit := (List.range 17).findSome? fun k => (i.onGrid point (k + 1)).map (·, k + 1)
  match hit with
  | some (n, count) =>
    { digits := significantDigits n
      point := if n = powerOfTen count then point + 1 else point }
  | none => { digits := [], point }

end DocComments.Decimal
