import Stencil.Number.Binary
import Stencil.Number.Digits

/-!
# Shortest decimals

Every decimal in a certain interval around a double reads back as that double.
`shortest` gives the decimal of the fewest digits in that interval, and of those
the nearest to the double. It tests the value's two neighbours on the grids of
one, two, up to seventeen digits, with exact arithmetic: if a point of a grid
lies in the interval, so does one of those two. What happens to a tie between
the two is the format's choice.
-/

namespace Stencil.Number

/-- The value `coefficient * 10 ^ exponent`. -/
structure Decimal where
  coefficient : Nat
  exponent : Int
deriving Repr, DecidableEq

namespace Decimal

/-- The same value with a coefficient that does not end in zero, after at most
`fuel` divisions. -/
def stripZeros : (fuel : Nat) → Decimal → Decimal
  | 0, d => d
  | fuel + 1, d =>
      if d.coefficient ≠ 0 ∧ d.coefficient % 10 = 0 then
        stripZeros fuel ⟨d.coefficient / 10, d.exponent + 1⟩
      else d

end Decimal

/-- A positive value and the interval of values that read back as it, all in
units of `1 / den`. -/
structure Neighbourhood where
  low : Nat
  value : Nat
  high : Nat
  den : Nat
  /-- Whether the ends of the interval belong to it. -/
  closed : Bool
deriving Repr

/-- The interval of reals that round to a positive double. Below a power of
two the doubles lie twice as dense. The ends round to the even neighbour. -/
def neighbourhood (d : Dyadic) : Neighbourhood :=
  let below := if d.mantissa = Nat.pow 2 fractionBits ∧ d.exponent ≠ leastExponent then 1 else 2
  let e := d.exponent - 2
  let scale := Nat.pow 2 e.toNat
  { low := (4 * d.mantissa - below) * scale
    value := 4 * d.mantissa * scale
    high := (4 * d.mantissa + 2) * scale
    den := Nat.pow 2 (-e).toNat
    closed := d.mantissa % 2 = 0 }

/-- How many zeros follow the point before the first digit of `num / den`, for
a quotient below one; `fuel` bounds the answer. -/
def leadingZeros : (fuel num den : Nat) → Nat
  | 0, _, _ => 0
  | fuel + 1, num, den => if den ≤ num * 10 then 0 else leadingZeros fuel (num * 10) den + 1

/-- The `p` with `10 ^ (p - 1) ≤ num / den < 10 ^ p`. -/
def decimalPosition (num den : Nat) : Int :=
  if den ≤ num then ((digits 10 (num / den)).length : Nat)
  else -(leadingZeros 400 num den : Nat)

namespace Neighbourhood

/-- Whether `coefficient * 10 ^ k` lies in the interval. -/
def contains (n : Neighbourhood) (k : Int) (coefficient : Nat) : Bool :=
  let point := coefficient * Nat.pow 10 k.toNat * n.den
  let unit := Nat.pow 10 (-k).toNat
  if n.closed then n.low * unit ≤ point ∧ point ≤ n.high * unit
  else n.low * unit < point ∧ point < n.high * unit

/-- The point of the grid of step `10 ^ k` that is nearest to the value among
the value's two neighbours in the interval. -/
def nearest? (n : Neighbourhood) (tie : Tie) (k : Int) : Option Nat :=
  let num := n.value * Nat.pow 10 (-k).toNat
  let den := n.den * Nat.pow 10 k.toNat
  let q := num / den
  match n.contains k q, n.contains k (q + 1) with
  | true, true => some (roundDiv tie num den)
  | true, false => some q
  | false, true => some (q + 1)
  | false, false => none

/-- The nearest point of the first grid that has one, for grids of `count`
digits and more, `fuel` of them. -/
def firstGrid (n : Neighbourhood) (tie : Tie) (position : Int) :
    (fuel count : Nat) → Decimal
  | 0, count => ⟨n.value * Nat.pow 10 count / n.den, -count⟩
  | fuel + 1, count =>
      let k := position - count
      match n.nearest? tie k with
      | some q => ⟨q, k⟩
      | none => firstGrid n tie position fuel (count + 1)

end Neighbourhood

/-- The nearest of the shortest decimals that read back as a positive double. -/
def shortest (tie : Tie) (d : Dyadic) : Decimal :=
  let n := neighbourhood d
  (n.firstGrid tie (decimalPosition n.value n.den) 17 1).stripZeros 18

end Stencil.Number
