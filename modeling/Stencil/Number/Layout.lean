import Stencil.Number.Shortest
import Stencil.Number.Integral

/-!
# How numbers are written

A format for numbers is one record: the range of decimal exponents it writes
positionally, whether a whole value keeps a fraction, which way a tie between
two shortest decimals goes, and the texts of the values that have no digits.
`Layout.write` is the printer of all of them. `fixed` writes a set number of
decimal places instead.
-/

namespace Stencil.Number

structure Layout where
  /-- The least exponent of the first digit that is written positionally, if
  there is one. -/
  least : Option Int
  /-- The greatest exponent of the first digit that is written positionally, if
  there is one. -/
  greatest : Option Int
  /-- Whether a positional whole number ends in a zero place. -/
  keepsPoint : Bool
  /-- Which way a tie between two shortest decimals goes. -/
  tie : Tie
  signedZero : Bool
  nanText : Text
  infinityText : Text

namespace Layout

/-- Numbers as expressions turn them into text: positional from `1e-6` up to
below `1e21`, and zero has no sign. -/
def standard : Layout :=
  { least := some (-6), greatest := some 20, keepsPoint := false, tie := .away
    signedZero := false, nanText := "NaN".toList, infinityText := "Infinity".toList }

/-- Floating numbers in JSON: positional from `1e-5` up to below `1e16`, and a
whole number ends in `.0`. -/
def json : Layout :=
  { least := some (-5), greatest := some 15, keepsPoint := true, tie := .toEven
    signedZero := true, nanText := "null".toList, infinityText := "null".toList }

/-- Numbers in syntax errors: always positional. -/
def plain : Layout :=
  { least := none, greatest := none, keepsPoint := false, tie := .away
    signedZero := true, nanText := "NaN".toList, infinityText := "inf".toList }

def isPositional (l : Layout) (exponent : Int) : Bool :=
  l.least.all (· ≤ exponent) && l.greatest.all (exponent ≤ ·)

end Layout

def zeros (n : Nat) : Text :=
  List.replicate n '0'

/-- Digits with a decimal point after the first `position` of them, filled up
with zeros on either side. -/
def positional (keepsPoint : Bool) (ds : Text) (position : Int) : Text :=
  if position ≤ 0 then '0' :: '.' :: zeros (-position).toNat ++ ds
  else if ds.length ≤ position.toNat then
    ds ++ zeros (position.toNat - ds.length) ++ if keepsPoint then ['.', '0'] else []
  else ds.take position.toNat ++ '.' :: ds.drop position.toNat

/-- Digits with a point after the first, and the exponent of the first. -/
def scientific (ds : Text) (exponent : Int) : Text :=
  let mantissa :=
    match ds with
    | [] => []
    | [d] => [d]
    | d :: rest => d :: '.' :: rest
  let sign := if exponent < 0 then '-' else '+'
  mantissa ++ 'e' :: sign :: decimal exponent.natAbs

def signed (negative : Bool) (t : Text) : Text :=
  if negative then '-' :: t else t

namespace Layout

def writeMagnitude (l : Layout) (d : Dyadic) : Text :=
  if d.mantissa = 0 then if l.keepsPoint then ['0', '.', '0'] else ['0']
  else
    let short := shortest l.tie d
    let ds := decimal short.coefficient
    let position := ds.length + short.exponent
    if l.isPositional (position - 1) then positional l.keepsPoint ds position
    else scientific ds (position - 1)

def write (l : Layout) (x : Float) : Text :=
  match parts x with
  | .nan => l.nanText
  | .infinite negative => signed negative l.infinityText
  | .finite d => signed (d.negative && (l.signedZero || d.mantissa ≠ 0)) (l.writeMagnitude d)

end Layout

def format (x : Float) : Text :=
  Layout.standard.write x

/-- A finite value with a set number of decimal places: the exact value
rounded, a tie to the even neighbour. The sign stays, of zero as well. -/
def fixed (places : Nat) (d : Dyadic) : Text :=
  let n := roundDiv .toEven (d.mantissa * Nat.pow 2 d.exponent.toNat * Nat.pow 10 places) d.unit
  let ds := decimal n
  let ds := zeros (places + 1 - ds.length) ++ ds
  let whole := ds.take (ds.length - places)
  signed d.negative
    (if places = 0 then whole else whole ++ '.' :: ds.drop (ds.length - places))

/-- A whole value in a base up to 36; `limit` is the greatest magnitude written
exactly, and a greater one is written as `limit`. -/
def inBase (base limit : Nat) (d : Dyadic) : Text :=
  signed (d.negative && d.mantissa ≠ 0) (numeral base (min limit d.wholePart))

end Stencil.Number
