import Stencil.Expr.Eval
import Stencil.Number.Integral

/-!
# Positions from arguments

Methods take any value as a position. It is read as a number without its
fraction, what is not a number as zero, and positions before the start and after
the end are brought back into range or refused.
-/

namespace Stencil.Expr

/-- A position in something of a length, between zero and the length. A negative
number counts from the end, and undefined gives the default. -/
def relativePosition (v : Value) (length default : Nat) : Nat :=
  match v with
  | .undefined => default
  | v =>
      let n := Number.toIntWithin length v.toNumber
      if n < 0 then (length + n).toNat else n.toNat

/-- The position of an item in something of a length, where a negative number
counts from the end. -/
def itemPosition? (v : Value) (length : Nat) : Option Nat :=
  let n := Number.toIntWithin (length + 1) v.toNumber
  let i := if n < 0 then length + n else n
  if 0 ≤ i && i < length then some i.toNat else none

/-- A position between zero and the length, where a negative number is zero and
undefined gives the default. -/
def clampedPosition (v : Value) (length default : Nat) : Nat :=
  match v with
  | .undefined => default
  | v => Number.toNatWithin length v.toNumber

def sliceItems {α : Type} (xs : List α) (start stop : Nat) : List α :=
  (xs.take stop).drop start

end Stencil.Expr
