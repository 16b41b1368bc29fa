import Stencil.Number.Binary

/-!
# Integral parts

Rounding to integers, remainders and casts, read off the exact value of a
number. A result of zero keeps the sign that the exact value had.
-/

namespace Stencil.Number

namespace Dyadic

/-- The weight of the last place, as a divisor of the mantissa: one when the
value is an integer by its exponent alone. -/
def unit (d : Dyadic) : Nat :=
  Nat.pow 2 (-d.exponent).toNat

def wholePart (d : Dyadic) : Nat :=
  d.mantissa * Nat.pow 2 d.exponent.toNat / d.unit

def isIntegral (d : Dyadic) : Bool :=
  d.mantissa % d.unit = 0

def toInt (d : Dyadic) : Int :=
  if d.negative then -(d.wholePart : Int) else d.wholePart

end Dyadic

/-- Applies a rounding of finite values; other numbers stay as they are. -/
def mapFinite (f : Dyadic → Float) (x : Float) : Float :=
  match parts x with
  | .finite d => f d
  | _ => x

def trunc : Float → Float :=
  mapFinite fun d => ofRatio d.negative d.wholePart 1

def floor : Float → Float :=
  mapFinite fun d =>
    ofRatio d.negative (if d.negative && !d.isIntegral then d.wholePart + 1 else d.wholePart) 1

def ceil : Float → Float :=
  mapFinite fun d =>
    ofRatio d.negative (if !d.negative && !d.isIntegral then d.wholePart + 1 else d.wholePart) 1

/-- Whether the number is finite and has no fraction. -/
def isIntegral (x : Float) : Bool :=
  match parts x with
  | .finite d => d.isIntegral
  | _ => false

/-- The remainder of a division whose quotient is truncated; it has the sign
of the dividend. -/
def remainder (x y : Float) : Float :=
  match parts x, parts y with
  | .finite a, .finite b =>
      if b.mantissa = 0 then nan
      else
        let e := min a.exponent b.exponent
        let m :=
          a.mantissa * Nat.pow 2 (a.exponent - e).toNat %
            (b.mantissa * Nat.pow 2 (b.exponent - e).toNat)
        ofDyadic ⟨a.negative, m, e⟩
  | .finite _, .infinite _ => x
  | _, _ => nan

/-- The integer part of a number, at least zero and at most `limit`; zero for
what is not a number. -/
def toNatWithin (limit : Nat) (x : Float) : Nat :=
  match parts x with
  | .nan => 0
  | .infinite negative => if negative then 0 else limit
  | .finite d => if d.negative then 0 else min limit d.wholePart

/-- The integer part of a number, between `-limit` and `limit`; zero for what is
not a number. -/
def toIntWithin (limit : Nat) (x : Float) : Int :=
  match parts x with
  | .nan => 0
  | .infinite negative => if negative then -(limit : Int) else limit
  | .finite d =>
      let n := min limit d.wholePart
      if d.negative then -(n : Int) else n

end Stencil.Number
