/-!
# Binary floating-point numbers

A finite double is exactly `± mantissa * 2 ^ exponent`. `parts` reads that off
the bits of a number, and `ofRatio` goes back: it rounds a quotient of natural
numbers to the nearest double, a tie to the even one, with exact arithmetic and
one rounding. Everything else the library computes on numbers by other means
than `+`, `-`, `*` and `/` goes through these two.
-/

namespace Stencil.Number

/-- The value `± mantissa * 2 ^ exponent`. A zero keeps its sign. -/
structure Dyadic where
  negative : Bool
  mantissa : Nat
  exponent : Int
deriving Repr, DecidableEq

inductive Parts where
  | nan
  | infinite (negative : Bool)
  | finite (value : Dyadic)
deriving Repr, DecidableEq

def fractionBits : Nat := 52

/-- The exponent of the last place of the smallest doubles. -/
def leastExponent : Int := -1074

/-- The bits of infinity, above those of every finite magnitude. -/
def infinityBits : Nat := 0x7FF * Nat.pow 2 fractionBits

def signBits (negative : Bool) : Nat :=
  if negative then Nat.pow 2 63 else 0

def parts (x : Float) : Parts :=
  let bits := x.toBits.toNat
  let negative := Nat.pow 2 63 ≤ bits
  let biased := bits / Nat.pow 2 fractionBits % Nat.pow 2 11
  let fraction := bits % Nat.pow 2 fractionBits
  if biased = 0x7FF then
    if fraction = 0 then .infinite negative else .nan
  else if biased = 0 then .finite ⟨negative, fraction, leastExponent⟩
  else .finite ⟨negative, Nat.pow 2 fractionBits + fraction, leastExponent + (biased - 1 : Nat)⟩

/-- Which way a tie between two neighbours goes. -/
inductive Tie where
  | toEven
  | away
deriving Repr, DecidableEq

/-- The quotient of two natural numbers, rounded to the nearest integer. -/
def roundDiv (tie : Tie) (num den : Nat) : Nat :=
  let q := num / den
  let r := num % den
  if 2 * r < den then q
  else if den < 2 * r then q + 1
  else
    match tie with
    | .toEven => q + q % 2
    | .away => q + 1

/-- The quotient `num / (den * 2 ^ e)`, rounded to the nearest integer. -/
def roundScaled (num den : Nat) (e : Int) : Nat :=
  if 0 ≤ e then roundDiv .toEven num (den * Nat.pow 2 e.toNat)
  else roundDiv .toEven (num * Nat.pow 2 (-e).toNat) den

/-- The largest `e` with `2 ^ e ≤ num / den`, for positive numbers. -/
def binaryExponent (num den : Nat) : Int :=
  let e : Int := num.log2 - den.log2
  let reached := if 0 ≤ e then den * Nat.pow 2 e.toNat ≤ num else den ≤ num * Nat.pow 2 (-e).toNat
  if reached then e else e - 1

/-- The bits of the double nearest to `num / den`. The bits of neighbouring
magnitudes are neighbouring numbers, so a mantissa that rounds up to the next
power of two carries into the exponent by itself. -/
def magnitudeBits (num den : Nat) : Nat :=
  if num = 0 then 0
  else
    let e := max leastExponent (binaryExponent num den - fractionBits)
    min infinityBits (roundScaled num den e + (e - leastExponent).toNat * Nat.pow 2 fractionBits)

/-- The double nearest to `± num / den`. -/
def ofRatio (negative : Bool) (num den : Nat) : Float :=
  Float.ofBits (UInt64.ofNat (signBits negative + magnitudeBits num den))

def ofDyadic (d : Dyadic) : Float :=
  if 0 ≤ d.exponent then ofRatio d.negative (d.mantissa * Nat.pow 2 d.exponent.toNat) 1
  else ofRatio d.negative d.mantissa (Nat.pow 2 (-d.exponent).toNat)

def ofNat (n : Nat) : Float :=
  ofRatio false n 1

def ofInt (n : Int) : Float :=
  ofRatio (n < 0) n.natAbs 1

def nan : Float :=
  Float.ofBits 0x7FF8000000000000

def infinity (negative : Bool) : Float :=
  Float.ofBits (UInt64.ofNat (signBits negative + infinityBits))

def isNaN (x : Float) : Bool :=
  parts x = .nan

def isFinite (x : Float) : Bool :=
  match parts x with
  | .finite _ => true
  | _ => false

abbrev Finite := { x : Float // isFinite x = true }

def finite? (x : Float) : Option Finite :=
  if h : isFinite x = true then some ⟨x, h⟩ else none

end Stencil.Number
