import Stencil.Text.Basic

/-!
# Digits of natural numbers

`digits base n` writes `n` in a base, most significant digit first, and
`ofDigits base` reads digits back. The digits of zero are one zero.
`digitChar` is the character of a digit below 36.
-/

namespace Stencil.Number

/-- The digits of `n` with `fuel` of them at most, before the digits `acc`. -/
def digitsBefore (base : Nat) : (fuel n : Nat) → (acc : List Nat) → List Nat
  | 0, _, acc => acc
  | fuel + 1, n, acc =>
      let acc := n % base :: acc
      if n / base = 0 then acc else digitsBefore base fuel (n / base) acc

/-- The digits of `n` in a base of at least two, most significant first. -/
def digits (base n : Nat) : List Nat :=
  digitsBefore base (n.log2 + 1) n []

/-- The number that a list of digits denotes, most significant first. -/
def ofDigits (base : Nat) (ds : List Nat) : Nat :=
  ds.foldl (fun n d => n * base + d) 0

/-- The character of a digit below 36, in lower case. -/
def digitChar (d : Nat) : Char :=
  if d < 10 then Char.ofNat ('0'.toNat + d) else Char.ofNat ('a'.toNat + (d - 10))

/-- The digit that a character denotes in a base up to 36, in either case. -/
def digitValue? (base : Nat) (c : Char) : Option Nat :=
  let d :=
    if '0' ≤ c ∧ c ≤ '9' then c.toNat - '0'.toNat
    else if 'a' ≤ c ∧ c ≤ 'z' then c.toNat - 'a'.toNat + 10
    else if 'A' ≤ c ∧ c ≤ 'Z' then c.toNat - 'A'.toNat + 10
    else base
  if d < base then some d else none

def numeral (base n : Nat) : Text :=
  (digits base n).map digitChar

def decimal (n : Nat) : Text :=
  numeral 10 n

def decimalInt (n : Int) : Text :=
  if n < 0 then '-' :: decimal n.natAbs else decimal n.natAbs

end Stencil.Number
