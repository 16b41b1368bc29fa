import Stencil.Expr.Eval

/-!
# Methods of numbers

`toFixed` writes a number with a set number of decimal places, and `toString` in
a base. A number that has no such form is written as usual.
-/

namespace Stencil.Expr

def mostPlaces : Nat := 100

/-- From here on a number has no decimal places. -/
def fixedLimit : Nat := Nat.pow 10 21

/-- The greatest magnitude that is written exactly in a base other than ten. -/
def greatestInBase : Nat := Nat.pow 2 128 - 1

/-- The greatest number that a base is read as. -/
def greatestBaseArgument : Nat := Nat.pow 2 32 - 1

def baseArgument (default : Nat) : Value → Nat
  | .undefined => default
  | v => Number.toNatWithin greatestBaseArgument v.toNumber

def fixedText (places : Nat) (x : Float) : Text :=
  match Number.parts x with
  | .finite d => if d.wholePart < fixedLimit then Number.fixed places d else Number.format x
  | _ => Number.format x

def baseText (base : Nat) (x : Float) : Text :=
  match Number.parts x with
  | .finite d =>
      if base ≠ 10 && d.isIntegral then Number.inBase base greatestInBase d else Number.format x
  | _ => Number.format x

namespace NumberMethod

def apply (x : Float) (args : List Value) (span : Span) (m : NumberMethod) : Eval Value :=
  match m with
  | toFixed =>
      let places :=
        match argument args 0 with
        | .undefined => Number.ofNat 0
        | v => v.toNumber
      if Number.ofNat 0 ≤ places && places ≤ Number.ofNat mostPlaces then
        return .string (fixedText (Number.toNatWithin mostPlaces places) x)
      else Eval.fail span .invalidPlaces
  | toText =>
      let base := baseArgument 10 (argument args 0)
      if 2 ≤ base && base ≤ Number.greatestBase then return .string (baseText base x)
      else Eval.fail span .invalidBase

end NumberMethod

end Stencil.Expr
