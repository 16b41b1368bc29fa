import Stencil.Expr.Value

/-!
# Operators on values

`strictEq` compares without conversion, and containers by identity. `looseEq`
converts between numbers, texts, truth values and arrays first. Methods with
their receivers are never equal to anything, themselves included.
-/

namespace Stencil.Expr

def Function.same : Function → Function → Bool
  | closure a .., closure b .. => a = b
  | helper g, helper h => g = h
  | _, _ => false

namespace Value

def strictEq : Value → Value → Bool
  | undefined, undefined | null, null => true
  | bool a, bool b => a = b
  | number x, number y => x == y
  | string s, string t => s = t
  | array a _, array b _ => a = b
  | object a _, object b _ => a = b
  | function f, function g => f.same g
  | _, _ => false

def looseEq (v w : Value) : Bool :=
  if v.isNullish || w.isNullish then v.isNullish && w.isNullish
  else
    match v, w with
    | bool _, _ | _, bool _ => v.toNumber == w.toNumber
    | number _, string _ | string _, number _ => v.toNumber == w.toNumber
    | number _, array .. | array .., number _ => v.toNumber == w.toNumber
    | string s, array .. => s = w.toText
    | array .., string t => v.toText = t
    | _, _ => v.strictEq w

/-- Equality without conversion, where what is not a number equals itself. -/
def sameValue : Value → Value → Bool
  | number x, number y => x == y || Number.isNaN x && Number.isNaN y
  | v, w => v.strictEq w

def joinsAsText : Value → Bool
  | string _ | array .. | object .. | function _ => true
  | _ => false

/-- The sum: a text if either side joins as text, else a number. -/
def add (v w : Value) : Value :=
  if v.joinsAsText || w.joinsAsText then string (v.toText ++ w.toText)
  else number (v.toNumber + w.toNumber)

/-- The order of two values: texts by their characters, anything else as
numbers. What is not a number has no order. -/
def compare? : Value → Value → Option Ordering
  | string s, string t => some (if s < t then .lt else if s = t then .eq else .gt)
  | v, w =>
      let x := v.toNumber
      let y := w.toNumber
      if x < y then some .lt
      else if x == y then some .eq
      else if y < x then some .gt
      else none

end Value

def UnaryOp.apply (v : Value) : UnaryOp → Value
  | not => .bool !v.isTruthy
  | neg => .number (-v.toNumber)
  | plus => .number v.toNumber
  | typeof => .string v.kind

namespace BinaryOp

/-- Whether the left operand alone decides, and is the value. -/
def settledBy (left : Value) : BinaryOp → Bool
  | and => !left.isTruthy
  | or => left.isTruthy
  | nullish => !left.isNullish
  | _ => false

/-- The value of an operator with two operands, when the left one does not
settle it. -/
def apply (v w : Value) : BinaryOp → Value
  | add => v.add w
  | sub => .number (v.toNumber - w.toNumber)
  | mul => .number (v.toNumber * w.toNumber)
  | div => .number (v.toNumber / w.toNumber)
  | rem => .number (Number.remainder v.toNumber w.toNumber)
  | lt => .bool (v.compare? w = some .lt)
  | le => .bool (v.compare? w = some .lt || v.compare? w = some .eq)
  | gt => .bool (v.compare? w = some .gt)
  | ge => .bool (v.compare? w = some .gt || v.compare? w = some .eq)
  | strictEq => .bool (v.strictEq w)
  | strictNe => .bool !(v.strictEq w)
  | eq => .bool (v.looseEq w)
  | ne => .bool !(v.looseEq w)
  | and | or | nullish => w

end BinaryOp

end Stencil.Expr
