import Stencil.Expr.Value
import Stencil.Bindings

/-!
# Properties of values

A property is a length, an item at a position, a field, or a method with its
receiver. A value has no other properties: they are undefined. Undefined and
null have no properties at all, and reading one of theirs fails elsewhere.
-/

namespace Stencil.Expr

/-- The position that a key denotes: digits without needless zeros. -/
def position? (key : Text) : Option Nat :=
  if key ≠ [] && key.all Number.isDigit && (key = ['0'] || key.head? ≠ some '0') then
    some (Number.readDigits key)
  else none

def lengthName : Text := "length".toList

namespace Value

def ofMethod? (m : Option Method) : Value :=
  (m.map fun m => function (.method m)).getD undefined

def describeUnder (v : Value) (key : Text) : Value :=
  if key = toTextName.toList then function (.method (.describe v)) else undefined

def property (v : Value) (key : Text) : Value :=
  match v with
  | array id items =>
      if key = lengthName then number (Number.ofNat items.length)
      else
        match position? key with
        | some i => items[i]?.getD undefined
        | none => ofMethod? ((withName? ArrayMethod.named key).map (.ofArray · id items))
  | string t =>
      if key = lengthName then number (Number.ofNat t.length)
      else
        match position? key with
        | some i => (t[i]?.map fun c => string [c]).getD undefined
        | none => ofMethod? ((withName? TextMethod.named key).map (.ofText · t))
  | object id fields =>
      match Bindings.get? fields key with
      | some w => w
      | none => (object id fields).describeUnder key
  | number x => ofMethod? ((withName? NumberMethod.named key).map (.ofNumber · x))
  | bool b => (bool b).describeUnder key
  | function _ | undefined | null => undefined

/-- The keys and values of a value with items or fields. -/
def entries : Value → List (Text × Value)
  | object _ fields => fields
  | array _ items => items.zipIdx.map fun p => (Number.decimal p.2, p.1)
  | string t => t.zipIdx.map fun p => (Number.decimal p.2, string [p.1])
  | _ => []

end Value

end Stencil.Expr
