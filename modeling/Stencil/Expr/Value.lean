import Stencil.Expr.Builtin
import Stencil.Expr.Tree
import Stencil.Number.Layout
import Stencil.Number.Numeral

/-!
# Values

A value is undefined, null, a truth value, a number, a text, an array, an object
or a function. Arrays, objects and arrow functions have an *identity*: two of
them are the same only if they come from one place, whatever they hold. Nothing
changes a value, so an identity is just a name for the place.

The conversions `toText`, `toNumber` and `isTruthy` are total; containers convert
by their items.
-/

namespace Stencil.Expr

/-- The place that an array, an object or an arrow function comes from. -/
inductive Identity where
  | bound (name : Text)
  /-- Made by an evaluation, which counts what it makes. -/
  | made (serial : Nat)
  | child (parent : Identity) (position : Nat)
deriving Repr, DecidableEq

mutual

inductive Value where
  | undefined
  | null
  | bool (b : Bool)
  | number (x : Float)
  | string (t : Text)
  | array (id : Identity) (items : List Value)
  | object (id : Identity) (fields : List (Text × Value))
  | function (f : Function)

inductive Function where
  /-- An arrow function with the frames of parameters around it, innermost
  first. -/
  | closure (id : Identity) (params : List Text) (body : Tree)
      (frames : List (List (Text × Value)))
  | helper (h : Helper)
  | method (m : Method)

inductive Method where
  | ofArray (m : ArrayMethod) (id : Identity) (items : List Value)
  | ofText (m : TextMethod) (t : Text)
  | ofNumber (m : NumberMethod) (x : Float)
  /-- The method that gives the text of another value. -/
  | describe (v : Value)

end

instance : Inhabited Value := ⟨.undefined⟩

/-- The parameters that an expression can see, innermost frame first. In a frame
the last parameter of a name comes first. -/
abbrev Frames := List (List (Text × Value))

namespace Value

def isNullish : Value → Bool
  | undefined | null => true
  | _ => false

def isTruthy : Value → Bool
  | undefined | null => false
  | bool b => b
  | number x => x != 0 && !Number.isNaN x
  | string t => t ≠ []
  | array .. | object .. | function _ => true

def kind : Value → Text
  | undefined => "undefined".toList
  | null | array .. | object .. => "object".toList
  | bool _ => "boolean".toList
  | number _ => "number".toList
  | string _ => "string".toList
  | function _ => "function".toList

mutual

def toText : Value → Text
  | undefined => "undefined".toList
  | null => "null".toList
  | bool b => if b then "true".toList else "false".toList
  | number x => Number.format x
  | string t => t
  | array _ items => List.intercalate [','] (itemTexts items)
  | object .. => "[object Object]".toList
  | function _ => "function".toList

/-- The items of an array as texts; undefined and null are empty. -/
def itemTexts : List Value → List Text
  | [] => []
  | v :: vs => (if v.isNullish then [] else v.toText) :: itemTexts vs

end

def toNumber : Value → Float
  | undefined | object .. | function _ => Number.nan
  | null => Number.ofNat 0
  | bool b => Number.ofNat b.toNat
  | number x => x
  | string t => Number.ofText t
  | array id items => Number.ofText (array id items).toText

end Value

end Stencil.Expr
