import Stencil.Bindings
import Stencil.Number.Integral

/-!
# JSON values

A JSON number is an integer or a finite floating number, and stays what it is: `1`
and `1.0` are different values with different texts. An object keeps the order of
its fields. `Json.same` is equality up to the order of fields.
-/

namespace Stencil

inductive JsonNumber where
  | int (n : Int)
  | float (x : Number.Finite)

inductive Json where
  | null
  | bool (b : Bool)
  | number (n : JsonNumber)
  | string (t : Text)
  | array (items : List Json)
  | object (fields : List (Text × Json))

namespace JsonNumber

def toFloat : JsonNumber → Float
  | int n => Number.ofInt n
  | float x => x.val

/-- Equal numbers of the same kind. -/
def same : JsonNumber → JsonNumber → Bool
  | int m, int n => m = n
  | float x, float y => x.val == y.val
  | _, _ => false

end JsonNumber

namespace Json

instance : Inhabited Json := ⟨null⟩

def kind : Json → String
  | null => "null"
  | bool _ => "boolean"
  | number _ => "number"
  | string _ => "string"
  | array _ => "array"
  | object _ => "object"

mutual

/-- Whether two values are equal, up to the order of fields. -/
def same : Json → Json → Bool
  | null, null => true
  | bool a, bool b => a = b
  | number m, number n => m.same n
  | string s, string t => s = t
  | array xs, array ys => sameItems xs ys
  | object fs, object gs => fs.length = gs.length && sameFields fs gs
  | _, _ => false

def sameItems : List Json → List Json → Bool
  | [], [] => true
  | x :: xs, y :: ys => same x y && sameItems xs ys
  | _, _ => false

/-- Whether every field is a field of the other list. -/
def sameFields : List (Text × Json) → List (Text × Json) → Bool
  | [], _ => true
  | (k, v) :: fs, gs =>
      (match Bindings.get? gs k with
      | some w => same v w
      | none => false) && sameFields fs gs

end

end Json

end Stencil
