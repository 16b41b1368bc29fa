import Stencil.Expr.Value
import Stencil.Json.Printer

/-!
# Values and JSON

`ofJson` takes every JSON value in. `toJson?` gives back what JSON can hold:
undefined and functions have no JSON value, an object drops them and an array
has null in their place, and so do numbers that are not finite.
-/

namespace Stencil.Expr.Value

mutual

/-- The value of a JSON value that stands at a place. -/
def ofJson (id : Identity) : Json → Value
  | .null => null
  | .bool b => bool b
  | .number n => number n.toFloat
  | .string t => string t
  | .array items => array id (ofJsonItems id 0 items)
  | .object fields => object id (ofJsonFields id 0 fields)

def ofJsonItems (id : Identity) (position : Nat) : List Json → List Value
  | [] => []
  | j :: js => ofJson (id.child position) j :: ofJsonItems id (position + 1) js

def ofJsonFields (id : Identity) (position : Nat) : List (Text × Json) → List (Text × Value)
  | [] => []
  | (k, j) :: fs => (k, ofJson (id.child position) j) :: ofJsonFields id (position + 1) fs

end

/-- The greatest integer up to which all integers are doubles. -/
def greatestExact : Nat := Nat.pow 2 53 - 1

/-- The JSON value of a number: an integer if all integers of its size are
doubles. -/
def numberJson (x : Float) : Json :=
  match h : Number.parts x with
  | .finite d =>
      .number
        (if d.isIntegral && d.wholePart ≤ greatestExact then .int d.toInt
        else .float ⟨x, by rw [Number.isFinite, h]⟩)
  | _ => .null

mutual

def toJson? : Value → Option Json
  | undefined | function _ => none
  | null => some .null
  | bool b => some (.bool b)
  | number x => some (numberJson x)
  | string t => some (.string t)
  | array _ items => some (.array (itemsToJson items))
  | object _ fields => some (.object (fieldsToJson fields))

def itemsToJson : List Value → List Json
  | [] => []
  | v :: vs => (v.toJson?.getD .null) :: itemsToJson vs

/-- The JSON values of the fields that have one. -/
def fieldsToJson : List (Text × Value) → List (Text × Json)
  | [] => []
  | (k, v) :: fs =>
      match v.toJson? with
      | some j => (k, j) :: fieldsToJson fs
      | none => fieldsToJson fs

end

/-- The text that stands for the value in a page: compact JSON for a container,
`toText` for anything else. -/
def render : Value → Text
  | array id items => ((array id items).toJson?.map Json.compact).getD []
  | object id fields => ((object id fields).toJson?.map Json.compact).getD []
  | v => v.toText

end Stencil.Expr.Value
