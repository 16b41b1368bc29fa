import Stencil.Expr.Method.Number
import Stencil.Expr.Property
import Stencil.Expr.Value.Json
import Stencil.Text.Percent

/-!
# Global functions

Helpers convert their arguments and compute; none of them calls a function or
looks at anything but its arguments.
-/

namespace Stencil.Expr

/-- The sign of a number: one, minus one, or the number itself if it is zero or
not a number. -/
def signOf (x : Float) : Float :=
  let zero := Number.ofNat 0
  if zero < x then Number.ofNat 1 else if x < zero then Number.ofInt (-1) else x

/-- The one of two numbers that a comparison does not put first; not a number if
either is not one. Of equal numbers the second counts. -/
def pick (first : Float → Float → Bool) (x y : Float) : Float :=
  if Number.isNaN x || Number.isNaN y then Number.nan else if first x y then x else y

def least (xs : List Float) : Float :=
  xs.foldl (pick fun x y => x < y) (Number.infinity false)

def greatest (xs : List Float) : Float :=
  xs.foldl (pick fun x y => y < x) (Number.infinity true)

def widestIndent : Nat := 10

def indentArgument : Value → Text
  | .number x => List.replicate (Number.toNatWithin widestIndent x) ' '
  | .string t => t.take widestIndent
  | _ => []

/-- The JSON text of a value, undefined if it has none. -/
def jsonText (v indent : Value) : Value :=
  match v.toJson? with
  | none => .undefined
  | some j =>
      let indent := indentArgument indent
      .string (if indent = [] then j.compact else j.pretty indent)

def pairEntry (pair : Value) : Text × Value :=
  ((pair.property ['0']).toText, pair.property ['1'])

namespace Helper

def apply (args : List Value) (span : Span) (h : Helper) : Eval Value :=
  let first := argument args 0
  let x := first.toNumber
  match h with
  | abs => return .number x.abs
  | ceil => return .number (Number.ceil x)
  | floor => return .number (Number.floor x)
  | round => return .number (Number.floor (x + 0.5))
  | trunc => return .number (Number.trunc x)
  | sign => return .number (signOf x)
  | min => return .number (least (args.map Value.toNumber))
  | max => return .number (greatest (args.map Value.toNumber))
  | pow => return .number (Float.pow x (argument args 1).toNumber)
  | sqrt => return .number x.sqrt
  | jsonText => return Expr.jsonText first (argument args 2)
  | readJson =>
      match Json.read first.toText with
      | .ok j => do return .ofJson (← Eval.fresh) j
      | .error e => Eval.fail span (.invalidJson e)
  | keys => Eval.newArray (first.entries.map fun e => .string e.1)
  | values => Eval.newArray (first.entries.map Prod.snd)
  | entries => do
      let id ← Eval.fresh
      return .array id
        (first.entries.zipIdx.map fun e => .array (id.child e.2) [.string e.1.1, e.1.2])
  | fromEntries =>
      match first with
      | .array _ pairs => Eval.newObject (Bindings.ofList (pairs.map pairEntry))
      | v => Eval.fail span (.notIterable v.kind)
  | isArray => return .bool (first matches .array ..)
  | text => return .string ((args.head?.map Value.toText).getD [])
  | number => return .number ((args.head?.map Value.toNumber).getD (Number.ofNat 0))
  | boolean => return .bool first.isTruthy
  | leadingInteger =>
      return .number (Number.leadingInteger (baseArgument 0 (argument args 1)) first.toText)
  | leadingNumber => return .number (Number.leadingNumber first.toText)
  | isNaN => return .bool (Number.isNaN x)
  | percentEncode => return .string (Text.percentEncode first.toText)

end Helper

end Stencil.Expr
