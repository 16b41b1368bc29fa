import Stencil.Expr.Operation
import Stencil.Expr.Position
import Stencil.Sorting

/-!
# Methods of arrays

No method changes its array. A method with a callback calls it with an item, the
item's position and the array, from left to right, and stops as soon as it knows
its answer. `sort` takes a comparison, or else orders items by their texts with
undefined at the end.
-/

namespace Stencil.Expr

/-- Puts the items of arrays in the place of the arrays, `levels` deep. -/
def flatten : (levels : Nat) → List Value → List Value
  | 0, items => items
  | levels + 1, items =>
      items.flatMap fun v =>
        match v with
        | .array _ inner => flatten levels inner
        | v => [v]

/-- Whether an item belongs after another by the default order. -/
def textAfter (v w : Value) : Bool :=
  match v, w with
  | .undefined, .undefined => false
  | .undefined, _ => true
  | _, .undefined => false
  | v, w => w.toText < v.toText

def positionValue (i : Nat) : Value :=
  .number (Number.ofNat i)

def foundPosition (i : Option Nat) : Value :=
  (i.map positionValue).getD (.number (Number.ofInt (-1)))

namespace ArrayMethod

def onItem (call : Call) (f : Function) (array : Value) (item : Value × Nat) : Eval Value :=
  call f [item.1, positionValue item.2, array]

/-- The first item, with its position, on which a callback's truth is as
wanted. -/
def firstItem? (call : Call) (f : Function) (array : Value) (wanted : Bool)
    (items : List Value) : Eval (Option (Value × Nat)) :=
  items.zipIdx.findM? fun item => do
    return (← onItem call f array item).isTruthy == wanted

def mapItems (call : Call) (f : Function) (array : Value) (items : List Value) :
    Eval (List Value) :=
  items.zipIdx.mapM (onItem call f array)

/-- Combines the items from left to right, starting from a value and a position. -/
def fold (call : Call) (f : Function) (array start : Value) (position : Nat)
    (items : List Value) : Eval Value :=
  (items.zipIdx position).foldlM (fun acc item =>
    call f [acc, item.1, positionValue item.2, array]) start

def comparesAfter (call : Call) (compare : Option Function) (v w : Value) : Eval Bool :=
  match compare with
  | some f => do return (Number.ofNat 0 < (← call f [v, w]).toNumber)
  | none => return textAfter v w

def apply (call : Call) (id : Identity) (items : List Value) (args : List Value) (span : Span)
    (m : ArrayMethod) : Eval Value :=
  let array := Value.array id items
  match m with
  | map => do
      let f ← callback args span
      Eval.newArray (← mapItems call f array items)
  | filter => do
      let f ← callback args span
      let kept ← items.zipIdx.filterM fun item => do return (← onItem call f array item).isTruthy
      Eval.newArray (kept.map Prod.fst)
  | find => do
      let f ← callback args span
      return ((← firstItem? call f array true items).map Prod.fst).getD .undefined
  | findIndex => do
      let f ← callback args span
      return foundPosition ((← firstItem? call f array true items).map Prod.snd)
  | any => do
      let f ← callback args span
      return .bool (← firstItem? call f array true items).isSome
  | every => do
      let f ← callback args span
      return .bool (← firstItem? call f array false items).isNone
  | reduce => do
      let f ← callback args span
      match args, items with
      | _ :: start :: _, _ => fold call f array start 0 items
      | _, first :: rest => fold call f array first 1 rest
      | _, [] => Eval.fail span .emptyReduce
  | join =>
      let separator :=
        match argument args 0 with
        | .undefined => [',']
        | v => v.toText
      return .string (List.intercalate separator (Value.itemTexts items))
  | toText => return .string array.toText
  | includes => return .bool (items.any fun v => v.sameValue (argument args 0))
  | indexOf => return foundPosition (items.findIdx? fun v => v.strictEq (argument args 0))
  | slice =>
      let start := relativePosition (argument args 0) items.length 0
      let stop := relativePosition (argument args 1) items.length items.length
      Eval.newArray (sliceItems items start stop)
  | concat => Eval.newArray (items ++ flatten 1 args)
  | reverse => Eval.newArray items.reverse
  | sort => do
      let compare :=
        match args with
        | .function f :: _ => some f
        | _ => none
      Eval.newArray (← mergeSortM (comparesAfter call compare) items)
  | flat =>
      let levels :=
        match argument args 0 with
        | .undefined => 1
        | v => Number.toNatWithin Number.wordLimit v.toNumber
      Eval.newArray (flatten levels items)
  | flatMap => do
      let f ← callback args span
      Eval.newArray (flatten 1 (← mapItems call f array items))
  | item => return ((itemPosition? (argument args 0) items.length).bind (items[·]?)).getD .undefined

end ArrayMethod

end Stencil.Expr
