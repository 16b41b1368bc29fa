import Stencil.Expr.Method.Array
import Stencil.Text.CaseMap
import Stencil.Text.Search

/-!
# Methods of texts

Positions and lengths count characters. A method never makes a text longer than
`greatestLength`: asking for one fails before anything is built.
-/

namespace Stencil.Expr

/-- The greatest length of a text that a method makes longer. -/
def greatestLength : Nat := Nat.pow 2 28

namespace TextMethod

def characterAt (t : Text) (i : Option Nat) : Value :=
  ((i.bind (t[·]?)).map fun c => .string [c]).getD .undefined

def splitPieces (t : Text) (separator : Value) : List Text :=
  match separator with
  | .undefined => [t]
  | v =>
      let pattern := v.toText
      if pattern = [] then t.map fun c => [c] else Text.pieces pattern t

/-- The text that stands for one occurrence of a pattern. -/
def replacement (call : Call) (pattern : Text) (value : Value) : Eval Text :=
  match value with
  | .function f => do return (← call f [.string pattern]).toText
  | v => return v.toText

/-- The pieces of a text with a replacement between every two. -/
def replaceBetween (call : Call) (pattern : Text) (value : Value) : List Text → Eval Text
  | [] => return []
  | piece :: pieces => do
      let rest ← pieces.mapM fun piece => do
        return (← replacement call pattern value) ++ piece
      return piece ++ rest.flatten

def repeatText (t : Text) (count : Float) (span : Span) : Eval Value := do
  if count < Number.ofNat 0 || count == Number.infinity false then
    Eval.fail span (.invalidCount count)
  let n := Number.toNatWithin Number.wordLimit count
  if greatestLength < t.byteLength * n then Eval.fail span .invalidLength
  else return .string (Text.cycle t (t.length * n))

def padding (t : Text) (args : List Value) (span : Span) : Eval Text := do
  let target := Number.toNatWithin Number.wordLimit (argument args 0).toNumber
  let fill :=
    match argument args 1 with
    | .undefined => [' ']
    | v => v.toText
  if target ≤ t.length || fill = [] then return []
  else if greatestLength < target then Eval.fail span .invalidLength
  else return Text.cycle fill (target - t.length)

def apply (call : Call) (t : Text) (args : List Value) (span : Span) (m : TextMethod) :
    Eval Value :=
  let text (i : Nat) : Text := (argument args i).toText
  match m with
  | toUpper => return .string (Text.toUpper t)
  | toLower => return .string (Text.toLower t)
  | trim => return .string (Text.trim t)
  | trimStart => return .string (Text.trimStart t)
  | trimEnd => return .string (Text.trimEnd t)
  | toText => return .string t
  | split =>
      let pieces := splitPieces t (argument args 0)
      let kept :=
        match argument args 1 with
        | .number limit => pieces.take (Number.toNatWithin pieces.length limit)
        | _ => pieces
      Eval.newArray (kept.map .string)
  | includes => return .bool (Text.includes t (text 0))
  | startsWith =>
      let start := relativePosition (argument args 1) t.length 0
      return .bool (Text.startsWith (t.drop start) (text 0))
  | endsWith => return .bool (Text.endsWith t (text 0))
  | indexOf => return foundPosition (Text.indexOf? t (text 0))
  | slice =>
      let start := relativePosition (argument args 0) t.length 0
      let stop := relativePosition (argument args 1) t.length t.length
      return .string (sliceItems t start stop)
  | substring =>
      let a := clampedPosition (argument args 0) t.length 0
      let b := clampedPosition (argument args 1) t.length t.length
      return .string (sliceItems t (min a b) (max a b))
  | replace =>
      match Text.cut? (text 0) t with
      | none => return .string t
      | some (before, after) => do
          return .string (← replaceBetween call (text 0) (argument args 1) [before, after])
  | replaceAll => do
      return .string (← replaceBetween call (text 0) (argument args 1) (Text.pieces (text 0) t))
  | repeated => repeatText t (argument args 0).toNumber span
  | padStart => do return .string ((← padding t args span) ++ t)
  | padEnd => do return .string (t ++ (← padding t args span))
  | charAt =>
      let n := Number.toIntWithin t.length (argument args 0).toNumber
      return .string (if n < 0 then [] else sliceItems t n.toNat (n.toNat + 1))
  | item => return characterAt t (itemPosition? (argument args 0) t.length)
  | concat => return .string (t ++ args.flatMap Value.toText)

end TextMethod

end Stencil.Expr
