import Stencil.Expr.Error

/-!
# What goes wrong in a render

A failure names the text it is about, its origin, and offsets are offsets in
that text. The failure of a cycle is about no text.
-/

namespace Stencil.Render

inductive Origin where
  | template
  | body (name : Text)
deriving Repr, DecidableEq

inductive RegionKind where
  | expression
  | tag
deriving Repr, DecidableEq

inductive RenderError where
  | expression (source : Text) (offset : Nat) (origin : Origin) (cause : Expr.ExprError)
  | unterminated (kind : RegionKind) (offset : Nat) (origin : Origin)
  | unknownPartial (name : Text) (offset : Nat) (origin : Origin)
  /-- Partials that invoke one another, from the outside in. -/
  | cyclic (chain : List Text)

def Origin.describe : Origin → Text
  | template => "template".toList
  | body name => "partial '".toList ++ name ++ ['\'']

def RegionKind.describe : RegionKind → Text
  | expression => "expression".toList
  | tag => "partial tag".toList

namespace RenderError

def atOffset (offset : Nat) : Text :=
  " at offset ".toList ++ Number.decimal offset

def message : RenderError → Text
  | expression source offset origin cause =>
      origin.describe ++ ": cannot evaluate \x7b".toList ++ source ++ '}' :: atOffset offset ++
        ": ".toList ++ cause.message
  | unterminated kind offset origin =>
      origin.describe ++ ": unterminated ".toList ++ kind.describe ++ " opened".toList ++
        atOffset offset
  | unknownPartial name offset origin =>
      origin.describe ++ ": unknown partial '".toList ++ name ++ '\'' :: atOffset offset
  | cyclic chain =>
      "cyclic partial invocation: ".toList ++ List.intercalate " -> ".toList chain

def origin? : RenderError → Option Origin
  | expression _ _ origin _ | unterminated _ _ origin | unknownPartial _ _ origin => some origin
  | cyclic _ => none

/-- The range of its text that a failure is about. An expression whose failure
has no range inside it is all of the range, with its braces. -/
def span? : RenderError → Option Span
  | expression source offset _ cause =>
      let inner := offset + 1
      if cause.span.stop ≤ Text.byteLength source && cause.span.start < cause.span.stop then
        some (cause.span.shift inner)
      else some ⟨offset, inner + Text.byteLength source + 1⟩
  | unterminated _ offset _ => some ⟨offset, offset + 1⟩
  | unknownPartial name offset _ => some ⟨offset, offset + Text.byteLength name + 2⟩
  | cyclic _ => none

end RenderError

end Stencil.Render
