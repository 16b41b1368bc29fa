import Stencil.Text.Basic

/-!
# Expression trees

Every node carries the range of the source it was read from. A template is a
list of literal texts and expressions; all other nodes have the children their
names say.
-/

namespace Stencil.Expr

inductive UnaryOp where
  | not
  | neg
  | plus
  | typeof
deriving Repr, DecidableEq

inductive BinaryOp where
  | add
  | sub
  | mul
  | div
  | rem
  | lt
  | le
  | gt
  | ge
  | strictEq
  | strictNe
  | eq
  | ne
  | and
  | or
  | nullish
deriving Repr, DecidableEq

/-- Whether the right operand is evaluated only if it is needed. -/
def BinaryOp.isLazy : BinaryOp → Bool
  | and | or | nullish => true
  | _ => false

mutual

inductive Tree where
  | undefined (span : Span)
  | null (span : Span)
  | bool (span : Span) (b : Bool)
  | number (span : Span) (x : Float)
  | string (span : Span) (t : Text)
  | template (span : Span) (parts : List Part)
  | name (span : Span) (t : Text)
  | array (span : Span) (items : List Tree)
  | object (span : Span) (properties : List (Text × Tree))
  /-- `object.property`, or `object?.property`. -/
  | member (span : Span) (object : Tree) (property : Text) (optional : Bool)
  /-- `object[key]`, or `object?.[key]`. -/
  | index (span : Span) (object key : Tree) (optional : Bool)
  | call (span : Span) (callee : Tree) (args : List Tree)
  | arrow (span : Span) (params : List Text) (body : Tree)
  | unary (span : Span) (op : UnaryOp) (operand : Tree)
  | binary (span : Span) (op : BinaryOp) (lhs rhs : Tree)
  | conditional (span : Span) (test consequent alternate : Tree)

inductive Part where
  | text (t : Text)
  | code (e : Tree)

end

/-- The range of the source that a node was read from. -/
def Tree.span : Tree → Span
  | undefined s | null s | bool s _ | number s _ | string s _ | template s _ | name s _ => s
  | array s _ | object s _ | member s _ _ _ | index s _ _ _ | call s _ _ | arrow s _ _ => s
  | unary s _ _ | binary s _ _ _ | conditional s _ _ _ => s

end Stencil.Expr
