import Stencil.Expr.Eval

/-!
# Configuration

A configuration says how malformed markup is treated and bounds what a render
may do.
-/

namespace Stencil

/-- How malformed markup is treated. -/
inductive Strictness where
  /-- Regions that never close and unknown partials fail. -/
  | strict
  /-- They stay as they are. -/
  | lenient
deriving Repr, DecidableEq

structure Config where
  strictness : Strictness := .strict
  /-- How deep partials may nest, and how often a text is searched for them. -/
  maxPartialDepth : Nat := 64
  limits : Expr.Limits := {}
deriving Repr, DecidableEq

def Config.isStrict (c : Config) : Bool :=
  c.strictness = .strict

end Stencil
