import Stencil.Expr.Error
import Stencil.Expr.Value

/-!
# Bounded evaluation

An evaluation counts its steps and the things that it makes, and may fail. The
steps are bounded by a budget, and the nesting of calls by a depth: `Limits`
holds both. Nothing else limits or changes what an expression means.
-/

namespace Stencil.Expr

structure Limits where
  /-- How many nodes may be visited. -/
  steps : Nat := 1000000
  /-- How deep calls of arrow functions may nest. -/
  calls : Nat := 256
deriving Repr, DecidableEq

structure Progress where
  steps : Nat := 0
  /-- How many arrays, objects and functions have been made. -/
  made : Nat := 0
deriving Repr, DecidableEq

/-- An evaluation: it starts from some progress, and fails or comes further. -/
abbrev Eval := StateT Progress (Except ExprError)

namespace Eval

def fail {α : Type} (span : Span) (t : Trouble) : Eval α :=
  throw (ExprError.runtime span t)

def tick (limits : Limits) (span : Span) : Eval Unit := do
  let progress ← get
  set { progress with steps := progress.steps + 1 }
  if limits.steps < progress.steps + 1 then fail span (.stepsExhausted limits.steps)

theorem tick_apply (limits : Limits) (span : Span) (p : Progress) :
    tick limits span p =
      if limits.steps < p.steps + 1 then
        .error (ExprError.runtime span (.stepsExhausted limits.steps))
      else .ok ((), { p with steps := p.steps + 1 }) := by
  change (if limits.steps < p.steps + 1 then fail span _ else pure () : Eval Unit)
    { p with steps := p.steps + 1 } = _
  split <;> rfl

theorem tick_of_lt {limits : Limits} {p : Progress} (h : p.steps < limits.steps) (span : Span) :
    tick limits span p = .ok ((), { p with steps := p.steps + 1 }) := by
  rw [tick_apply, if_neg (Nat.not_lt.2 h)]

theorem tick_of_le {limits : Limits} {p : Progress} (h : limits.steps ≤ p.steps) (span : Span) :
    tick limits span p = .error (ExprError.runtime span (.stepsExhausted limits.steps)) := by
  rw [tick_apply, if_pos (Nat.lt_succ_of_le h)]

/-- An identity that nothing has yet. -/
def fresh : Eval Identity :=
  modifyGet fun progress => (.made progress.made, { progress with made := progress.made + 1 })

def newArray (items : List Value) : Eval Value := do
  return .array (← fresh) items

def newObject (fields : List (Text × Value)) : Eval Value := do
  return .object (← fresh) fields

end Eval

/-- Calls a function with arguments. Built-in methods run their callbacks through
one of these. -/
abbrev Call := Function → List Value → Eval Value

/-- An argument, undefined if there are not enough. -/
def argument (args : List Value) (i : Nat) : Value :=
  args[i]?.getD .undefined

/-- The first argument, which must be a function. -/
def callback (args : List Value) (span : Span) : Eval Function :=
  match args with
  | .function f :: _ => pure f
  | v :: _ => Eval.fail span (.notAFunction v.kind)
  | [] => Eval.fail span (.notAFunction Value.undefined.kind)

end Stencil.Expr
