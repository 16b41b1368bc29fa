import Stencil.Expr.Embedding
import Stencil.Expr.Globals
import Stencil.Expr.Helper
import Stencil.Expr.Method.Text
import Stencil.Expr.Parser

/-!
# Evaluation of expressions

Operands are evaluated from left to right, and every node visited costs a step.
A member, index or call link of a chain after a `?.` on undefined or null is not
evaluated, and neither is anything else of the chain: `link` answers none, and
the expression around the chain takes undefined for it.

* `Evaluator.node` is one node, given how to visit others.
* `Evaluator.run` closes the knot. Each visit inside another costs a step, so a
  number of visits one above the budget is never used up.
* `Evaluator.callWith` calls a function. Calls among built-in methods take
  neither steps nor depth; an allowance bounds their nesting.
-/

namespace Stencil.Expr

/-- A callee as a failure names it. -/
def Tree.describe : Tree → Text
  | name _ t => t
  | member _ target property _ => target.describe ++ '.' :: property
  | index _ target _ _ => target.describe ++ "[...]".toList
  | call _ callee _ => callee.describe ++ "(...)".toList
  | _ => "expression".toList

namespace Evaluator

structure Setting where
  globals : Globals
  limits : Limits

/-- Visits a node: none if an optional chain stops in it. -/
abbrev Visit := (frames : Frames) → (depth : Nat) → Tree → Eval (Option Value)

/-- The value of a name: a parameter of the innermost function that has it, or
else global. -/
def lookup? (globals : Globals) (frames : Frames) (name : Text) : Option Value :=
  (frames.findSome? fun frame => Bindings.get? frame name).or (Bindings.get? globals name)

/-- The parameters of a function with their arguments. The last of two
parameters of one name counts. -/
def frameOf (params : List Text) (args : List Value) : List (Text × Value) :=
  (params.zipIdx.map fun p => (p.1, argument args p.2)).reverse

/-- A deeper nesting of calls among built-in methods than any value allows. -/
def methodAllowance : Nat := Nat.pow 2 60

abbrev Enter := (params : List Text) → (body : Tree) → Frames → (args : List Value) → Eval Value

def applyMethod (call : Call) (m : Method) (args : List Value) (span : Span) : Eval Value :=
  match m with
  | .ofArray m id items => m.apply call id items args span
  | .ofText m t => m.apply call t args span
  | .ofNumber m x => m.apply x args span
  | .describe v => return .string v.toText

def callWith (enter : Enter) (span : Span) : (allowance : Nat) → Call
  | _, .closure _ params body frames, args => enter params body frames args
  | _, .helper h, args => h.apply args span
  | 0, .method _, _ => Eval.fail span .methodsTooDeep
  | allowance + 1, .method m, args =>
      applyMethod (fun f args => callWith enter span allowance f args) m args span

def value (visit : Visit) (frames : Frames) (depth : Nat) (e : Tree) : Eval Value := do
  return (← visit frames depth e).getD .undefined

def enter (limits : Limits) (visit : Visit) (depth : Nat) (span : Span) : Enter :=
  fun params body frames args =>
    if limits.calls ≤ depth then Eval.fail span (.callsTooDeep limits.calls)
    else value visit (frameOf params args :: frames) (depth + 1) body

def propertyOf (target : Value) (key : Text) (span : Span) : Eval Value :=
  if target.isNullish then Eval.fail span (.noProperties target.toText key)
  else return target.property key

/-- Goes on with the target of a link, unless the chain stops before it. -/
def link (optional : Bool) (target : Option Value) (next : Value → Eval Value) :
    Eval (Option Value) :=
  match target with
  | none => return none
  | some v => if optional && v.isNullish then return none else some <$> next v

def partText (valueOf : Tree → Eval Value) : Part → Eval Text
  | .text t => return t
  | .code e => do return (← valueOf e).render

/-- Visits a node, given how to visit others. -/
def node (setting : Setting) (visit : Visit) (frames : Frames) (depth : Nat) (e : Tree) :
    Eval (Option Value) :=
  let valueOf := value visit frames depth
  match e with
  | .undefined _ => return some .undefined
  | .null _ => return some .null
  | .bool _ b => return some (.bool b)
  | .number _ x => return some (.number x)
  | .string _ t => return some (.string t)
  | .template _ parts => do
      let texts ← parts.mapM (partText valueOf)
      return some (.string texts.flatten)
  | .name span t =>
      match lookup? setting.globals frames t with
      | some v => return some v
      | none => Eval.fail span (.notDefined t)
  | .array _ items => do
      let values ← items.mapM valueOf
      some <$> Eval.newArray values
  | .object _ properties => do
      let fields ← properties.mapM fun p => do return (p.1, ← valueOf p.2)
      some <$> Eval.newObject (Bindings.ofList fields)
  | .member span object property optional => do
      link optional (← visit frames depth object) fun target => propertyOf target property span
  | .index span object key optional => do
      link optional (← visit frames depth object) fun target => do
        propertyOf target (← valueOf key).toText span
  | .call span callee args => do
      link false (← visit frames depth callee) fun target => do
        match target with
        | .function f =>
            let values ← args.mapM valueOf
            callWith (enter setting.limits visit depth span) span methodAllowance f values
        | _ => Eval.fail callee.span (.notAFunction callee.describe)
  | .arrow _ params body => do
      return some (.function (.closure (← Eval.fresh) params body frames))
  | .unary _ .typeof (.name _ t) =>
      return some (.string ((lookup? setting.globals frames t).getD .undefined).kind)
  | .unary _ op operand => do
      return some (op.apply (← valueOf operand))
  | .binary _ op lhs rhs => do
      let left ← valueOf lhs
      if op.settledBy left then return some left
      else return some (op.apply left (← valueOf rhs))
  | .conditional _ test consequent alternate => do
      if (← valueOf test).isTruthy then some <$> valueOf consequent
      else some <$> valueOf alternate

/-- Visits a node, with a bound on the nesting of visits. -/
def run (setting : Setting) : (nesting : Nat) → Visit
  | 0, _, _, e => Eval.fail e.span (.stepsExhausted setting.limits.steps)
  | nesting + 1, frames, depth, e => do
      Eval.tick setting.limits e.span
      node setting (fun frames depth e => run setting nesting frames depth e) frames depth e

end Evaluator

def Tree.evaluate (globals : Globals) (limits : Limits) (e : Tree) : Except ExprError Value :=
  (Evaluator.value (Evaluator.run ⟨globals, limits⟩ (limits.steps + 1)) [] 0 e).run' {}

/-- The value of a source that may have markup in it. -/
def evaluate (globals : Globals) (limits : Limits) (source : Text) : Except ExprError Value := do
  (← parse (embed source)).evaluate globals limits

def evaluateText (globals : Globals) (limits : Limits) (source : Text) : Except ExprError Text :=
  Value.render <$> evaluate globals limits source

end Stencil.Expr
