import Stencil.Expr.Evaluator
import Stencil.Proofs.Expr.Globals

/-!
# Expressions see names by look-up

An evaluation asks the global names for the value of one name at a time. So two
lists of global names that answer alike cannot be told from one another, whatever
their order, and an expression sees no more of a context than what it binds
(`evaluateText_within`).
-/

namespace Stencil.Expr

section

variable {globals globals' : Globals}
  (same : ∀ name, Bindings.get? globals name = Bindings.get? globals' name)
include same

theorem lookup?_congr (frames : Frames) (name : Text) :
    Evaluator.lookup? globals frames name = Evaluator.lookup? globals' frames name := by
  rw [Evaluator.lookup?, Evaluator.lookup?, same]

theorem node_congr (limits : Limits) (visit : Evaluator.Visit) (frames : Frames) (depth : Nat)
    (e : Tree) :
    Evaluator.node ⟨globals, limits⟩ visit frames depth e =
      Evaluator.node ⟨globals', limits⟩ visit frames depth e := by
  unfold Evaluator.node
  simp only [lookup?_congr same]

theorem run_congr (limits : Limits) (nesting : Nat) :
    Evaluator.run ⟨globals, limits⟩ nesting = Evaluator.run ⟨globals', limits⟩ nesting := by
  induction nesting with
  | zero => rfl
  | succ nesting ih =>
      funext frames depth e
      rw [Evaluator.run, Evaluator.run, ih, node_congr same]

theorem evaluateText_congr (limits : Limits) (source : Text) :
    evaluateText globals limits source = evaluateText globals' limits source := by
  have tree : ∀ e : Tree, e.evaluate globals limits = e.evaluate globals' limits := by
    intro e
    rw [Tree.evaluate, Tree.evaluate, run_congr same]
  simp only [evaluateText, evaluate, tree]

end

/-- **The order of a context has no part in its values.** -/
theorem evaluateText_within {c d : Context} (hc : Bindings.Distinct c)
    (hd : Bindings.Distinct d) (same : ∀ name, Bindings.get? c name = Bindings.get? d name)
    (limits : Limits) (source : Text) :
    evaluateText (Globals.within c) limits source =
      evaluateText (Globals.within d) limits source := by
  refine evaluateText_congr (fun name => ?_) limits source
  rw [Globals.get?_within hc, Globals.get?_within hd, same]

end Stencil.Expr
