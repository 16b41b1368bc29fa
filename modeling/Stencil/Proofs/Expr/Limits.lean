import Stencil.Proofs.Expr.Interaction

/-!
# Greater limits

The limits of an evaluation are asked in two places: where a visit counts its step, and
where an arrow function is called. In each an evaluation may fail as stopped by its limits
where one with greater limits goes on, and nothing else in an evaluation looks at limits.
So the two go in step until the first is stopped (`unless_run`), and what is not stopped
stays the same with greater limits (`unless_evaluateText`).
-/

namespace Stencil.Expr

/-- Greater limits allow more steps and deeper calls, or as many and as deep. -/
instance : LE Limits :=
  ⟨fun limits limits' => limits.steps ≤ limits'.steps ∧ limits.calls ≤ limits'.calls⟩

/-- The failures of an evaluation that is stopped by its limits. -/
def ExprError.IsLimit (e : ExprError) : Prop :=
  match e.cause with
  | .runtime (.stepsExhausted _) | .runtime (.callsTooDeep _) => True
  | _ => False

variable {limits limits' : Limits} (h : limits ≤ limits')
include h

theorem Limits.steps_le : limits.steps ≤ limits'.steps := h.1

theorem Limits.calls_le : limits.calls ≤ limits'.calls := h.2

namespace Evaluator

/-- What asks for visits goes in step if the visits do. -/
theorem Interactive.inStep {frames : Frames} {depth : Nat} {α : Type} {F : Program α}
    (hF : Interactive frames depth F) {visit visit' : Visit}
    (hvisit : ∀ frames depth e p,
      Unless ExprError.IsLimit (visit frames depth e p) (visit' frames depth e p))
    (p : Progress) : Unless ExprError.IsLimit (F limits visit p) (F limits' visit' p) := by
  induction hF generalizing p with
  | settled a => exact .refl _
  | working hx _ ih => exact (Unless.refl _).bind fun r => ih r.1 r.2
  | operand e _ ih => exact (hvisit frames depth e p).bind fun r => ih r.1 r.2
  | body span inner e _ ih =>
      by_cases hdeep : limits.calls ≤ depth
      · simp only [if_pos hdeep]
        exact .failed trivial _
      · have hdeep' : ¬ limits'.calls ≤ depth := fun hle =>
          hdeep (Nat.le_trans (Limits.calls_le h) hle)
        simp only [if_neg hdeep, if_neg hdeep']
        exact (hvisit inner (depth + 1) e p).bind fun r => ih r.1 r.2

/-- **Two runs go in step** until the one with the smaller limits is stopped. -/
theorem unless_run (globals : Globals) {nesting nesting' : Nat} (hle : nesting ≤ nesting')
    (frames : Frames) (depth : Nat) (e : Tree) (p : Progress) :
    Unless ExprError.IsLimit (run ⟨globals, limits⟩ nesting frames depth e p)
      (run ⟨globals, limits'⟩ nesting' frames depth e p) := by
  induction nesting generalizing nesting' frames depth e p with
  | zero => exact .failed trivial _
  | succ nesting ih =>
      obtain ⟨nesting', rfl⟩ := Nat.exists_eq_add_of_le' hle
      have htick : Unless ExprError.IsLimit (Eval.tick limits e.span p)
          (Eval.tick limits' e.span p) := by
        by_cases hleft : p.steps < limits.steps
        · have hleft' : p.steps < limits'.steps :=
            Nat.lt_of_lt_of_le hleft (Limits.steps_le h)
          rw [Eval.tick_of_lt hleft, Eval.tick_of_lt hleft']
          exact .refl _
        · rw [Eval.tick_of_le (Nat.not_lt.1 hleft)]
          exact .failed trivial _
      refine htick.bind fun r => ?_
      refine (interactive_node frames depth globals e).inStep h (fun frames depth e p => ?_) r.2
      exact ih (Nat.le_add_left nesting nesting') frames depth e p

end Evaluator

theorem unless_evaluate (globals : Globals) (e : Tree) :
    Unless ExprError.IsLimit (e.evaluate globals limits) (e.evaluate globals limits') := by
  have hrun := Evaluator.unless_run h globals (Nat.succ_le_succ (Limits.steps_le h)) [] 0 e {}
  exact (hrun.bind fun r => .refl _).map Prod.fst

/-- **Greater limits change nothing but what the limits stop.** -/
theorem unless_evaluateText (globals : Globals) (source : Text) :
    Unless ExprError.IsLimit (evaluateText globals limits source)
      (evaluateText globals limits' source) := by
  refine Unless.map (Unless.bind (.refl _) fun e => ?_) Value.render
  exact unless_evaluate h globals e

end Stencil.Expr
