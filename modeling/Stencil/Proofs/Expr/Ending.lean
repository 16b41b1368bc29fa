import Stencil.Proofs.Expr.Callback

/-!
# Evaluation ends

An evaluation inside bounds that are wide enough does not reach them, and comes to the same
outcome whatever the bounds are and whatever is beyond them (`evaluation_ends`): an expression
has a value or fails after finitely many visits and calls.

Two things come to an end. Visits take steps, so those that are still to come have fewer left
of the budget (`settles_run`). Between two steps there are only calls among built-in methods,
which get lighter (`settles_callWith`).
-/

namespace Stencil.Expr

namespace Evaluator

/-- What bounds an evaluation, and what is beyond. -/
structure Bounds where
  beyond : Beyond
  calls : Nat
  visits : Nat

/-- How deep visits and calls may surely nest. -/
def Bounds.room (b : Bounds) : Nat :=
  min b.calls b.visits

/-- From a number of steps on visits settle, and take steps of their own. -/
def VisitsSettle (budget start : Nat) (visit : Visit) (visits : Bounds → Visit) : Prop :=
  ∀ p, start ≤ p.steps → ∀ frames depth e,
    Settles Bounds.room (fun _ q => p.steps < q.steps ∧ q.steps ≤ budget) (visit frames depth e)
      (fun b => visits b frames depth e) p

section Visits

variable {budget start : Nat} {visit : Visit} {visits : Bounds → Visit} {p : Progress}
  (hvisits : VisitsSettle budget start visit visits) (hstart : start ≤ p.steps)
include hvisits hstart

/-- What asks for visits only settles if they do. -/
theorem Interactive.settles {α : Type} {frames : Frames} {depth : Nat} {F : Program α}
    (hF : Interactive frames depth F) (limits : Limits) :
    Settles Bounds.room (fun _ => Later budget p) (F limits visit)
      (fun b => F limits (visits b)) p := by
  induction hF generalizing p with
  | settled a => exact .pure (.refl budget p)
  | working hx _ ih =>
      refine (Settles.const (P := fun _ q => q.steps = p.steps) (hx p)).bind fun b q hq => ?_
      exact (ih b (Nat.le_trans hstart (Nat.le_of_eq hq.symm))).later (.inl hq)
  | operand e _ ih =>
      refine (hvisits p hstart _ _ e).bind fun v q hq => ?_
      exact (ih v (Nat.le_trans hstart (Nat.le_of_lt hq.1))).later (.inr hq)
  | body span inner e _ ih =>
      by_cases hdeep : limits.calls ≤ depth
      · simp only [if_pos hdeep]
        exact .fail span _
      · simp only [if_neg hdeep]
        refine (hvisits p hstart _ _ e).bind fun v q hq => ?_
        exact (ih v (Nat.le_trans hstart (Nat.le_of_lt hq.1))).later (.inr hq)

/-- An arrow function takes a step. -/
theorem settles_enter (limits : Limits) (depth : Nat) (span : Span) (params : List Text)
    (body : Tree) (frames : Frames) (args : List Value) (bound : Nat) :
    Settles Bounds.room (fun v q => Lighter budget p bound (3 * v.rank) q)
      (enter limits visit depth span params body frames args)
      (fun b => enter limits (visits b) depth span params body frames args) p := by
  unfold enter value
  split
  · exact .fail span _
  · exact (hvisits p hstart _ _ body).bind fun v q hq => .pure (.inr hq)

end Visits

/-! ## Calls -/

section Calls

variable (budget : Nat) (visits : Bounds → Visit) (limits : Limits) (depth : Nat) (span : Span)

/-- A call settles, where method calls nest inside a number of their own. It comes to
something lighter than itself, or takes steps. -/
def CallSettles (call : Call) (p : Progress) (f : Function) (args : List Value) : Prop :=
  Settles (fun k : Bounds × Nat => min k.1.room k.2)
    (fun v q => Lighter budget p (weight f args) (3 * v.rank) q) (call f args)
    (fun k => callWithin (k.1.beyond.call span) (enter limits (visits k.1) depth span) span k.2
      f args) p

variable {budget visits limits depth span}

/-- What a method calls has one call less left. -/
theorem settles_method {p : Progress} {m : Method} {args : List Value} {call : Call}
    (hcalls : ∀ q f args', Lighter budget p (weight (.method m) args) (weight f args') q →
      CallSettles budget visits limits depth span call q f args') :
    CallSettles budget visits limits depth span (fun _ _ => applyMethod call m args span) p
      (.method m) args := by
  refine (settles_applyMethod span hcalls).reindex (fun k => (k.1, k.2 - 1)) ?_
  rintro ⟨b, calls⟩ hk
  obtain ⟨calls, rfl⟩ : ∃ n, calls = n + 1 :=
    Nat.exists_eq_succ_of_ne_zero (Nat.ne_of_gt (Nat.le_trans hk (Nat.min_le_right _ _)))
  refine ⟨?_, rfl⟩
  change min b.room (calls + 1) ≤ min b.room calls + 1
  omega

/-- **Calls settle.** An arrow function takes a step, a helper gives no function, and what a
method calls is lighter or later. -/
theorem settles_callWith {start : Nat} {visit : Visit} {p : Progress}
    (hvisits : VisitsSettle budget start visit visits) (hstart : start ≤ p.steps)
    (allowance : Nat) (f : Function) (args : List Value) :
    CallSettles budget visits limits depth span
      (callWith (enter limits visit depth span) span allowance) p f args := by
  induction p, f, args using Lighter.induction budget generalizing allowance with
  | step p f args ih =>
    unfold CallSettles
    cases f with
    | closure id params body frames =>
        simp only [callWith_closure, callWithin_closure]
        refine (settles_enter hvisits hstart limits depth span params body frames args _).reindex
          Prod.fst fun k _ => ⟨?_, rfl⟩
        exact Nat.le_succ_of_le (Nat.min_le_left _ _)
    | helper h =>
        simp only [callWith_helper, callWithin_helper]
        have hpos : 0 < weight (.helper h) args :=
          Nat.lt_of_lt_of_le (by decide) (three_le_weight _ _)
        exact (h.plain_apply args span).settles (.refl budget p) hpos
    | method m =>
        have hlighter : ∀ allowance q f args', Lighter budget p (weight (.method m) args)
            (weight f args') q → CallSettles budget visits limits depth span
              (callWith (enter limits visit depth span) span allowance) q f args' :=
          fun allowance q f args' h => ih q f args' h (Nat.le_trans hstart h.later.le) allowance
        cases allowance with
        | zero => exact (settles_method (hlighter 0)).stopped span
        | succ allowance => exact settles_method (hlighter allowance)

/-- The arguments of a call are visited before the call is made. -/
theorem settles_nodeCall {start : Nat} {visit : Visit} {visits : Bounds → Visit} {p : Progress}
    (hvisits : VisitsSettle budget start visit visits) (hstart : start ≤ p.steps)
    (frames : Frames) (f : Function) (args : List Tree) :
    Settles Bounds.room (fun _ => Later budget p)
      (args.mapM (value visit frames depth) >>= fun values =>
        callWith (enter limits visit depth span) span methodAllowance f values)
      (fun b => args.mapM (value (visits b) frames depth) >>= fun values =>
        callWithin (b.beyond.call span) (enter limits (visits b) depth span) span b.calls f
          values) p := by
  have hargs := (Interactive.mapM (interactive_value frames depth) args).settles hvisits hstart
    limits
  refine hargs.bind fun values q hq => ?_
  have hcall : CallSettles budget visits limits depth span _ q f values :=
    settles_callWith hvisits (Nat.le_trans hstart hq.le) methodAllowance f values
  refine (Settles.reindex hcall (fun b => (b, b.calls)) fun b _ => ⟨?_, rfl⟩).mono
    fun v q' hv => hq.trans hv.later
  exact Nat.le_succ_of_le (Nat.le_min.2 ⟨Nat.le_refl _, Nat.min_le_left _ _⟩)

end Calls

/-! ## Visits -/

section Run

variable (globals : Globals) {limits : Limits}

/-- The evaluations inside bounds. -/
def Bounds.visit (globals : Globals) (limits : Limits) (b : Bounds) : Visit :=
  runWithin ⟨globals, limits⟩ b.beyond b.calls b.visits

/-- A node settles if the visits do that it asks for. -/
theorem settles_node {start : Nat} {visit : Visit} {visits : Bounds → Visit} {p : Progress}
    (hvisits : VisitsSettle limits.steps start visit visits) (hstart : start ≤ p.steps)
    (frames : Frames) (depth : Nat) (e : Tree) :
    Settles Bounds.room (fun _ => Later limits.steps p)
      (node ⟨globals, limits⟩ visit frames depth e)
      (fun b => nodeWithin ⟨globals, limits⟩ b.beyond b.calls (visits b) frames depth e) p := by
  have hnode := (interactive_node frames depth globals e).settles hvisits hstart limits
  cases e with
  | call span callee args =>
      refine (hvisits p hstart frames depth callee).bind fun target q hq => ?_
      have hlater : start ≤ q.steps := Nat.le_trans hstart (Nat.le_of_lt hq.1)
      refine Settles.later ?_ (.inr hq)
      cases target with
      | none => exact .pure (.refl _ q)
      | some v =>
          cases v with
          | function f =>
              exact (settles_nodeCall hvisits hlater frames f args).map fun _ _ h => h
          | _ => exact (Settles.fail callee.span _).map fun _ _ h => h
  | _ => exact hnode

/-- A visit takes a step, or there is none left. -/
theorem settles_tick (span : Span) (p : Progress) :
    Settles Bounds.room (fun _ q => q.steps = p.steps + 1 ∧ q.steps ≤ limits.steps)
      (Eval.tick limits span) (fun _ => Eval.tick limits span) p := by
  refine .const fun u q hok => ?_
  rw [Eval.tick_apply] at hok
  split at hok
  · cases hok
  · cases hok
    exact ⟨rfl, Nat.le_of_not_lt ‹_›⟩

/-- One visit settles if those do that it asks for. -/
theorem settles_visit {visit : Visit} {p : Progress}
    (hvisits : p.steps < limits.steps →
      VisitsSettle limits.steps (p.steps + 1) visit (Bounds.visit globals limits))
    (frames : Frames) (depth : Nat) (e : Tree) :
    Settles Bounds.room (fun _ q => p.steps < q.steps ∧ q.steps ≤ limits.steps)
      (do
        Eval.tick limits e.span
        node ⟨globals, limits⟩ visit frames depth e)
      (fun b => b.visit globals limits frames depth e) p := by
  have hvisited : Settles Bounds.room (fun _ q => p.steps < q.steps ∧ q.steps ≤ limits.steps)
      (do
        Eval.tick limits e.span
        node ⟨globals, limits⟩ visit frames depth e)
      (fun b => do
        Eval.tick limits e.span
        nodeWithin ⟨globals, limits⟩ b.beyond b.calls (b.visit globals limits) frames depth e) p := by
    refine (settles_tick e.span p).bind fun _ q hq => ?_
    have hnode := settles_node globals (hvisits (by omega)) (Nat.le_of_eq hq.1.symm) frames depth e
    refine hnode.mono fun v q' hq' => ?_
    unfold Later at hq'
    omega
  -- the visit itself is one of those that the bound counts
  refine hvisited.reindex (fun b => { b with visits := b.visits - 1 }) ?_
  rintro ⟨beyond, calls, visits⟩ hb
  obtain ⟨visits, rfl⟩ : ∃ n, visits = n + 1 :=
    Nat.exists_eq_succ_of_ne_zero (Nat.ne_of_gt (Nat.le_trans hb (Nat.min_le_right _ _)))
  refine ⟨?_, rfl⟩
  change min calls (visits + 1) ≤ min calls visits + 1
  omega

/-- **Visits settle**, since all that they ask for is visited with fewer steps left. -/
theorem settles_run {start : Nat} (nesting : Nat) (hsteps : limits.steps ≤ start + nesting) :
    VisitsSettle limits.steps start (run ⟨globals, limits⟩ (nesting + 1))
      (Bounds.visit globals limits) := by
  induction nesting generalizing start with
  | zero =>
      exact fun p hp frames depth e => settles_visit globals
        (fun hlt => absurd hlt (Nat.not_lt.2 (Nat.le_trans hsteps hp))) frames depth e
  | succ nesting ih =>
      exact fun p hp frames depth e => settles_visit globals (fun _ => ih (by omega)) frames
        depth e

end Run

end Evaluator

/-- **Evaluation ends.** Inside bounds that are wide enough an expression comes to one
outcome, whatever is beyond them: it is the outcome of finitely many visits and calls.
Evaluation comes to it too, unless it gives up because methods call methods deeper than its
allowance. -/
theorem evaluation_ends (globals : Globals) (limits : Limits) (e : Tree) :
    ∃ outcome bound,
      (∀ beyond calls visits, bound ≤ calls → bound ≤ visits →
        e.evaluateWithin globals limits beyond calls visits = outcome) ∧
      (e.evaluate globals limits = outcome ∨
        ∃ span, e.evaluate globals limits = .error (.runtime span .methodsTooDeep)) := by
  have hvisit := Evaluator.settles_run globals limits.steps
    (Nat.le_add_left limits.steps 0) {} (Nat.le_refl 0) [] 0 e
  have hvalue : Settles Evaluator.Bounds.room (fun _ _ => True)
      (Evaluator.value (Evaluator.run ⟨globals, limits⟩ (limits.steps + 1)) [] 0 e)
      (fun b => Evaluator.value (b.visit globals limits) [] 0 e) {} :=
    hvisit.bind fun v q _ => .pure trivial
  obtain ⟨r, ⟨bound, hsettled⟩, -, hrun⟩ := hvalue
  refine ⟨Prod.fst <$> r, bound, fun beyond calls visits hcalls hvisits => ?_, ?_⟩
  · have hroom := hsettled ⟨beyond, calls, visits⟩ (Nat.le_min.2 ⟨hcalls, hvisits⟩)
    exact congrArg (Prod.fst <$> ·) hroom
  · have hevaluate : e.evaluate globals limits = Prod.fst <$>
        Evaluator.value (Evaluator.run ⟨globals, limits⟩ (limits.steps + 1)) [] 0 e {} := rfl
    rcases hrun with ⟨err, hfails, span, rfl⟩ | hsame
    · exact .inr ⟨span, by rw [hevaluate, hfails]; rfl⟩
    · exact .inl (by rw [hevaluate, hsame])

end Stencil.Expr
