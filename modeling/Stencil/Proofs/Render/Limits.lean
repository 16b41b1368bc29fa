import Stencil.Proofs.Expr.Limits
import Stencil.Proofs.Expr.Visits
import Stencil.Proofs.Render.Bound

/-!
# Renders with greater limits

The limits bound each expression of a render by itself, and only the values of expressions
depend on them. A render fails as an expression does, so two renders with different limits
go in step, through all rounds and bodies, until an expression of the one with the smaller
limits is stopped (`unless_renderText`).

So greater limits are safe: they change no result of an expression or a render that was
not stopped by them, and the smaller ones are kept all the while (`greater_limits`).
-/

namespace Stencil

/-- A configuration with other limits on its expressions. -/
def Config.limited (config : Config) (limits : Expr.Limits) : Config :=
  { config with limits }

namespace Render

/-- A setting with other limits on its expressions. -/
def Setting.limited (setting : Setting) (limits : Expr.Limits) : Setting :=
  ⟨setting.registry, setting.config.limited limits⟩

/-- The failures of a render of which an expression is stopped by its limits. -/
def RenderError.IsLimit : RenderError → Prop
  | expression _ _ _ cause => cause.IsLimit
  | _ => False

section

variable {limits limits' : Expr.Limits} (h : limits ≤ limits') (setting : Setting)
include h

theorem unless_regionText (globals : Expr.Globals) (origin : Origin) (r : Markup.Region) :
    Unless RenderError.IsLimit (regionText (setting.limited limits) globals origin r)
      (regionText (setting.limited limits') globals origin r) := by
  have hvalue : Unless Expr.ExprError.IsLimit (Expr.evaluateText globals limits r.text)
      (Expr.evaluateText globals limits' r.text) := Expr.unless_evaluateText h globals r.text
  unfold regionText
  dsimp only [Setting.limited, Config.limited]
  rcases hvalue with ⟨e, heq, he⟩ | heq
  · rw [heq]
    exact Or.inl ⟨_, rfl, he⟩
  · rw [heq]
    exact .refl _

theorem unless_expressionPass (scope : Scope) (t : Text) :
    Unless RenderError.IsLimit (expressionPass (setting.limited limits) scope t)
      (expressionPass (setting.limited limits') scope t) := by
  rw [expressionPass_eq, expressionPass_eq]
  refine Unless.bind (.refl _) fun _ => ?_
  exact (Unless.mapM (unless_regionText h setting _ scope.origin) _).bind fun outputs => .refl _

theorem unless_renderPasses {invoke invoke' : Invoke}
    (step : ∀ name body fragment, Unless RenderError.IsLimit (invoke name body fragment)
      (invoke' name body fragment)) (scope : Scope) (t : Text) :
    Unless RenderError.IsLimit (renderPasses (setting.limited limits) invoke scope t)
      (renderPasses (setting.limited limits') invoke' scope t) := by
  refine (unless_expressionPass h setting scope t).bind fun draft => ?_
  have same_rounds : expandRounds (setting.limited limits') invoke' scope.origin
      setting.config.maxPartialDepth draft =
      expandRounds (setting.limited limits) invoke' scope.origin
        setting.config.maxPartialDepth draft := by
    apply expandRounds_congr
    · rfl
    · rfl
  have hrounds := (interactive_expandRounds (setting.limited limits) scope.origin
    setting.config.maxPartialDepth draft).inStep step
  rw [← same_rounds] at hrounds
  exact hrounds.bind fun final => .refl _

/-- **Two renders go in step** until the one with the smaller limits is stopped. -/
theorem unless_renderText (room : Nat) (scope : Scope) (t : Text) :
    Unless RenderError.IsLimit (renderText (setting.limited limits) room scope t)
      (renderText (setting.limited limits') room scope t) := by
  have hcycle : ∀ chain : List Text, Unless RenderError.IsLimit
      (.error (.cyclic chain) : Except RenderError Text) (.error (.cyclic chain)) :=
    fun chain => .refl _
  induction room generalizing scope t with
  | zero =>
      refine unless_renderPasses h setting ?_ scope t
      exact invoke_related hcycle (fun _ _ => .refl _) scope
  | succ room ih => exact unless_renderPasses h setting (invoke_related hcycle ih scope) scope t

theorem unless_render (template : Text) (context : Context) (partials : Partial.Registry)
    (config : Config) :
    Unless RenderError.IsLimit (render template context partials (config.limited limits))
      (render template context partials (config.limited limits')) :=
  (unless_renderText h ⟨partials, config⟩ config.maxPartialDepth (Scope.root context)
    template).map Markup.unescape

end

/-- **Greater limits change nothing that the smaller ones do not stop, and those are kept.**
What an expression or a render gives, or fails with without being stopped, it gives or
fails with under greater limits. Under its own limits, an expression comes to what the visit of
its whole tree comes to. From there on, no more visits complete than there are steps, and none is
made inside more calls than there may be. If the expression has a value, all its visits complete,
and they are as many as the steps that it counts. -/
theorem greater_limits {limits limits' : Expr.Limits} (h : limits ≤ limits') :
    (∀ (context : Context) (source : Text),
      (∀ t, Expr.evaluateText (Expr.Globals.within context) limits source = .ok t →
        Expr.evaluateText (Expr.Globals.within context) limits' source = .ok t) ∧
      (∀ e, ¬ e.IsLimit →
        Expr.evaluateText (Expr.Globals.within context) limits source = .error e →
        Expr.evaluateText (Expr.Globals.within context) limits' source = .error e)) ∧
    (∀ (context : Context) (source : Text) (e : Expr.Tree),
      Expr.parse (Expr.embed source) = .ok e →
      Expr.evaluateText (Expr.Globals.within context) limits source =
        (fun r => (r.1.getD .undefined).render) <$>
          (Expr.Evaluator.Activation.root limits e).result
            ⟨Expr.Globals.within context, limits⟩ ∧
      (∀ v q, (Expr.Evaluator.Activation.root limits e).result
          ⟨Expr.Globals.within context, limits⟩ = .ok (v, q) →
        (Expr.Evaluator.visited ⟨Expr.Globals.within context, limits⟩ e).encard = q.steps ∧
        ∀ a ∈ Expr.Evaluator.visited ⟨Expr.Globals.within context, limits⟩ e,
          a.Completes ⟨Expr.Globals.within context, limits⟩) ∧
      {a ∈ Expr.Evaluator.visited ⟨Expr.Globals.within context, limits⟩ e |
        a.Completes ⟨Expr.Globals.within context, limits⟩}.encard ≤ limits.steps ∧
      ∀ a ∈ Expr.Evaluator.visited ⟨Expr.Globals.within context, limits⟩ e,
        a.depth ≤ limits.calls) ∧
    (∀ (template : Text) (context : Context) (partials : Partial.Registry) (config : Config),
      (∀ t, render template context partials (config.limited limits) = .ok t →
        render template context partials (config.limited limits') = .ok t) ∧
      (∀ e, ¬ e.IsLimit →
        render template context partials (config.limited limits) = .error e →
        render template context partials (config.limited limits') = .error e)) := by
  refine ⟨?expression, ?bounds, ?whole⟩
  case expression =>
    intro context source
    have step := Expr.unless_evaluateText h (Expr.Globals.within context) source
    exact ⟨fun t => step.eq_ok, fun e => step.eq_error⟩
  case bounds =>
    intro context source e hparse
    refine ⟨Expr.Evaluator.evaluateText_eq _ limits hparse, ?_, ?_, ?_⟩
    · intro v q hok
      exact (Expr.Evaluator.visited_of_ok hok).2
    · exact Expr.Evaluator.Activation.encard_completes_le _ _
    · intro a ha
      exact Expr.Evaluator.Activation.Reaches.depth_le ha (Nat.zero_le _)
  case whole =>
    intro template context partials config
    have step := unless_render h template context partials config
    exact ⟨fun t => step.eq_ok, fun e => step.eq_error⟩

/-- A call of a function that takes six steps, with just as many and with a million. All its
visits complete, and none of them is inside more than one call. -/
theorem greater_limits_call :
    (⟨6, 1⟩ : Expr.Limits) ≤ {} ∧
    Expr.evaluateText (Expr.Globals.within []) ⟨6, 1⟩ "(x => x + 'b')('a')".toList =
      .ok "ab".toList ∧
    Expr.evaluateText (Expr.Globals.within []) {} "(x => x + 'b')('a')".toList =
      .ok "ab".toList ∧
    ∃ e, Expr.parse (Expr.embed "(x => x + 'b')('a')".toList) = .ok e ∧
      ∀ a ∈ Expr.Evaluator.visited ⟨Expr.Globals.within [], ⟨6, 1⟩⟩ e,
        a.Completes ⟨Expr.Globals.within [], ⟨6, 1⟩⟩ ∧ a.depth ≤ 1 := by
  have h : (⟨6, 1⟩ : Expr.Limits) ≤ {} := ⟨by decide, by decide⟩
  have hvalue : Expr.evaluateText (Expr.Globals.within []) ⟨6, 1⟩ "(x => x + 'b')('a')".toList =
      .ok "ab".toList := Except.toOption_eq_some_iff.1 (by decide +kernel)
  refine ⟨h, hvalue, ((greater_limits h).1 [] _).1 _ hvalue, ?_⟩
  cases hparse : Expr.parse (Expr.embed "(x => x + 'b')('a')".toList) with
  | error err =>
      rw [Expr.evaluateText, Expr.evaluate, hparse] at hvalue
      cases hvalue
  | ok e =>
      obtain ⟨htext, hall, -, hdepth⟩ := (greater_limits h).2.1 [] _ e hparse
      rw [hvalue] at htext
      obtain ⟨r, hresult, -⟩ := Except.map_eq_ok_iff.1 htext.symm
      refine ⟨e, rfl, ?_⟩
      intro a ha
      exact ⟨(hall r.1 r.2 hresult).2 a ha, hdepth a ha⟩

end Render

end Stencil
