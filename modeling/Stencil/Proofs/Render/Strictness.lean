import Stencil.Proofs.Render.Passes

/-!
# Strict and lenient renders

Strictness is asked in three places: where an expression stays open, where a tag stays
open, and where a tag names no partial. In each a strict render may fail as malformed
markup, where a lenient one goes on with the text as it is. Nothing else in a render looks
at strictness, so the two go in step through all rounds and bodies until the strict one
fails so (`tolerates_renderText`).
-/

namespace Stencil

/-- A configuration with another treatment of malformed markup. -/
def Config.treating (config : Config) (strictness : Strictness) : Config :=
  { config with strictness }

namespace Render

/-- A setting with another treatment of malformed markup. -/
def Setting.treating (setting : Setting) (strictness : Strictness) : Setting :=
  ⟨setting.registry, setting.config.treating strictness⟩

/-- The failures of malformed markup: a region that stays open, or a tag of a partial that
is not registered. -/
def RenderError.IsMalformed : RenderError → Prop
  | unterminated .. | unknownPartial .. => True
  | expression .. | cyclic _ => False

/-- The second task is the first with malformed markup left as it is. -/
abbrev Tolerates {α : Type} (x y : Except RenderError α) : Prop :=
  Spares RenderError.IsMalformed x y

variable (setting : Setting) {invoke invoke' : Invoke} (origin : Origin)

/-! ## The three places -/

theorem tolerates_checkTerminated (kind : RegionKind) (offset : Option Nat) :
    Tolerates (checkTerminated (setting.treating .strict).config kind origin offset)
      (checkTerminated (setting.treating .lenient).config kind origin offset) := by
  cases offset with
  | none => exact .ok ()
  | some k => exact Spares.spared (e := RenderError.unterminated kind k origin) trivial ()

theorem tolerates_checkKnown (draft : Draft) :
    Tolerates (checkKnown (setting.treating .strict) origin draft)
      (checkKnown (setting.treating .lenient) origin draft) := by
  unfold checkKnown
  dsimp only [Setting.treating]
  cases (Markup.partialInvocations draft.text).find? fun i =>
      !Bindings.contains setting.registry i.name with
  | none => exact .ok ()
  | some i => exact .spared trivial ()

/-! ## The passes -/

/-- The values of expressions do not depend on strictness. -/
theorem tolerates_expressionPass (scope : Scope) (t : Text) :
    Tolerates (expressionPass (setting.treating .strict) scope t)
      (expressionPass (setting.treating .lenient) scope t) := by
  have value : ∀ r : Markup.Region, Tolerates
      (regionText setting (Expr.Globals.within scope.context) scope.origin r)
      (regionText setting (Expr.Globals.within scope.context) scope.origin r) := by
    intro r
    unfold regionText
    split
    · exact .ok _
    · exact Spares.error (fun h => h)
  rw [expressionPass_eq, expressionPass_eq]
  refine (tolerates_checkTerminated setting scope.origin _ _).bind fun _ => ?_
  exact (Spares.mapM value _).bind fun outputs => .ok _

section Rounds

variable (step : ∀ name body fragment,
  Tolerates (invoke name body fragment) (invoke' name body fragment))
include step

theorem tolerates_expand? (name body : Text) (draft : Draft) :
    Tolerates (expand? (setting.treating .strict) invoke origin name body draft)
      (expand? (setting.treating .lenient) invoke' origin name body draft) := by
  rw [expand?_eq, expand?_eq]
  refine (tolerates_checkTerminated setting origin _ _).bind fun _ => ?_
  by_cases hnone : (Markup.scanTags (some (tagName name)) draft.text).regions = []
  · rw [if_pos hnone, if_pos hnone]
    exact .ok none
  · rw [if_neg hnone, if_neg hnone]
    exact (Spares.mapM (fun r : Markup.Region => step name body r.text) _).bind
      fun outputs => .ok _

theorem tolerates_expandNext (state : Draft × Bool) (p : Text × Text) :
    Tolerates (expandNext (setting.treating .strict) invoke origin state p)
      (expandNext (setting.treating .lenient) invoke' origin state p) := by
  refine (tolerates_expand? setting origin step p.1 p.2 state.1).bind fun result => ?_
  cases result with
  | none => exact .ok state
  | some draft => exact .ok (draft, true)

theorem tolerates_expandRounds (rounds : Nat) (draft : Draft) :
    Tolerates (expandRounds (setting.treating .strict) invoke origin rounds draft)
      (expandRounds (setting.treating .lenient) invoke' origin rounds draft) := by
  induction rounds generalizing draft with
  | zero => exact .ok draft
  | succ rounds ih =>
      have hround : Tolerates (expandRound (setting.treating .strict) invoke origin draft)
          (expandRound (setting.treating .lenient) invoke' origin draft) :=
        Spares.foldlM (tolerates_expandNext setting origin step) _ _
      rw [expandRounds, expandRounds]
      refine hround.bind fun state => ?_
      obtain ⟨draft', found⟩ := state
      cases found with
      | true => exact ih draft'
      | false => exact .ok draft'

theorem tolerates_renderPasses (scope : Scope) (t : Text) :
    Tolerates (renderPasses (setting.treating .strict) invoke scope t)
      (renderPasses (setting.treating .lenient) invoke' scope t) := by
  refine (tolerates_expressionPass setting scope t).bind fun draft => ?_
  refine (tolerates_expandRounds setting scope.origin step _ draft).bind fun final => ?_
  exact (tolerates_checkKnown setting scope.origin final).bind fun _ => .ok final.text

end Rounds

/-! ## Whole renders -/

/-- Whether a partial may be entered does not depend on strictness, and a cycle is none of
malformed markup. -/
theorem tolerates_invoke {inner inner' : Inner}
    (step : ∀ entered body, Tolerates (inner entered body) (inner' entered body)) (scope : Scope)
    (name body fragment : Text) :
    Tolerates (Render.invoke inner scope name body fragment)
      (Render.invoke inner' scope name body fragment) :=
  invoke_related (fun _ => .error id) step scope name body fragment

/-- **The two renders go in step** until the strict one fails as malformed markup. -/
theorem tolerates_renderText (room : Nat) (scope : Scope) (t : Text) :
    Tolerates (renderText (setting.treating .strict) room scope t)
      (renderText (setting.treating .lenient) room scope t) := by
  induction room generalizing scope t with
  | zero =>
      exact tolerates_renderPasses setting (tolerates_invoke (fun _ _ => .error id) scope) scope t
  | succ room ih => exact tolerates_renderPasses setting (tolerates_invoke ih scope) scope t

/-- **Strict is lenient with more failures.** What a strict render gives, the lenient one
gives; a failure of a strict render that is none of malformed markup is the failure of the
lenient one; and a lenient render never fails as malformed markup. -/
theorem render_strict_lenient (template : Text) (context : Context) (partials : Partial.Registry)
    (config : Config) :
    (∀ x, render template context partials (config.treating .strict) = .ok x →
      render template context partials (config.treating .lenient) = .ok x) ∧
    (∀ e, ¬ e.IsMalformed →
      render template context partials (config.treating .strict) = .error e →
      render template context partials (config.treating .lenient) = .error e) ∧
    ∀ e, render template context partials (config.treating .lenient) = .error e →
      ¬ e.IsMalformed := by
  have step : Tolerates (render template context partials (config.treating .strict))
      (render template context partials (config.treating .lenient)) :=
    (tolerates_renderText ⟨partials, config⟩ config.maxPartialDepth (Scope.root context)
      template).map Markup.unescape
  exact ⟨fun x => step.eq_ok, fun e => step.eq_error, step.never⟩

end Render

end Stencil
