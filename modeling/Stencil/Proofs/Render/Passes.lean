import Stencil.Render.Renderer
import Stencil.Proofs.Failure
import Stencil.Proofs.Markup.Passing
import Stencil.Proofs.Markup.Tiling

/-!
# What each pass does

One statement for each pass, for the proofs about whole renders. The memory of a
pass for texts that it has seen cannot be noticed, neither in its results nor in
which failure comes first: the expression pass is `mapM` over its regions
(`expressionPass_eq`), and so is an expansion (`expand?_eq`).
-/

namespace Stencil.Render

open Markup (Region scanExpressions escapeText)

/-! ## Expressions -/

/-- The value of an expression region. -/
def regionValue (config : Config) (c : Context) (r : Region) : Except Expr.ExprError Text :=
  Expr.evaluateText (Expr.Globals.within c) config.limits r.text

variable {setting : Setting} {scope : Scope}

theorem regionText_of_ok {r : Region} {v : Text}
    (h : regionValue setting.config scope.context r = .ok v) :
    regionText setting (Expr.Globals.within scope.context) scope.origin r =
      .ok (escapeText v) := by
  rw [regionValue] at h
  rw [regionText, h]

theorem regionText_of_error {r : Region} {e : Expr.ExprError}
    (h : regionValue setting.config scope.context r = .error e) :
    regionText setting (Expr.Globals.within scope.context) scope.origin r =
      .error (.expression r.text r.span.start scope.origin e) := by
  rw [regionValue] at h
  rw [regionText, h]

/-- Regions of one text have one value. Only where they fail is different. -/
theorem regionText_determined {globals : Expr.Globals} {origin : Origin} (r r' : Region)
    (v : Text) (htext : r.text = r'.text) (h : regionText setting globals origin r = .ok v) :
    regionText setting globals origin r' = .ok v := by
  unfold regionText at h ⊢
  rw [htext] at h
  cases hv : Expr.evaluateText globals setting.config.limits r'.text with
  | ok t => rwa [hv] at h
  | error e =>
      rw [hv] at h
      exact absurd h (by simp)

theorem expressionPass_eq (setting : Setting) (scope : Scope) (t : Text) :
    expressionPass setting scope t = (do
      checkTerminated setting.config .expression scope.origin (scanExpressions t).unterminated
      let outputs ← (scanExpressions t).regions.mapM
        (regionText setting (Expr.Globals.within scope.context) scope.origin)
      return (Draft.ofSource t).replace (scanExpressions t) outputs) := by
  rw [expressionPass]
  simp only [mapDistinct_eq_mapM _ _ regionText_determined]

theorem checkTerminated_none (config : Config) (kind : RegionKind) (origin : Origin) :
    checkTerminated config kind origin none = .ok () := rfl

theorem checkTerminated_congr {config config' : Config} (h : config.isStrict = config'.isStrict) :
    checkTerminated config = checkTerminated config' := by
  funext kind origin offset
  cases offset with
  | none => rfl
  | some k => rw [checkTerminated, checkTerminated, h]

theorem checkTerminated_strict {config : Config} (h : config.isStrict = true)
    (kind : RegionKind) (origin : Origin) (k : Nat) :
    checkTerminated config kind origin (some k) = .error (.unterminated kind k origin) := by
  rw [checkTerminated, if_pos h]

/-- Nothing fails here if malformed markup does not, or if there is none. -/
theorem checkTerminated_ok {config : Config} {offset : Option Nat}
    (h : config.isStrict = true → offset = none) (kind : RegionKind) (origin : Origin) :
    checkTerminated config kind origin offset = .ok () := by
  cases offset with
  | none => rfl
  | some k =>
      rw [checkTerminated, if_neg]
      intro hs
      exact absurd (h hs) (by simp)

/-- The regions all have values: they stand in their places, escaped. -/
theorem expressionPass_of_values (setting : Setting) (scope : Scope) {t : Text} {values : List Text}
    (hterm : setting.config.isStrict = true → (scanExpressions t).unterminated = none)
    (hvalues : List.Forall₂ (fun r v => regionValue setting.config scope.context r = .ok v)
      (scanExpressions t).regions values) :
    expressionPass setting scope t =
      .ok ((Draft.ofSource t).replace (scanExpressions t) (values.map escapeText)) := by
  have houtputs : (scanExpressions t).regions.mapM
      (regionText setting (Expr.Globals.within scope.context) scope.origin) =
      .ok (values.map escapeText) := by
    rw [mapM_eq_ok_iff, List.forall₂_map_right_iff]
    exact hvalues.imp fun r v h => regionText_of_ok h
  rw [expressionPass_eq, checkTerminated_ok hterm, Except.bind_ok, houtputs, Except.bind_ok]
  rfl

/-- The first region without a value fails. -/
theorem expressionPass_of_failure (setting : Setting) (scope : Scope) {t : Text}
    {before after : List Region} {r : Region} {e : Expr.ExprError}
    (hterm : setting.config.isStrict = true → (scanExpressions t).unterminated = none)
    (hsplit : (scanExpressions t).regions = before ++ r :: after)
    (hbefore : ∀ q ∈ before, ∃ v, regionValue setting.config scope.context q = .ok v)
    (hr : regionValue setting.config scope.context r = .error e) :
    expressionPass setting scope t =
      .error (.expression r.text r.span.start scope.origin e) := by
  have houtputs : (scanExpressions t).regions.mapM
      (regionText setting (Expr.Globals.within scope.context) scope.origin) =
      .error (.expression r.text r.span.start scope.origin e) := by
    rw [hsplit]
    refine mapM_eq_error (fun q hq => ?_) (regionText_of_error hr)
    obtain ⟨v, hv⟩ := hbefore q hq
    exact ⟨escapeText v, regionText_of_ok hv⟩
  rw [expressionPass_eq, checkTerminated_ok hterm, Except.bind_ok, houtputs, Except.bind_error]

/-! ## Partials -/

theorem expand?_eq (setting : Setting) (invoke : Invoke) (origin : Origin) (name body : Text)
    (draft : Draft) :
    expand? setting invoke origin name body draft = (do
      let scan := Markup.scanTags (some (tagName name)) draft.text
      checkTerminated setting.config .tag origin (scan.unterminated.map draft.map.toSource)
      if scan.regions = [] then return none
      let outputs ← scan.regions.mapM fun r => invoke name body r.text
      return some (draft.replace scan outputs)) := by
  have determined : ∀ (r r' : Region) (v : Text), r.text = r'.text →
      invoke name body r.text = .ok v → invoke name body r'.text = .ok v := by
    intro r r' v htext h
    rwa [← htext]
  rw [expand?]
  simp only [mapDistinct_eq_mapM _ _ determined]

section Rounds

variable {invoke : Invoke} {origin : Origin} {P : Draft → Prop} {E : RenderError → Prop}

theorem expandNext_outcome {p : Text × Text}
    (step : ∀ draft, P draft →
      Outcome (fun result => ∀ draft' ∈ result, P draft') E
        (expand? setting invoke origin p.1 p.2 draft))
    {state : Draft × Bool} (h : P state.1) :
    Outcome (fun state' => P state'.1) E (expandNext setting invoke origin state p) := by
  refine (step state.1 h).bind fun result _ hresult => ?_
  cases result with
  | none => exact h
  | some draft => exact hresult draft rfl

/-- **What every expansion keeps, all rounds keep**, and what holds of the failures
of expansions holds of the failure of the rounds. -/
theorem expandRounds_outcome
    (step : ∀ draft, ∀ p ∈ setting.registry, P draft →
      Outcome (fun result => ∀ draft' ∈ result, P draft') E
        (expand? setting invoke origin p.1 p.2 draft))
    (rounds : Nat) {draft : Draft} (h : P draft) :
    Outcome P E (expandRounds setting invoke origin rounds draft) := by
  induction rounds generalizing draft with
  | zero => exact h
  | succ rounds ih =>
      have hround : Outcome (fun state : Draft × Bool => P state.1) E
          (expandRound setting invoke origin draft) :=
        Outcome.foldlM (fun state p hp hstate =>
          expandNext_outcome (fun draft hdraft => step draft p hp hdraft) hstate) h
      rw [expandRounds]
      refine hround.bind fun state _ hstate => ?_
      obtain ⟨draft', found⟩ := state
      cases found with
      | true => exact ih hstate
      | false => exact hstate

end Rounds

/-- A partial without tags changes nothing. -/
theorem expand?_of_untagged (setting : Setting) (invoke : Invoke) (origin : Origin)
    {name : Text} (body : Text) {draft : Draft}
    (h : Markup.Untagged (some (tagName name)) false draft.text) :
    expand? setting invoke origin name body draft = .ok none := by
  rw [expand?_eq, Markup.scanTags_of_untagged h]
  rfl

theorem expandNext_of_untagged (setting : Setting) (invoke : Invoke) (origin : Origin)
    (state : Draft × Bool) {partials : List (Text × Text)}
    (h : ∀ p ∈ partials, Markup.Untagged (some (tagName p.1)) false state.1.text) :
    partials.foldlM (expandNext setting invoke origin) state = .ok state := by
  induction partials with
  | nil => rfl
  | cons p partials ih =>
      have hp := expand?_of_untagged setting invoke origin p.2 (h p List.mem_cons_self)
      have hnext : expandNext setting invoke origin state p = .ok state := by
        rw [expandNext, hp]
        rfl
      rw [List.foldlM_cons, hnext, Except.bind_ok]
      exact ih fun q hq => h q (List.mem_cons_of_mem p hq)

/-- A text without tags of the registered partials is not expanded any more. -/
theorem expandRounds_of_untagged {setting : Setting} (invoke : Invoke) (origin : Origin)
    (rounds : Nat) {draft : Draft}
    (h : ∀ p ∈ setting.registry, Markup.Untagged (some (tagName p.1)) false draft.text) :
    expandRounds setting invoke origin rounds draft = .ok draft := by
  cases rounds with
  | zero => rfl
  | succ rounds =>
      rw [expandRounds, expandRound, expandNext_of_untagged setting invoke origin _ h]
      rfl

/-- An invocation fails as a cycle, or as its body does. -/
theorem invoke_eq_error {inner : Inner} {scope : Scope} {name body fragment : Text}
    {e : RenderError} (h : invoke inner scope name body fragment = .error e) :
    e = (scope.enter name fragment).cycle ∨ inner (scope.enter name fragment) body = .error e := by
  unfold invoke at h
  dsimp only at h
  split at h
  · exact Or.inl (Except.error.inj h).symm
  · exact Or.inr h

/-- The guard against re-entry does not look at how bodies are rendered: where two ways to
render them are related, invocations are. -/
theorem invoke_related {R : Except RenderError Text → Except RenderError Text → Prop}
    {inner inner' : Inner} (cycle : ∀ chain, R (.error (.cyclic chain)) (.error (.cyclic chain)))
    (step : ∀ entered body, R (inner entered body) (inner' entered body)) (scope : Scope)
    (name body fragment : Text) :
    R (invoke inner scope name body fragment) (invoke inner' scope name body fragment) := by
  unfold invoke
  dsimp only
  split
  · exact cycle _
  · exact step _ body

/-- Of a setting, rounds look at the registry and at strictness only. -/
theorem expandRounds_congr {setting setting' : Setting}
    (hregistry : setting.registry = setting'.registry)
    (hstrict : setting.config.isStrict = setting'.config.isStrict) (invoke : Invoke)
    (origin : Origin) (rounds : Nat) (draft : Draft) :
    expandRounds setting invoke origin rounds draft =
      expandRounds setting' invoke origin rounds draft := by
  have same_next : expandNext setting invoke origin = expandNext setting' invoke origin := by
    funext state p
    rw [expandNext, expandNext, expand?, expand?, checkTerminated_congr hstrict]
  have same_round : expandRound setting invoke origin = expandRound setting' invoke origin := by
    funext draft
    rw [expandRound, expandRound, hregistry, same_next]
  induction rounds generalizing draft with
  | zero => rfl
  | succ rounds ih =>
      rw [expandRounds, expandRounds, same_round]
      simp only [ih]

/-- With no partials nothing is expanded. -/
theorem expandRounds_of_no_partials {config : Config} (invoke : Invoke) (origin : Origin)
    (rounds : Nat) (draft : Draft) :
    expandRounds ⟨[], config⟩ invoke origin rounds draft = .ok draft := by
  exact expandRounds_of_untagged invoke origin rounds (by simp)

/-- Nothing is unknown if every tag of a partial is registered. -/
theorem checkKnown_ok {setting : Setting} {draft : Draft} (origin : Origin)
    (h : setting.config.isStrict = true →
      ∀ i ∈ Markup.partialInvocations draft.text, Bindings.contains setting.registry i.name) :
    checkKnown setting origin draft = .ok () := by
  unfold checkKnown
  cases hfind : (Markup.partialInvocations draft.text).find? fun i =>
      !Bindings.contains setting.registry i.name with
  | none => rfl
  | some i =>
      have hunknown := List.find?_some hfind
      have hmem := List.mem_of_find?_eq_some hfind
      have lenient : ¬ setting.config.isStrict = true := by
        intro hs
        rw [h hs i hmem] at hunknown
        exact Bool.noConfusion hunknown
      exact if_neg lenient

end Stencil.Render
