import Stencil.Proofs.Render.Passes

/-!
# Templates without partials

With no partials a render is the expression pass, a look for tags that no partial
answers, and one resolution of escapes. `Evaluates` says what comes of these three
in terms of the regions of the template, their values and the gaps between them,
one clause for each way in which the render can end: a region that stays open comes
before every value, and a region without a value comes before every tag. The
clauses leave no case out (`Evaluates.unique`), so that the render is the one
outcome that meets them (`evaluates_iff_eq_render`).
-/

namespace Stencil.Render

open Markup

/-- The way an offset in a text goes back, when values stand in the place of the
regions of a scan. -/
def backThrough (s : Scan) (values : List Text) : SourceMap :=
  [splicesFrom 0 (s.regions.zip (values.map escapeText))]

/-- How the render of a template ends, by its regions and their values. -/
structure Evaluates (t : Text) (c : Context) (config : Config)
    (outcome : Except RenderError Text) : Prop where
  /-- The regions and the gaps are the pieces of the template. -/
  pieces : Tiling '{' (Region.enclosed '{' '}') (scanExpressions t).tail 0
    (scanExpressions t).regions t
  /-- A region that stays open fails, whatever the values are. -/
  unterminated : ∀ k, config.isStrict = true → (scanExpressions t).unterminated = some k →
    outcome = .error (.unterminated .expression k .template)
  /-- The first region without a value fails. -/
  failure : (config.isStrict = true → (scanExpressions t).unterminated = none) →
    ∀ before r after e, (scanExpressions t).regions = before ++ r :: after →
      (∀ q ∈ before, ∃ v, regionValue config c q = .ok v) → regionValue config c r = .error e →
      outcome = .error (.expression r.text r.span.start .template e)
  /-- A tag of a partial fails, in the text with the values. -/
  unknown : (config.isStrict = true → (scanExpressions t).unterminated = none) →
    ∀ values, List.Forall₂ (fun r v => regionValue config c r = .ok v)
        (scanExpressions t).regions values →
      ∀ i others, config.isStrict = true →
        partialInvocations ((scanExpressions t).weave (values.map escapeText)) = i :: others →
        outcome = .error (.unknownPartial i.name
          ((backThrough (scanExpressions t) values).toSource i.offset) .template)
  /-- Otherwise the values stand between the resolved gaps. -/
  text : (config.isStrict = true → (scanExpressions t).unterminated = none) →
    ∀ values, List.Forall₂ (fun r v => regionValue config c r = .ok v)
        (scanExpressions t).regions values →
      (config.isStrict = true →
        partialInvocations ((scanExpressions t).weave (values.map escapeText)) = []) →
      outcome = .ok ((scanExpressions t).resolve values)

/-! ## The three parts of such a render -/

theorem renderText_of_no_partials (config : Config) (room : Nat) (scope : Scope) (t : Text) :
    renderText ⟨[], config⟩ room scope t = (do
      let draft ← expressionPass ⟨[], config⟩ scope t
      checkKnown ⟨[], config⟩ scope.origin draft
      return draft.text) := by
  cases room <;> simp only [renderText, renderPasses, expandRounds_of_no_partials, Except.bind_ok]

/-- With no partials, the first tag of a partial is unknown. -/
theorem checkKnown_of_no_partials {config : Config} (h : config.isStrict = true)
    (origin : Origin) {draft : Draft} {i : PartialInvocation} {others : List PartialInvocation}
    (hi : partialInvocations draft.text = i :: others) :
    checkKnown ⟨[], config⟩ origin draft =
      .error (.unknownPartial i.name (draft.map.toSource i.offset) origin) := by
  simp [checkKnown, hi, Bindings.contains, h]

theorem evaluates_render (t : Text) (c : Context) (config : Config) :
    Evaluates t c config (render t c [] config) := by
  have tiles : Tiling '{' (Region.enclosed '{' '}') (scanExpressions t).tail 0
      (scanExpressions t).regions t := scanBraces_tiling '{' (by decide) t
  refine ⟨tiles, ?_, ?_, ?_, ?_⟩
  · intro k hs hk
    rw [render, renderText_of_no_partials, expressionPass_eq, hk]
    rw [checkTerminated_strict hs]
    rfl
  · intro hterm before r after e hsplit hbefore hr
    rw [render, renderText_of_no_partials]
    rw [expressionPass_of_failure ⟨[], config⟩ (Scope.root c) hterm hsplit hbefore hr]
    rfl
  · intro hterm values hvalues i others hs hi
    rw [render, renderText_of_no_partials]
    rw [expressionPass_of_values ⟨[], config⟩ (Scope.root c) hterm hvalues, Except.bind_ok]
    rw [checkKnown_of_no_partials hs _ hi]
    rfl
  · intro hterm values hvalues hnone
    rw [render, renderText_of_no_partials]
    rw [expressionPass_of_values ⟨[], config⟩ (Scope.root c) hterm hvalues, Except.bind_ok]
    rw [checkKnown_ok _ fun hs i hi => absurd hi (by simp [hnone hs, Draft.replace]),
      Except.bind_ok]
    exact congrArg Except.ok (unescape_weave tiles values)

/-- There is a clause for every way in which a render can end. -/
theorem Evaluates.unique {t : Text} {c : Context} {config : Config}
    {o o' : Except RenderError Text} (h : Evaluates t c config o) (h' : Evaluates t c config o') :
    o = o' := by
  by_cases hterm : config.isStrict = true → (scanExpressions t).unterminated = none
  · rcases forall₂_or_first_error (regionValue config c) (scanExpressions t).regions with
      ⟨values, hvalues⟩ | ⟨before, r, after, e, hsplit, hbefore, hr⟩
    · by_cases hnone : config.isStrict = true →
          partialInvocations ((scanExpressions t).weave (values.map escapeText)) = []
      · rw [h.text hterm values hvalues hnone, h'.text hterm values hvalues hnone]
      · obtain ⟨hs, htag⟩ := Classical.not_imp.1 hnone
        obtain ⟨i, others, hi⟩ := List.exists_cons_of_ne_nil htag
        rw [h.unknown hterm values hvalues i others hs hi,
          h'.unknown hterm values hvalues i others hs hi]
    · rw [h.failure hterm before r after e hsplit hbefore hr,
        h'.failure hterm before r after e hsplit hbefore hr]
  · obtain ⟨hs, hopen⟩ := Classical.not_imp.1 hterm
    obtain ⟨k, hk⟩ := Option.ne_none_iff_exists'.1 hopen
    rw [h.unterminated k hs hk, h'.unterminated k hs hk]

/-- What has gone before a text that comes out. -/
theorem Evaluates.exists_values {t x : Text} {c : Context} {config : Config}
    (h : Evaluates t c config (.ok x)) :
    ∃ values, List.Forall₂ (fun r v => regionValue config c r = .ok v)
        (scanExpressions t).regions values ∧
      (config.isStrict = true →
        partialInvocations ((scanExpressions t).weave (values.map escapeText)) = []) ∧
      x = (scanExpressions t).resolve values := by
  have hterm : config.isStrict = true → (scanExpressions t).unterminated = none := by
    intro hs
    by_contra hopen
    obtain ⟨k, hk⟩ := Option.ne_none_iff_exists'.1 hopen
    exact absurd (h.unterminated k hs hk) (by simp)
  rcases forall₂_or_first_error (regionValue config c) (scanExpressions t).regions with
    ⟨values, hvalues⟩ | ⟨before, r, after, e, hsplit, hbefore, hr⟩
  · have hnone : config.isStrict = true →
        partialInvocations ((scanExpressions t).weave (values.map escapeText)) = [] := by
      intro hs
      by_contra htag
      obtain ⟨i, others, hi⟩ := List.exists_cons_of_ne_nil htag
      exact absurd (h.unknown hterm values hvalues i others hs hi) (by simp)
    exact ⟨values, hvalues, hnone, Except.ok.inj (h.text hterm values hvalues hnone)⟩
  · exact absurd (h.failure hterm before r after e hsplit hbefore hr) (by simp)

/-- **What a template without partials renders to**: the one outcome that its
regions, their values and its gaps allow. -/
theorem evaluates_iff_eq_render (t : Text) (c : Context) (config : Config)
    (outcome : Except RenderError Text) :
    Evaluates t c config outcome ↔ outcome = render t c [] config := by
  constructor
  · intro h
    exact h.unique (evaluates_render t c config)
  · rintro rfl
    exact evaluates_render t c config

end Stencil.Render
