import Stencil.Proofs.Expr.Name
import Stencil.Proofs.Markup.Slots
import Stencil.Proofs.Markup.Tagless
import Stencil.Proofs.Partial.Invocation
import Stencil.Proofs.Render.Rest

/-!
# Markup with a single invocation

The passes of a text are followed here where its expressions stand for texts that are
known (`expressionPass_slotted`), where a fragment of one partial is all that there is to
expand then, and where nothing is left once its rendered body stands in its place
(`Settled`). Then one round expands the fragment, the next finds nothing, and the text
renders to what the invocation gives, between what stood around the fragment
(`renderPasses_single`).
-/

namespace Stencil.Render

open Markup
open Partial (Registry isValidName contentsName)

variable {setting : Setting} {registry : Registry} {name body : Text}

/-! ## Expressions that stand for values -/

/-- Markup without expressions has no values to wait for. -/
theorem expressionPass_of_free (setting : Setting) (scope : Scope) {t : Text}
    (h : Free '{' false t) : expressionPass setting scope t = .ok ⟨t, [[]]⟩ := by
  have hscan : scanExpressions t = ⟨[], t, none⟩ := scanBraces_of_free h '}'
  rw [expressionPass_eq, hscan]
  rfl

/-- Where the expressions of a text stand for values, the pass leaves these between the
gaps, escaped. -/
theorem expressionPass_slotted (setting : Setting) (scope : Scope) {pieces : List (Text × Text)}
    (hpieces : ∀ p ∈ pieces, Slot p) {tail : Text} (htail : Free '{' false tail)
    {values : List Text}
    (hvalues : List.Forall₂ (fun p v => Expr.evaluateText (Expr.Globals.within scope.context)
      setting.config.limits p.2 = .ok v) pieces values) :
    ∃ draft, expressionPass setting scope (slotted pieces tail) = .ok draft ∧
      draft.text = ((pieces.zip values).flatMap fun p => p.1.1 ++ escapeText p.2) ++ tail := by
  obtain ⟨regions, hscan, rfl⟩ := scanExpressions_slotted hpieces htail
  rw [List.forall₂_map_left_iff] at hvalues
  refine ⟨_, expressionPass_of_values setting scope (fun _ => by rw [hscan])
    (by rw [hscan]; exact hvalues), ?_⟩
  rw [hscan]
  simp [Draft.replace, Scan.weave, List.zip_map_left, List.zip_map_right, List.flatMap_map]

theorem isName_contentsName : Expr.IsName contentsName :=
  ⟨by decide, by decide, by decide⟩

/-- A name that a context binds to a text. -/
structure Stands (c : Context) (word v : Text) : Prop where
  name : Expr.IsName word
  bound : Bindings.get? c word = some (.string v)

/-- A gap with such a name behind it. -/
structure Shown (c : Context) (p : Text × Text) (v : Text) : Prop where
  gap : Free '{' false p.1
  closed : pending false p.1 = false
  stands : Stands c p.2 v

theorem Shown.slot {c : Context} {p : Text × Text} {v : Text} (h : Shown c p v) : Slot p := by
  have not_mem : ∀ d, Expr.Lexer.isNameChar d = false → d ∉ p.2 := by
    intro d hd hmem
    exact Expr.ne_of_isNameChar (List.all_eq_true.1 h.stands.name.chars d hmem) hd rfl
  exact ⟨h.gap, h.closed, free_of_not_mem (not_mem _ (by decide)) false,
    free_of_not_mem (not_mem _ (by decide)) false,
    pending_of_no_backslash (not_mem _ (by decide))⟩

/-- In particular where the expressions are names. -/
theorem expressionPass_shown {scope : Scope} (hc : Bindings.Distinct scope.context)
    (hsteps : 1 ≤ setting.config.limits.steps) {pieces : List (Text × Text)} {values : List Text}
    (h : List.Forall₂ (Shown scope.context) pieces values) {tail : Text}
    (htail : Free '{' false tail) :
    ∃ draft, expressionPass setting scope (slotted pieces tail) = .ok draft ∧
      draft.text = ((pieces.zip values).flatMap fun p => p.1.1 ++ escapeText p.2) ++ tail := by
  have hslots : ∀ p ∈ pieces, Slot p := by
    clear htail
    induction h with
    | nil => simp
    | cons hp _ ih => exact List.forall_mem_cons.2 ⟨hp.slot, ih⟩
  exact expressionPass_slotted setting scope hslots htail
    (h.imp fun p v hp => Expr.evaluateText_name hc hsteps hp.stands.name hp.stands.bound)

/-! ## Nothing left to expand -/

/-- A text in which the passes for the partials have nothing to do: no scan for one of
them finds a tag, and no tag is unknown. -/
structure Settled (registry : Registry) (t : Text) : Prop where
  untagged : ∀ p ∈ registry, Untagged (some (tagName p.1)) false t
  known : ∀ i ∈ partialInvocations t, Bindings.contains registry i.name

theorem settled_of_tagless (hvalid : registry.Valid) {t : Text} (h : Tagless false t) :
    Settled registry t where
  untagged p hp := untagged_of_tagless (hvalid.named p.1 (Bindings.mem_names hp)) h
  known i hi := by
    rw [partialInvocations_eq_nil_iff.2 h] at hi
    exact absurd hi (by simp)

/-- A settled text renders to what its expression pass leaves. -/
theorem renderText_of_settled (setting : Setting) (room : Nat) {scope : Scope} {t : Text}
    {draft : Draft} (hpass : expressionPass setting scope t = .ok draft)
    (h : Settled setting.registry draft.text) :
    renderText setting room scope t = .ok draft.text := by
  rw [renderText_eq, renderPasses, hpass, Except.bind_ok,
    expandRounds_of_untagged _ _ _ h.untagged, Except.bind_ok, checkKnown_ok _ fun _ => h.known]
  rfl

/-! ## One fragment -/

/-- A text in which a scan for one partial finds one fragment, and scans for the others
find none. -/
structure Single (registry : Registry) (name t : Text) (r : Region) (tail : Text) : Prop where
  scan : scanTags (some (tagName name)) t = ⟨[r], tail, none⟩
  others : ∀ p ∈ registry, p.1 ≠ name → Untagged (some (tagName p.1)) false t

/-- An invocation of a registered partial, with no tags inside. -/
theorem single_invocation (hvalid : registry.Valid) (hmem : name ∈ Bindings.names registry)
    {attributes inner : Text} (hrest : TagRest attributes)
    (hslash : attributes.getLast? ≠ some '/') (hattributes : Free '<' false attributes)
    (hfree : Free '<' false inner) (hpend : pending false inner = false) :
    Single registry name (invocation name attributes inner)
      ⟨[], invocation name attributes inner,
        ⟨0, Text.byteLength (invocation name attributes inner)⟩⟩ [] where
  scan := scanTags_invocation (hvalid.named name hmem) hrest hslash hfree hpend
  others p hp hne :=
    untagged_invocation (hvalid.named name hmem)
      (hvalid.named p.1 (Bindings.mem_names hp)) hne hrest hattributes hfree hpend

/-- An invocation with nothing inside, between texts without tags. -/
theorem single_emptyTag (hvalid : registry.Valid) (hmem : name ∈ Bindings.names registry)
    {before rest : Text} (hbefore : Free '<' false before) (hclosed : pending false before = false)
    (hfree : Free '<' false rest) :
    Single registry name (before ++ (emptyTag name ++ rest))
      ⟨before, emptyTag name,
        ⟨Text.byteLength before, Text.byteLength before + Text.byteLength (emptyTag name)⟩⟩
      rest where
  scan := scanTags_emptyTag (hvalid.named name hmem) hbefore hclosed (untagged_of_free hfree)
  others p hp hne := by
    refine untagged_append_of_free hbefore ?_
    rw [hclosed]
    exact untagged_openingTag (hvalid.named name hmem)
      (hvalid.named p.1 (Bindings.mem_names hp)) hne tagRest_slash
      (free_of_not_mem (by decide) false) (untagged_of_free hfree)

/-- The fragment gives way to what the invocation gives. -/
theorem expand?_single (invoke : Invoke) (origin : Origin) {draft : Draft} {r : Region}
    {tail : Text} (h : Single setting.registry name draft.text r tail) :
    expand? setting invoke origin name body draft = (do
      let markup ← invoke name body r.text
      return some (draft.replace ⟨[r], tail, none⟩ [markup])) := by
  rw [expand?_eq]
  simp only [h.scan, Option.map_none, checkTerminated_none, Except.bind_ok]
  cases hmarkup : invoke name body r.text with
  | error e => simp [hmarkup]
  | ok markup => simp [hmarkup]

/-- The round that finds it does nothing else, if nothing is left then. -/
theorem expandRound_single (hvalid : setting.registry.Valid)
    (hget : Bindings.get? setting.registry name = some body) (invoke : Invoke) (origin : Origin)
    {draft : Draft} {r : Region} {tail : Text}
    (h : Single setting.registry name draft.text r tail)
    (hsettled : ∀ markup, invoke name body r.text = .ok markup →
      Settled setting.registry (r.gap ++ markup ++ tail)) :
    expandRound setting invoke origin draft = (do
      let markup ← invoke name body r.text
      return (draft.replace ⟨[r], tail, none⟩ [markup], true)) := by
  obtain ⟨before, after, hsplit, hbefore, -⟩ := hvalid.split hget
  have passed : ∀ p ∈ before, Untagged (some (tagName p.1)) false draft.text := by
    intro p hp
    refine h.others p (hsplit ▸ List.mem_append_left _ hp) ?_
    rintro rfl
    exact hbefore (Bindings.mem_names hp)
  rw [expandRound, hsplit, List.foldlM_append,
    expandNext_of_untagged _ _ _ (draft, false) passed, Except.bind_ok,
    List.foldlM_cons, expandNext, expand?_single invoke origin h]
  cases hmarkup : invoke name body r.text with
  | error e => rfl
  | ok markup =>
      have hafter : ∀ p ∈ after, Untagged (some (tagName p.1)) false
          (draft.replace ⟨[r], tail, none⟩ [markup]).text := by
        intro p hp
        have hmem : p ∈ setting.registry :=
          hsplit ▸ List.mem_append_right _ (List.mem_cons_of_mem _ hp)
        simpa [Draft.replace, Scan.weave] using (hsettled markup hmarkup).untagged p hmem
      simp only [Except.bind_ok, Except.pure_eq_ok]
      exact expandNext_of_untagged _ _ _ (_, true) hafter

/-- **A text with a single invocation renders to what that gives**, between what stands
around it. -/
theorem renderPasses_single (hvalid : setting.registry.Valid) {rounds : Nat}
    (hrounds : setting.config.maxPartialDepth = rounds + 1)
    (hget : Bindings.get? setting.registry name = some body) {invoke : Invoke} {scope : Scope}
    {t tail : Text} {draft : Draft} {r : Region}
    (hpass : expressionPass setting scope t = .ok draft)
    (h : Single setting.registry name draft.text r tail)
    (hsettled : ∀ markup, invoke name body r.text = .ok markup →
      Settled setting.registry (r.gap ++ markup ++ tail)) :
    renderPasses setting invoke scope t =
      (fun markup => r.gap ++ markup ++ tail) <$> invoke name body r.text := by
  rw [renderPasses, hpass, Except.bind_ok, hrounds, expandRounds,
    expandRound_single hvalid hget invoke scope.origin h hsettled]
  cases hmarkup : invoke name body r.text with
  | error e => rfl
  | ok markup =>
      have htext : (draft.replace ⟨[r], tail, none⟩ [markup]).text = r.gap ++ markup ++ tail := by
        simp [Draft.replace, Scan.weave]
      have hrest := hsettled markup hmarkup
      rw [← htext] at hrest
      simp only [Except.bind_ok, Except.pure_eq_ok, if_true]
      rw [expandRounds_of_untagged _ _ _ hrest.untagged, Except.bind_ok,
        checkKnown_ok _ fun _ => hrest.known, Except.bind_ok, Except.map_ok, htext]

end Stencil.Render
