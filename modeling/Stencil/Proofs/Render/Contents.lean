import Stencil.Proofs.Render.Single

/-!
# Contents that are shown again

The contents of an invocation reach the body of its partial with their escapes
resolved, and where the body shows them they are a value like any other: their
backslashes are doubled, and nothing else about them is escaped any more. So the
escaped text of an invocation takes no part in the structure around it: braces and
backslashes of it never do (`render_enclose_escapeMarkup`). A tag of a partial that
it spells does count, once it stands in the body: this is how values produce
invocations, and `render_enclose_tag` is what comes of one that no partial answers.
-/

namespace Stencil.Render

open Markup
open Partial (Registry isValidName contentsName)

/-- A body that shows its contents between brackets. -/
def bracketBody : Text := "[\x7bcontents\x7d]".toList

/-- The markup of a value between brackets. -/
def bracketMarkup (u : Text) : Text :=
  '[' :: (escapeText u ++ [']'])

/-- What is left to say of a value between brackets in which no registered partial
has a tag: the first tag in it decides if no partial answers it. -/
def bracketOutcome (registry : Registry) (name u : Text) : Except RenderError Text :=
  match (tagNames u).find? fun n => !Bindings.contains registry n with
  | some unknown => .error (.unknownPartial unknown 1 (.body name))
  | none => .ok ('[' :: (u ++ [']']))

/-- The same of the markup, for a body of some origin. -/
def bracketRender (registry : Registry) (origin : Origin) (u : Text) : Except RenderError Text :=
  match (tagNames u).find? fun n => !Bindings.contains registry n with
  | some unknown => .error (.unknownPartial unknown 1 origin)
  | none => .ok (bracketMarkup u)

theorem unescape_bracketRender (registry : Registry) (name u : Text) :
    unescape <$> bracketRender registry (.body name) u = bracketOutcome registry name u := by
  rw [bracketRender, bracketOutcome]
  cases (tagNames u).find? fun n => !Bindings.contains registry n with
  | some unknown => rfl
  | none =>
      rw [Except.map_ok, bracketMarkup, unescape_cons_of_ne (by decide), unescape_escapeText_append]
      rfl

/-! ## The body -/

theorem scanExpressions_bracketBody :
    scanExpressions bracketBody = ⟨[⟨['['], contentsName, ⟨1, 11⟩⟩], [']'], none⟩ := by
  decide

/-- The body with the value in its place. -/
def bracketDraft (u : Text) : Draft :=
  (Draft.ofSource bracketBody).replace (scanExpressions bracketBody) [escapeText u]

theorem bracketDraft_text (u : Text) : (bracketDraft u).text = bracketMarkup u := by
  simp [bracketDraft, Draft.replace, scanExpressions_bracketBody, Scan.weave, bracketMarkup]

/-- All of the value stands for the region that it is the value of. -/
theorem bracketDraft_toSource {u : Text} {offset : Nat}
    (h : 1 ≤ offset ∧ offset < 1 + Text.byteLength (escapeText u)) :
    (bracketDraft u).map.toSource offset = 1 := by
  have hafter : ¬ offset < 1 := by omega
  have hsize : Char.utf8Size '[' = 1 := rfl
  simp [bracketDraft, Draft.replace, Draft.ofSource, scanExpressions_bracketBody, splicesFrom,
    SourceMap.toSource, throughSplices, hsize, hafter, h.2]

theorem untagged_bracketMarkup {registry : Registry} (hvalid : registry.Valid) {u : Text}
    (hquiet : ∀ n ∈ Bindings.names registry, hasTag n u = false) :
    ∀ p ∈ registry, Untagged (some (tagName p.1)) false (bracketMarkup u) := by
  intro p hp
  have hname := Bindings.mem_names hp
  have hvalue := untagged_escapeText (hvalid.named p.1 hname) (d := ']') (by decide) (by decide)
    (by decide) (hquiet p.1 hname)
  exact untagged_append_of_free (s := ['[']) (free_of_not_mem (by decide) false) hvalue

theorem partialInvocations_bracketMarkup (u : Text) :
    (partialInvocations (bracketMarkup u)).map PartialInvocation.name = tagNames u ∧
    ∀ i ∈ partialInvocations (bracketMarkup u),
      1 ≤ i.offset ∧ i.offset < 1 + Text.byteLength (escapeText u) :=
  partialInvocationsFrom_escapeText (d := ']') (by decide) (by decide) u 1

/-- The first tag of the value that no partial answers fails. -/
theorem checkKnown_bracketMarkup {setting : Setting} (hs : setting.config.isStrict = true)
    (origin : Origin) (draft : Draft) {u : Text} (htext : draft.text = bracketMarkup u) :
    (∃ i, i ∈ partialInvocations (bracketMarkup u) ∧
      (tagNames u).find? (fun n => !Bindings.contains setting.registry n) = some i.name ∧
      checkKnown setting origin draft =
        .error (.unknownPartial i.name (draft.map.toSource i.offset) origin)) ∨
    ((tagNames u).find? (fun n => !Bindings.contains setting.registry n) = none ∧
      checkKnown setting origin draft = .ok ()) := by
  have hnames := (partialInvocations_bracketMarkup u).1
  rw [← hnames, List.find?_map, checkKnown, htext]
  cases hfind : (partialInvocations (bracketMarkup u)).find?
      ((fun n => !Bindings.contains setting.registry n) ∘ PartialInvocation.name) with
  | none =>
      refine Or.inr ⟨rfl, ?_⟩
      rw [Function.comp_def] at hfind
      rw [hfind]
  | some i =>
      refine Or.inl ⟨i, List.mem_of_find?_eq_some hfind, rfl, ?_⟩
      rw [Function.comp_def] at hfind
      simp only [hfind, hs, if_true]

/-- The body in a scope in which its contents have a value. -/
theorem renderPasses_bracketBody (setting : Setting) (hvalid : setting.registry.Valid)
    (hs : setting.config.isStrict = true) (invoke : Invoke) {scope : Scope} {u : Text}
    (hvalue : ∀ r : Region, r.text = contentsName →
      regionValue setting.config scope.context r = .ok u)
    (hquiet : ∀ n ∈ Bindings.names setting.registry, hasTag n u = false) :
    renderPasses setting invoke scope bracketBody =
      bracketRender setting.registry scope.origin u := by
  have hpass : expressionPass setting scope bracketBody = .ok (bracketDraft u) := by
    have hvalues : List.Forall₂ (fun r v => regionValue setting.config scope.context r = .ok v)
        (scanExpressions bracketBody).regions [u] := by
      rw [scanExpressions_bracketBody]
      exact .cons (hvalue _ rfl) .nil
    refine expressionPass_of_values setting scope ?_ hvalues
    rw [scanExpressions_bracketBody]
    exact fun _ => rfl
  have hquiet' := untagged_bracketMarkup hvalid hquiet
  rw [← bracketDraft_text] at hquiet'
  rw [renderPasses, hpass, Except.bind_ok, expandRounds_of_untagged _ _ _ hquiet', Except.bind_ok]
  rcases checkKnown_bracketMarkup hs scope.origin _ (bracketDraft_text u) with
    ⟨i, hi, hfind, hcheck⟩ | ⟨hfind, hcheck⟩
  · have hoffset := bracketDraft_toSource ((partialInvocations_bracketMarkup u).2 i hi)
    rw [hcheck, bracketRender, hfind, hoffset]
    rfl
  · rw [hcheck, bracketRender, hfind, Except.bind_ok, bracketDraft_text]
    rfl

/-! ## The invocation -/

/-- The scope in which the contents of an invocation are shown. -/
theorem enter_enclose {name u : Text} (hname : isValidName name = true) (c : Context) :
    ((Scope.root c).enter name (enclose name (escapeMarkup u))).context =
      Bindings.overlay c [(contentsName, .string u)] := by
  rw [Scope.enter]
  simp only [Partial.invocationBindings_enclose hname (pending_escapeMarkup u),
    unescape_escapeMarkup]
  rfl

theorem regionValue_contents (config : Config) (hsteps : 1 ≤ config.limits.steps) {c : Context}
    (hc : Bindings.Distinct c) (u : Text) {r : Region} (hr : r.text = contentsName) :
    regionValue config (Bindings.overlay c [(contentsName, .string u)]) r = .ok u := by
  have hdistinct := Bindings.distinct_overlay hc [(contentsName, Json.string u)]
  have hone : Bindings.Distinct [(contentsName, Json.string u)] := List.nodup_singleton _
  have hget : Bindings.get? (Bindings.overlay c [(contentsName, Json.string u)]) contentsName =
      some (.string u) := by
    rw [Bindings.get?_overlay hone]
    rfl
  rw [regionValue, hr, Expr.evaluateText_name hdistinct hsteps isName_contentsName hget]

/-- Nothing of the escaped text counts for the expressions of the template. -/
theorem free_enclose_escapeMarkup {name : Text} (hname : isValidName name = true) (u : Text) :
    Free '{' false (enclose name (escapeMarkup u)) := by
  rw [enclose_eq]
  exact free_invocation hname (by decide) (by decide) (by decide) (by decide) (free_nil '{' false)
    rfl (free_escapeMarkup (by decide) (by decide) u) (pending_escapeMarkup u)

/-- What the body renders to has nothing left to expand, and what is known in the body is
known in the template. -/
theorem settled_of_bracketRender {registry : Registry} (hvalid : registry.Valid) {origin : Origin}
    {u markup : Text} (hquiet : ∀ n ∈ Bindings.names registry, hasTag n u = false)
    (h : bracketRender registry origin u = .ok markup) : Settled registry markup := by
  unfold bracketRender at h
  cases hfind : (tagNames u).find? fun n => !Bindings.contains registry n with
  | some unknown =>
      rw [hfind] at h
      exact absurd h (by simp)
  | none =>
      rw [hfind] at h
      obtain rfl := Except.ok.inj h
      refine ⟨untagged_bracketMarkup hvalid hquiet, fun i hi => ?_⟩
      have hname : i.name ∈ tagNames u :=
        (partialInvocations_bracketMarkup u).1 ▸ List.mem_map.2 ⟨i, hi, rfl⟩
      simpa using List.find?_eq_none.1 hfind i.name hname

/-- What the body renders to is what the template renders to. -/
theorem renderPasses_enclose (setting : Setting) (hvalid : setting.registry.Valid) {rounds : Nat}
    (hrounds : setting.config.maxPartialDepth = rounds + 1) {name body u : Text}
    (hget : Bindings.get? setting.registry name = some body) {invoke : Invoke}
    (hinvoke : invoke name body (enclose name (escapeMarkup u)) =
      bracketRender setting.registry (.body name) u) (scope : Scope)
    (hquiet : ∀ n ∈ Bindings.names setting.registry, hasTag n u = false) :
    renderPasses setting invoke scope (enclose name (escapeMarkup u)) =
      bracketRender setting.registry (.body name) u := by
  have hmem := Bindings.mem_names_of_get? hget
  have hsingle := single_invocation hvalid hmem tagRest_nil (by simp) (free_nil '<' false)
    (free_escapeMarkup (by decide) (by decide) u) (pending_escapeMarkup u)
  rw [← enclose_eq] at hsingle
  rw [renderPasses_single hvalid hrounds hget
    (expressionPass_of_free setting scope (free_enclose_escapeMarkup (hvalid.named name hmem) u))
    hsingle fun markup hmarkup => ?_, hinvoke]
  · simp
  · rw [hinvoke] at hmarkup
    simpa using settled_of_bracketRender hvalid hquiet hmarkup

theorem render_enclose_eq {registry : Registry} (hvalid : registry.Valid) {name : Text}
    (hget : Bindings.get? registry name = some bracketBody) {c : Context}
    (hc : Bindings.Distinct c) {u : Text}
    (hquiet : ∀ n ∈ Bindings.names registry, hasTag n u = false) :
    render (enclose name (escapeMarkup u)) c registry {} =
      unescape <$> bracketRender registry (.body name) u := by
  have hname : isValidName name = true :=
    hvalid.named name (Bindings.mem_names_of_get? hget)
  -- the one invocation: its contents are the value, and the body shows them
  have hinvoke : invoke (fun entered body => renderText ⟨registry, {}⟩ 63 entered body)
      (Scope.root c) name bracketBody (enclose name (escapeMarkup u)) =
      bracketRender registry (.body name) u := by
    refine renderPasses_bracketBody ⟨registry, {}⟩ hvalid rfl _ (fun r hr => ?_) hquiet
    rw [enter_enclose hname]
    exact regionValue_contents {} (by decide) hc u hr
  rw [render, renderText,
    renderPasses_enclose ⟨registry, {}⟩ hvalid rfl hget hinvoke _ hquiet]

/-- **Escapes inside an invocation survive it.** What is escaped there is shown as
it is, if it spells no tag of a registered partial; and the first tag in it that no
partial answers fails, where the body shows it. -/
theorem render_enclose_escapeMarkup {registry : Registry} (hvalid : registry.Valid) {name : Text}
    (hget : Bindings.get? registry name = some bracketBody) {c : Context}
    (hc : Bindings.Distinct c) {u : Text}
    (hquiet : ∀ n ∈ Bindings.names registry, hasTag n u = false) :
    render (enclose name (escapeMarkup u)) c registry {} = bracketOutcome registry name u := by
  rw [render_enclose_eq hvalid hget hc hquiet, unescape_bracketRender]

/-- Braces, backslashes and tags that are none of a partial's. -/
theorem render_enclose_escapeMarkup_box :
    Registry.Valid [("box".toList, bracketBody), ("nav".toList, "menu".toList)] ∧
    render (enclose "box".toList (escapeMarkup "{a} \\<b> <_nav:".toList))
        [("a".toList, .bool true)] [("box".toList, bracketBody), ("nav".toList, "menu".toList)] {} =
      .ok "[{a} \\<b> <_nav:]".toList := by
  refine ⟨by decide, ?_⟩
  rw [render_enclose_escapeMarkup (by decide) (by decide) (by decide) (by decide)]
  rfl

/-- An escaped tag of no partial is not shown as it is: it is a tag again where the
body shows it. -/
theorem render_enclose_tag :
    render (enclose "box".toList (escapeMarkup "<_x>".toList)) []
        [("box".toList, bracketBody)] {} ≠ .ok "[<_x>]".toList := by
  rw [render_enclose_eq (by decide) (by decide) (by decide) (by decide)]
  have unknown : bracketRender [("box".toList, bracketBody)] (.body "box".toList) "<_x>".toList =
      .error (.unknownPartial "x".toList 1 (.body "box".toList)) := rfl
  rw [unknown]
  exact fun h => by simp at h

end Stencil.Render
