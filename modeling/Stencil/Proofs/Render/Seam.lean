import Stencil.Proofs.Render.Single

/-!
# Where a partial meets the text after its tag

What a partial renders to stands in the place of its tag with its escapes in it, and
they are resolved once, at the end, in all of the text. So a partial and the text after
its tag render to what they would render to by themselves, unless the seam between them
makes an escape sequence (`Markup.Joins`): a backslash that stood alone at the end of
the partial then takes the first character of the text after it.
-/

namespace Stencil.Render

open Markup
open Partial (Registry isValidName)

/-- Text without structure: every brace that opens and every `<` in it is escaped. -/
structure Plain (t : Text) : Prop where
  braces : Free '{' false t
  tags : Free '<' false t

instance (t : Text) : Decidable (Plain t) :=
  decidable_of_iff (Free '{' false t ∧ Free '<' false t)
    ⟨fun h => ⟨h.1, h.2⟩, fun h => ⟨h.braces, h.tags⟩⟩

variable {registry : Registry} {config : Config} {name body rest : Text}

/-- Text without structure comes out of the passes as it is. -/
theorem renderText_of_plain (hvalid : registry.Valid) (config : Config) (room : Nat)
    (scope : Scope) {t : Text} (h : Plain t) :
    renderText ⟨registry, config⟩ room scope t = .ok t :=
  renderText_of_settled ⟨registry, config⟩ room (expressionPass_of_free _ scope h.braces)
    (settled_of_tagless hvalid (tagless_of_free h.tags))

theorem free_emptyTag_append (hname : isValidName name = true) (h : Free '{' false rest) :
    Free '{' false (emptyTag name ++ rest) := by
  rw [free_append, emptyTag, pending_openingTag]
  exact ⟨free_openingTag hname rfl (by decide) (by decide) (free_of_not_mem (by decide) false) rfl,
    h⟩

/-- The body stands in the place of the tag, and escapes are resolved in both together. -/
theorem render_emptyTag_of_tagless (hvalid : registry.Valid)
    (hget : Bindings.get? registry name = some body) (hbody : Plain body) (hrest : Plain rest)
    (c : Context) (hdepth : 1 ≤ config.maxPartialDepth) (htagless : Tagless false (body ++ rest)) :
    render (emptyTag name ++ rest) c registry config = .ok (unescape (body ++ rest)) := by
  obtain ⟨rounds, hrounds⟩ := Nat.exists_eq_add_of_le' hdepth
  have hmem := Bindings.mem_names_of_get? hget
  have hinvoke : invoke (innerRender ⟨registry, config⟩ config.maxPartialDepth) (Scope.root c) name
      body (emptyTag name) = .ok body := by
    rw [hrounds]
    exact invoke_of_ok (by simp [Scope.root]) (renderText_of_plain hvalid config rounds _ hbody)
  rw [render, renderText_eq, renderPasses_single hvalid hrounds hget
    (expressionPass_of_free _ _ (free_emptyTag_append (hvalid.named name hmem) hrest.braces))
    (single_emptyTag hvalid hmem (free_nil '<' false) rfl hrest.tags)
    fun markup hmarkup => ?_, hinvoke]
  · rfl
  · obtain rfl := Except.ok.inj (hinvoke.symm.trans hmarkup)
    exact settled_of_tagless hvalid htagless

/-- **A partial and the text after its tag do not interact, except across an escape
sequence that the seam makes.** Text without structure renders as if the partial and the
text after it stood alone, if the seam makes none. In any case escapes are resolved in
the body and the text together, if these spell no partial tag. -/
theorem render_emptyTag_append (hvalid : registry.Valid)
    (hget : Bindings.get? registry name = some body) (hbody : Plain body) (hrest : Plain rest)
    (c : Context) (hdepth : 1 ≤ config.maxPartialDepth) :
    (¬ Joins body rest →
      render (emptyTag name ++ rest) c registry config = .ok (unescape body ++ unescape rest)) ∧
    (partialInvocations (body ++ rest) = [] →
      render (emptyTag name ++ rest) c registry config = .ok (unescape (body ++ rest))) := by
  have together := render_emptyTag_of_tagless hvalid hget hbody hrest c hdepth
  refine ⟨fun hjoins => ?_, fun hnone => together (partialInvocations_eq_nil_iff.1 hnone)⟩
  rw [← unescape_append_of_not_joins hjoins]
  exact together (tagless_of_free (free_append_of_not_joins hbody.tags hrest.tags hjoins))

/-- A backslash at the end of a partial stays one before a letter. -/
theorem render_emptyTag_append_letter :
    Plain "\\<x\\".toList ∧ Plain "y\\>".toList ∧
    render "<_p/>y\\>".toList [] [("p".toList, "\\<x\\".toList)] {} = .ok "<x\\y>".toList := by
  refine ⟨by decide, by decide, ?_⟩
  have hrender : render (emptyTag "p".toList ++ "y\\>".toList) []
      [("p".toList, "\\<x\\".toList)] {} =
        .ok (unescape "\\<x\\".toList ++ unescape "y\\>".toList) :=
    (render_emptyTag_append (by decide) rfl (by decide) (by decide) [] (by decide)).1 (by decide)
  exact hrender

/-- Before a `>` it is gone. -/
theorem render_emptyTag_seam :
    Plain "\\".toList ∧ Plain ">".toList ∧
    render "<_p/>>".toList [] [("p".toList, "\\".toList)] {} ≠
      .ok (unescape "\\".toList ++ unescape ">".toList) := by
  have hrender : render (emptyTag "p".toList ++ ">".toList) [] [("p".toList, "\\".toList)] {} =
      .ok (unescape ("\\".toList ++ ">".toList)) :=
    render_emptyTag_of_tagless (by decide) rfl (by decide) (by decide) [] (by decide)
      (partialInvocations_eq_nil_iff.1 rfl)
  refine ⟨by decide, by decide, fun h => ?_⟩
  have hlost := Except.ok.inj (hrender.symm.trans h)
  exact absurd hlost (by decide)

end Stencil.Render
