import Stencil.Proofs.Markup.Verbatim
import Stencil.Proofs.Render.Single
import Mathlib.Data.List.Infix

/-!
# Rendering finished output again

Output is finished if nothing in it can be an expression or a tag of a partial. Rendered
again, all passes let it through, and only its escape sequences are resolved, since a
render resolves those of its text whatever the text was before. So finished output is its
own output if, and only if, it has no escape sequence (`render_finished`); a pair of
backslashes that a render left comes out as one the next time (`render_finished_pair`).
-/

namespace Stencil.Render

open Markup

/-- Output with nothing to evaluate and nothing to expand. -/
structure Finished (out : Text) : Prop where
  opening : '{' ∉ out
  closing : '}' ∉ out
  tags : ¬ ['<', '_'] <:+: out

instance (out : Text) : Decidable (Finished out) :=
  decidable_of_iff ('{' ∉ out ∧ '}' ∉ out ∧ ¬ ['<', '_'] <:+: out)
    ⟨fun h => ⟨h.1, h.2.1, h.2.2⟩, fun h => ⟨h.opening, h.closing, h.tags⟩⟩

namespace Finished

variable {out : Text}

theorem tagless (h : Finished out) : Tagless false out := by
  intro before after heq _
  by_contra hname
  obtain ⟨c, rest, -, rfl⟩ := invokedName?_ne_none_iff.1 hname
  exact h.tags ⟨before, c :: rest, by simp [heq]⟩

/-- Whatever the name, there is no tag of a partial. -/
theorem untagged (h : Finished out) (name : Text) :
    Untagged (some (tagName name)) false out := by
  intro before after heq _ hkind
  have hstart := startsName_of_opening hkind
  rw [startsName, Option.any_eq_true] at hstart
  obtain ⟨rest, hdrop, -⟩ := hstart
  obtain rfl := Text.dropHead?_eq_some_iff.1 hdrop
  exact h.tags ⟨before, name ++ rest, by simp [heq, tagName]⟩

theorem settled (h : Finished out) (registry : Partial.Registry) : Settled registry out where
  untagged p _ := h.untagged p.1
  known i hi := by
    rw [partialInvocations_eq_nil_iff.2 h.tagless] at hi
    exact absurd hi (by simp)

/-- No brace is left that an escape could stand before. -/
theorem unescape_eq_iff (h : Finished out) :
    unescape out = out ↔ ∀ d ∈ ['<', '>', '\\'], ¬ ['\\', d] <:+: out := by
  rw [unescape_eq_self_iff]
  constructor
  · intro hnone d hd
    refine hnone d ?_
    simp only [List.mem_cons, List.not_mem_nil, or_false] at hd
    rcases hd with rfl | rfl | rfl <;> rfl
  · rintro hnone d hd ⟨before, after, heq⟩
    have hmem : d ∈ out := by
      rw [← heq]
      simp
    refine hnone d ?_ ⟨before, after, heq⟩
    have hopening : d ≠ '{' := by
      rintro rfl
      exact h.opening hmem
    have hclosing : d ≠ '}' := by
      rintro rfl
      exact h.closing hmem
    simpa [isEscapable, hopening, hclosing, or_assoc] using hd

end Finished

/-- The passes let finished output through, and its escapes are resolved. -/
theorem render_of_finished {out : Text} (h : Finished out) (context : Context)
    (partials : Partial.Registry) (config : Config) :
    render out context partials config = .ok (unescape out) := by
  have hpass : expressionPass ⟨partials, config⟩ (Scope.root context) out = .ok ⟨out, [[]]⟩ :=
    expressionPass_of_free _ _ (free_of_not_mem h.opening false)
  rw [render, renderText_of_settled _ _ hpass (h.settled partials)]
  rfl

/-- **Rendering finished output again** resolves the escape sequences in it and does
nothing else, whatever render it came from. It gives the output back if, and only if, no
backslash of it stands before a `<`, a `>` or a backslash. -/
theorem render_finished {out : Text} (h : Finished out) (context : Context)
    (partials : Partial.Registry) (config : Config) :
    render out context partials config = .ok (unescape out) ∧
      (render out context partials config = .ok out ↔
        ∀ d ∈ ['<', '>', '\\'], ¬ ['\\', d] <:+: out) := by
  have hrender := render_of_finished h context partials config
  refine ⟨hrender, ?_⟩
  rw [hrender, Except.ok.injEq]
  exact h.unescape_eq_iff

/-- A tag that is none of a partial and a backslash before a letter stay. -/
theorem render_finished_letter :
    Finished "<i>C:\\dir</i>".toList ∧
    render "<i>C:\\dir</i>".toList [] [("p".toList, "q".toList)] {} =
      .ok "<i>C:\\dir</i>".toList := by
  have h : Finished "<i>C:\\dir</i>".toList := by decide +kernel
  have hkept : unescape "<i>C:\\dir</i>".toList = "<i>C:\\dir</i>".toList := by decide
  exact ⟨h, (render_finished h [] _ {}).2.2 (h.unescape_eq_iff.1 hkept)⟩

/-- A pair of backslashes that a render left is resolved to one by the next. -/
theorem render_finished_pair :
    render "\\\\\\\\".toList [] [] {} = .ok "\\\\".toList ∧ Finished "\\\\".toList ∧
    render "\\\\".toList [] [] {} = .ok "\\".toList ∧
    render "\\\\".toList [] [] {} ≠ .ok "\\\\".toList := by
  have hfirst : render "\\\\\\\\".toList [] [] {} = .ok "\\\\".toList :=
    render_of_finished (by decide) [] [] {}
  have hsecond : render "\\\\".toList [] [] {} = .ok "\\".toList :=
    render_of_finished (by decide) [] [] {}
  refine ⟨hfirst, by decide, hsecond, ?_⟩
  rw [hsecond]
  intro h
  exact absurd (Except.ok.inj h) (by decide)

end Stencil.Render
