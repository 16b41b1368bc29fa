import Stencil.Proofs.Expr.Fragment
import Stencil.Proofs.Markup.Slots
import Stencil.Proofs.Markup.Verbatim
import Stencil.Proofs.Render.WithoutPartials

/-!
# Markup in an expression and markup in a template

The same markup can stand in a template and in an expression. Its expressions have the
same values in both. But its text is template syntax in the one, where escape sequences
are resolved, and a value in the other, which comes out as it is
(`render_braced_of_value`). So both render to the same exactly if the markup has no
escape sequence outside its expressions.
-/

namespace Stencil.Render

open Markup

variable {c : Context} {config : Config} {fragment : Text}

/-- The render ended where an evaluation had taken as many steps as it may. -/
def OutOfSteps (budget : Nat) (outcome : Except RenderError Text) : Prop :=
  ∃ source offset origin span, outcome =
    .error (.expression source offset origin (Expr.ExprError.runtime span (.stepsExhausted budget)))

theorem not_outOfSteps_ok (budget : Nat) (x : Text) : ¬ OutOfSteps budget (.ok x) := by
  rintro ⟨source, offset, origin, span, h⟩
  exact absurd h (by simp)

theorem scanExpressions_braced (h : (scanExpressions (braced fragment)).texts = [fragment]) :
    ∃ span, scanExpressions (braced fragment) = ⟨[⟨[], fragment, span⟩], [], none⟩ :=
  scanBraces_of_texts (by decide) h

/-- An expression that is all of a template fails as its evaluation does. -/
theorem render_braced_of_error (h : (scanExpressions (braced fragment)).texts = [fragment])
    {e : Expr.ExprError}
    (he : Expr.evaluateText (Expr.Globals.within c) config.limits fragment = .error e) :
    ∃ offset, render (braced fragment) c [] config =
      .error (.expression fragment offset .template e) := by
  obtain ⟨span, hscan⟩ := scanExpressions_braced h
  have hrender := evaluates_render (braced fragment) c config
  refine ⟨span.start,
    hrender.failure (fun _ => by rw [hscan]) [] ⟨[], fragment, span⟩ [] e ?_ ?_ he⟩
  · rw [hscan]
    rfl
  · exact fun q hq => absurd hq (by simp)

/-- Otherwise it renders to its value, if no partial tag is in that. -/
theorem render_braced_of_value (h : (scanExpressions (braced fragment)).texts = [fragment])
    {v : Text} (hv : Expr.evaluateText (Expr.Globals.within c) config.limits fragment = .ok v)
    (htagless : config.isStrict = true → Tagless false (escapeText v)) :
    render (braced fragment) c [] config = .ok v := by
  obtain ⟨span, hscan⟩ := scanExpressions_braced h
  have hrender := evaluates_render (braced fragment) c config
  have hvalue : List.Forall₂ (fun r v => regionValue config c r = .ok v)
      (scanExpressions (braced fragment)).regions [v] := by
    rw [hscan]
    exact .cons hv .nil
  rw [hrender.text (fun _ => by rw [hscan]) [v] hvalue, hscan]
  · simp [Scan.resolve, unescape]
  · intro hs
    rw [hscan, partialInvocations_eq_nil_iff]
    simpa [Scan.weave] using htagless hs

/-- The value is all that such a template can render to. -/
theorem eq_of_render_braced (h : (scanExpressions (braced fragment)).texts = [fragment])
    {v x : Text} (hv : Expr.evaluateText (Expr.Globals.within c) config.limits fragment = .ok v)
    (hx : render (braced fragment) c [] config = .ok x) : x = v := by
  obtain ⟨span, hscan⟩ := scanExpressions_braced h
  have hrender := evaluates_render (braced fragment) c config
  rw [hx] at hrender
  obtain ⟨values, hvalues, -, rfl⟩ := hrender.exists_values
  rw [hscan] at hvalues ⊢
  cases hvalues with
  | cons hhead hrest =>
      cases hrest
      obtain rfl := Except.ok.inj (hv.symm.trans hhead)
      simp [Scan.resolve, unescape]

/-! ## Two texts -/

/-- Markup with a backslash that escapes nothing, and a name. -/
def backslashMarkup : Text :=
  "<b>\\n{x}</b>".toList

/-- Markup with escaped braces. -/
def escapedMarkup : Text :=
  "<p>\\\x7bx\\\x7d</p>".toList

theorem isName_x : Expr.IsName "x".toList :=
  ⟨rfl, rfl, rfl⟩

theorem evaluateText_backslashMarkup :
    Expr.evaluateText (Expr.Globals.within [("x".toList, .string "\\>".toList)])
      ({} : Config).limits backslashMarkup = .ok "<b>\\n\\></b>".toList := by
  have hread : List.Forall₂ (fun (r : Region) e => Expr.Reads (Expr.embed r.text) e)
      (scanExpressions backslashMarkup).regions
      ([.name Expr.nowhere "x".toList].map Expr.Tree.erase) :=
    .cons ⟨_, Expr.parse_name isName_x, rfl⟩ .nil
  obtain ⟨tree, hparse, hlike⟩ := Expr.parse_fragment rfl hread
  refine Expr.evaluateText_eq_ok_iff.2 ⟨tree, hparse, .string "<b>\\n\\></b>".toList, ?_, rfl⟩
  change Expr.Tree.Like _ _ (.template _ [.text "<b>\\n".toList, .code (.name _ "x".toList),
    .text "</b>".toList]) tree at hlike
  -- the tree is known but for its ranges, which an evaluation does not look at
  cases hlike with
  | template _ hparts =>
      obtain _ | ⟨⟨⟩, hparts⟩ := hparts
      obtain _ | ⟨_ | hcode, hparts⟩ := hparts
      obtain _ | ⟨⟨⟩, ⟨⟩⟩ := hparts
      cases hcode
      rfl

theorem evaluateText_escapedMarkup (c : Context) :
    Expr.evaluateText (Expr.Globals.within c) ({} : Config).limits escapedMarkup =
      .ok escapedMarkup := by
  have hread : List.Forall₂ (fun (r : Region) e => Expr.Reads (Expr.embed r.text) e)
      (scanExpressions escapedMarkup).regions ([].map Expr.Tree.erase) := .nil
  obtain ⟨tree, hparse, hlike⟩ := Expr.parse_fragment rfl hread
  refine Expr.evaluateText_eq_ok_iff.2 ⟨tree, hparse, .string escapedMarkup, ?_, rfl⟩
  change Expr.Tree.Like _ _ (.template _ [.text escapedMarkup]) tree at hlike
  cases hlike with
  | template _ hparts =>
      obtain _ | ⟨⟨⟩, ⟨⟩⟩ := hparts
      rfl

/-! ## Any markup -/

/-- **Markup renders the same in an expression as in a template exactly if no escape
sequence stands outside its expressions.** -/
theorem render_braced_iff (hfragment : fragmentAt? fragment = some fragment)
    (hregion : (scanExpressions (braced fragment)).texts = [fragment]) {x : Text}
    (hx : render fragment c [] config = .ok x)
    (hsteps : ¬ OutOfSteps config.limits.steps (render (braced fragment) c [] config)) :
    render (braced fragment) c [] config = .ok x ↔ (scanExpressions fragment).Verbatim := by
  have hrender := evaluates_render fragment c config
  rw [hx] at hrender
  obtain ⟨values, hvalues, hnone, rfl⟩ := hrender.exists_values
  have hlength := hvalues.length_eq
  have hvalue : Expr.evaluateText (Expr.Globals.within c) config.limits fragment =
      .ok ((scanExpressions fragment).weave values) := by
    obtain ⟨tree, hparse, hyields⟩ := Expr.yields_fragment c config.limits hfragment hvalues
    rcases Expr.evaluateText_of_yields hparse hyields with hok | ⟨span, herror⟩
    · exact hok
    · obtain ⟨offset, hfails⟩ := render_braced_of_error hregion herror
      exact absurd ⟨fragment, offset, .template, span, hfails⟩ hsteps
  constructor
  · intro hsame
    exact (resolve_eq_weave_iff hlength).1 (eq_of_render_braced hregion hvalue hsame)
  · intro hverbatim
    rw [(resolve_eq_weave_iff hlength).2 hverbatim]
    refine render_braced_of_value hregion hvalue fun hs => ?_
    exact tagless_escapeText_weave hrender.pieces hverbatim hlength
      (partialInvocations_eq_nil_iff.1 (hnone hs))

/-- A backslash that escapes nothing is the same in both, and so is a value. -/
theorem render_braced_backslash :
    fragmentAt? backslashMarkup = some backslashMarkup ∧
    (scanExpressions (braced backslashMarkup)).texts = [backslashMarkup] ∧
    render backslashMarkup [("x".toList, .string "\\>".toList)] [] {} =
      .ok "<b>\\n\\></b>".toList ∧
    ¬ OutOfSteps ({} : Config).limits.steps
      (render (braced backslashMarkup) [("x".toList, .string "\\>".toList)] [] {}) ∧
    render (braced backslashMarkup) [("x".toList, .string "\\>".toList)] [] {} =
      .ok "<b>\\n\\></b>".toList := by
  have hregion : (scanExpressions (braced backslashMarkup)).texts = [backslashMarkup] := rfl
  have hrender : render backslashMarkup [("x".toList, .string "\\>".toList)] [] {} =
      .ok "<b>\\n\\></b>".toList :=
    (evaluates_render _ _ _).text (fun _ => rfl) ["\\>".toList]
      (.cons (Expr.evaluateText_name (by decide) (by decide) isName_x rfl) .nil) (fun _ => rfl)
  have hsteps : ¬ OutOfSteps ({} : Config).limits.steps
      (render (braced backslashMarkup) [("x".toList, .string "\\>".toList)] [] {}) := by
    rw [render_braced_of_value hregion evaluateText_backslashMarkup fun _ =>
      partialInvocations_eq_nil_iff.1 rfl]
    exact not_outOfSteps_ok _ _
  exact ⟨rfl, hregion, hrender, hsteps,
    (render_braced_iff rfl hregion hrender hsteps).2 (by decide)⟩

/-- Escaped braces are resolved in the template, and come out as they are written from the
expression. -/
theorem render_braced_escape :
    fragmentAt? escapedMarkup = some escapedMarkup ∧
    (scanExpressions (braced escapedMarkup)).texts = [escapedMarkup] ∧
    render escapedMarkup [] [] {} = .ok "<p>{x}</p>".toList ∧
    ¬ OutOfSteps ({} : Config).limits.steps (render (braced escapedMarkup) [] [] {}) ∧
    render (braced escapedMarkup) [] [] {} ≠ .ok "<p>{x}</p>".toList := by
  have hregion : (scanExpressions (braced escapedMarkup)).texts = [escapedMarkup] := rfl
  have hrender : render escapedMarkup [] [] {} = .ok "<p>{x}</p>".toList :=
    (evaluates_render _ _ _).text (fun _ => rfl) [] .nil (fun _ => rfl)
  rw [render_braced_of_value hregion (evaluateText_escapedMarkup []) fun _ =>
    partialInvocations_eq_nil_iff.1 rfl]
  refine ⟨rfl, hregion, hrender, not_outOfSteps_ok _ _, fun h => ?_⟩
  exact absurd (Except.ok.inj h) (by decide)

end Stencil.Render
