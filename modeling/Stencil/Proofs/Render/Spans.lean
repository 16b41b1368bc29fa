import Stencil.Proofs.Expr.Blame
import Stencil.Proofs.Expr.Name
import Stencil.Proofs.Render.SourceMap

/-!
# Ranges of failures

A failure of a render names a text and may have a range in it. Each kind of failure comes to
its range in its own way. A region that stays open is at its delimiter. An unknown partial is
at an offset of the source, but as long as its name is in the draft, where a value may have
written it. And an expression is between its braces (`InBraces`), but where it failed was told
from the expression with its markup as templates, which are longer than the markup.

So a name that is not defined stands at the range exactly if the expression has it where the
templates have it (`holds_span_undefined_iff`), and a range is in its text if nothing has moved
(`render_span_fits`).
-/

namespace Stencil.Render

open Markup
open Partial (Registry)

variable {setting : Setting} {root t source w : Text} {k : Nat} {cause : Expr.ExprError}

/-! ## Expressions between braces -/

/-- The text holds an expression between braces, and its failure points into the expression as
the evaluator reads it. -/
structure InBraces (t source : Text) (k : Nat) (cause : Expr.ExprError) : Prop where
  held : Text.Holds t 0 ⟨k, k + Text.byteLength source + 2⟩ ('{' :: source ++ ['}'])
  points : cause.Points (Expr.embed source) 0

namespace InBraces

theorem source_held (h : InBraces t source k cause) :
    Text.Holds t 0 ⟨k + 1, k + 1 + Text.byteLength source⟩ source :=
  Text.Holds.left (Text.Holds.right (t := ['{']) h.held)

/-- Inside the braces the text has what the expression has. -/
theorem holds_inner_iff (h : InBraces t source k cause)
    (hstop : cause.span.stop ≤ Text.byteLength source) :
    Text.Holds t 0 (cause.span.shift (k + 1)) w ↔ Text.Holds source 0 cause.span w := by
  have hmoved : Text.Holds source (k + 1) (cause.span.shift (k + 1)) w ↔
      Text.Holds source 0 cause.span w := Text.holds_shift_iff
  rw [← hmoved]
  constructor
  · intro hw
    refine h.source_held.of_within hw (Nat.le_add_right _ _) ?_
    simp only [Span.shift]
    omega
  · exact h.source_held.within

end InBraces

/-- The expression has where it fails what the evaluator reads there, if the two are the same
up to there. -/
theorem holds_of_common {u : Text} {inner : Span}
    (hread : Text.Holds (Expr.embed source) 0 inner w) (hsource : u <+: source)
    (hembed : u <+: Expr.embed source) (hstop : inner.stop ≤ Text.byteLength u) :
    Text.Holds source 0 inner w := by
  obtain ⟨v, rfl⟩ := hsource
  obtain ⟨v', hv'⟩ := hembed
  rw [← hv'] at hread
  have hfront : Text.Holds (u ++ v') 0 ⟨0, Text.byteLength u⟩ u := ⟨[], v', rfl, by simp⟩
  have hfront' : Text.Holds (u ++ v) 0 ⟨0, Text.byteLength u⟩ u := ⟨[], v, rfl, by simp⟩
  exact hfront'.within (hfront.of_within hread (Nat.zero_le _) hstop)

/-- The range of the failure of an expression: that of its cause, counted from the brace, or
else all of the region. -/
theorem span?_expression (source : Text) (k : Nat) (origin : Origin) (cause : Expr.ExprError) :
    (cause.span.stop ≤ Text.byteLength source ∧ cause.span.start < cause.span.stop ∧
      (RenderError.expression source k origin cause).span? = some (cause.span.shift (k + 1))) ∨
    (¬ (cause.span.stop ≤ Text.byteLength source ∧ cause.span.start < cause.span.stop) ∧
      (RenderError.expression source k origin cause).span? =
        some ⟨k, k + Text.byteLength source + 2⟩) := by
  by_cases h : cause.span.stop ≤ Text.byteLength source ∧ cause.span.start < cause.span.stop
  · refine .inl ⟨h.1, h.2, ?_⟩
    simp [RenderError.span?, h]
  · refine .inr ⟨h, ?_⟩
    have hwhole : k + 1 + Text.byteLength source + 1 = k + Text.byteLength source + 2 := by omega
    simp only [RenderError.span?, hwhole]
    rw [if_neg]
    simpa using h

/-! ## Failures of a render -/

/-- The failure of an expression is about an expression between braces in the text that it
names. -/
def RenderError.Sited (root : Text) (registry : Registry) : RenderError → Prop
  | expression source k origin cause =>
      ∃ t, origin.Names root registry t ∧ InBraces t source k cause
  | unterminated .. | unknownPartial .. | cyclic _ => True

/-- An expression that fails is a region of the text. -/
theorem inBraces_of_region {r : Region} (hr : r ∈ (scanExpressions t).regions) {c : Context}
    {config : Config} (h : regionValue config c r = .error cause) :
    InBraces t r.text r.span.start cause where
  held := by
    have hheld := (scanBraces_tiling '{' (by decide) t).holds hr
    have hsize : Text.byteLength (r.enclosed '{' '}') = Text.byteLength r.text + 2 := by
      change 1 + Text.byteLength (r.text ++ ['}']) = _
      rw [Text.byteLength_append]
      change 1 + (Text.byteLength r.text + 1) = _
      omega
    have hstop := hheld.stop_eq
    rw [hsize, ← Nat.add_assoc] at hstop
    rw [← hstop]
    exact hheld
  points := Expr.points_of_evaluateText h

theorem checkTerminated_sited {kind : RegionKind} {origin : Origin} {offset : Option Nat}
    {registry : Registry} : Outcome (fun _ => True) (RenderError.Sited root registry)
      (checkTerminated setting.config kind origin offset) := by
  unfold checkTerminated
  split
  · split <;> exact trivial
  · exact trivial

theorem renderPasses_sited (invoke : Invoke) {scope : Scope}
    (hnames : scope.origin.Names root setting.registry t) :
    Outcome (fun _ => True)
      (fun e => e.Sited root setting.registry ∨
        ∃ p ∈ setting.registry, ∃ fragment, invoke p.1 p.2 fragment = .error e)
      (renderPasses setting invoke scope t) := by
  have hterminated : ∀ kind offset, Outcome (fun _ => True)
      (fun e => e.Sited root setting.registry ∨
        ∃ p ∈ setting.registry, ∃ fragment, invoke p.1 p.2 fragment = .error e)
      (checkTerminated setting.config kind scope.origin offset) := fun kind offset =>
    checkTerminated_sited.mono (fun _ => id) fun _ => .inl
  rw [renderPasses]
  refine Outcome.bind (P := fun _ => True) ?_ fun draft _ _ => ?_
  · rw [expressionPass_eq]
    refine (hterminated _ _).bind fun _ _ _ => ?_
    refine (Outcome.mapM fun r hr => ?_).bind fun _ _ _ => trivial
    cases hvalue : regionValue setting.config scope.context r with
    | ok v =>
        rw [regionText_of_ok hvalue]
        exact trivial
    | error e =>
        rw [regionText_of_error hvalue]
        exact .inl ⟨t, hnames, inBraces_of_region hr hvalue⟩
  refine (expandRounds_outcome (P := fun _ => True) (fun draft p hp _ => ?_) _ trivial).bind
    fun draft' _ _ => ?_
  · rw [expand?_eq]
    refine (hterminated _ _).bind fun _ _ _ => ?_
    split
    · exact fun _ _ => trivial
    refine (Outcome.mapM fun r _ => ?_).bind fun _ _ _ => fun _ _ => trivial
    cases hinvoke : invoke p.1 p.2 r.text with
    | ok markup => exact trivial
    | error e => exact .inr ⟨p, hp, r.text, hinvoke⟩
  · refine Outcome.bind (P := fun _ => True) ?_ fun _ _ _ => trivial
    unfold checkKnown
    dsimp only
    split
    · split
      · exact .inl trivial
      · exact trivial
    · exact trivial

/-- **A render fails at an expression only where the text has it between braces.** -/
theorem render_sited {template : Text} {c : Context} {registry : Registry} {config : Config}
    {e : RenderError} (he : render template c registry config = .error e) :
    e.Sited template registry :=
  render_failure (E := fun e => e.Sited template registry) (fun _ => trivial)
    (fun invoke _ _ hnames => renderPasses_sited invoke hnames) he

/-! ## Undefined names -/

/-- The expression, where it is, the name and its range, if an outcome is the failure at a name
that is not defined. -/
def undefinedAt? : Except RenderError Text → Option ((Text × Nat × Origin) × Text × Span)
  | .error (.expression source k origin ⟨.runtime (.notDefined x), inner⟩) =>
      some ((source, k, origin), x, inner)
  | _ => none

theorem eq_error_of_undefinedAt? {outcome : Except RenderError Text} {origin : Origin} {x : Text}
    {inner : Span} (h : undefinedAt? outcome = some ((source, k, origin), x, inner)) :
    outcome = .error (.expression source k origin ⟨.runtime (.notDefined x), inner⟩) := by
  unfold undefinedAt? at h
  split at h
  · cases h
    rfl
  · cases h

/-- **An undefined name stands at the range of its failure exactly if the expression has it
where the evaluator reads it.** The evaluator reads the expression with its markup as templates;
so the name is there if no markup comes before it, and if some does, only by chance. -/
theorem holds_span_undefined_iff {template : Text} {c : Context} {registry : Registry}
    {config : Config} {origin : Origin} {x : Text} {inner : Span}
    (h : render template c registry config =
      .error (.expression source k origin ⟨.runtime (.notDefined x), inner⟩))
    (hx : Expr.IsName x) :
    ∃ t s, origin.Names template registry t ∧
      (RenderError.expression source k origin ⟨.runtime (.notDefined x), inner⟩).span? = some s ∧
      Text.Holds (Expr.embed source) 0 inner x ∧
      (Text.Holds t 0 s x ↔ Text.Holds source 0 inner x) ∧
      ∀ u, u <+: source → u <+: Expr.embed source → inner.stop ≤ Text.byteLength u →
        Text.Holds t 0 s x := by
  obtain ⟨t, hnames, hbraces⟩ := render_sited h
  have hread : Text.Holds (Expr.embed source) 0 inner x := hbraces.points.undefined x rfl
  have hne : x ≠ [] := by
    rintro rfl
    exact absurd hx.start (by simp)
  obtain ⟨s, hs, hiff⟩ : ∃ s, (RenderError.expression source k origin
      ⟨.runtime (.notDefined x), inner⟩).span? = some s ∧
        (Text.Holds t 0 s x ↔ Text.Holds source 0 inner x) := by
    rcases span?_expression source k origin ⟨.runtime (.notDefined x), inner⟩ with
      ⟨hstop, -, hs⟩ | ⟨hout, hs⟩
    · exact ⟨_, hs, hbraces.holds_inner_iff hstop⟩
    · refine ⟨_, hs, fun hwhole => ?_, fun hinside => ?_⟩
      · -- a name is not between braces
        obtain rfl := hwhole.unique hbraces.held
        have hstart : Expr.Lexer.isNameStart '{' = true := hx.start
        exact absurd hstart (by decide)
      · exact absurd ⟨by simpa using hinside.inside.2, hinside.lt hne⟩ hout
  refine ⟨t, s, hnames, hs, hread, hiff, fun u hsource hembed hstop => ?_⟩
  exact hiff.2 (holds_of_common hread hsource hembed hstop)

/-- Markup behind the name does no harm. -/
theorem holds_span_undefined_before_markup :
    render "é{y + <b>é</b>}".toList [] [] {} =
      .error (.expression "y + <b>é</b>".toList 2 .template
        ⟨.runtime (.notDefined "y".toList), ⟨0, 1⟩⟩) ∧
    Expr.IsName "y".toList ∧
    Text.Holds "é{y + <b>é</b>}".toList 0 ⟨3, 4⟩ "y".toList := by
  have hrender : render "é{y + <b>é</b>}".toList [] [] {} =
      .error (.expression "y + <b>é</b>".toList 2 .template
        ⟨.runtime (.notDefined "y".toList), ⟨0, 1⟩⟩) :=
    eq_error_of_undefinedAt? (by decide +kernel)
  have hname : Expr.IsName "y".toList := ⟨by decide, by decide, by decide⟩
  obtain ⟨t, s, hnames, hs, -, -, hsame⟩ := holds_span_undefined_iff hrender hname
  obtain rfl : t = _ := hnames
  obtain rfl := Option.some.inj hs
  exact ⟨hrender, hname, hsame "y + ".toList (by decide) (by decide +kernel) (by decide)⟩

/-- Markup before the name moves the range, here to the brace behind the name. -/
theorem span_undefined_inside_markup :
    render "{<b>{x}</b>}".toList [] [] {} =
      .error (.expression "<b>{x}</b>".toList 0 .template
        ⟨.runtime (.notDefined "x".toList), ⟨6, 7⟩⟩) ∧
    (RenderError.expression "<b>{x}</b>".toList 0 .template
        ⟨.runtime (.notDefined "x".toList), ⟨6, 7⟩⟩).span? = some ⟨7, 8⟩ ∧
    Text.Holds "{<b>{x}</b>}".toList 0 ⟨5, 6⟩ "x".toList ∧
    ¬ Text.Holds "{<b>{x}</b>}".toList 0 ⟨7, 8⟩ "x".toList := by
  refine ⟨eq_error_of_undefinedAt? (by decide +kernel), rfl, ?_, fun hheld => ?_⟩
  · exact ⟨"\x7b<b>\x7b".toList, "\x7d</b>\x7d".toList, rfl, rfl⟩
  · have hslash : Text.Holds "{<b>{x}</b>}".toList 0 ⟨7, 8⟩ "<".toList :=
      ⟨"\x7b<b>{x}".toList, "/b>\x7d".toList, rfl, rfl⟩
    exact absurd (hheld.unique hslash) (by decide)

/-! ## Ranges in a text -/

/-- Nothing that a range is told from has moved: the expression and what the evaluator reads of
it are the same up to where it failed, and an unknown partial is invoked in the text itself. -/
def RenderError.Unmoved (t : Text) : RenderError → Prop
  | expression source _ _ cause => cause.span.stop ≤ Text.byteLength source →
      ∃ u, u <+: source ∧ u <+: Expr.embed source ∧ cause.span.stop ≤ Text.byteLength u
  | unknownPartial name k _ => ⟨name, k⟩ ∈ partialInvocations t
  | unterminated .. | cyclic _ => True

/-- How far the range of a failure is one of a text. -/
structure RenderError.SpanFits (t : Text) (e : RenderError) (s : Span) : Prop where
  nonempty : s.start < s.stop
  start_lt : s.start < Text.byteLength t
  /-- Only the range of an unknown partial can be too long. -/
  stop_le : (∀ name k origin, e ≠ .unknownPartial name k origin) → s.stop ≤ Text.byteLength t
  /-- Only the range of an expression can start inside a character. -/
  boundary_start : (∀ source k origin cause, e ≠ .expression source k origin cause) →
    Text.Boundary t 0 s.start
  /-- Neither can happen if nothing has moved. -/
  unmoved : e.Unmoved t →
    s.stop ≤ Text.byteLength t ∧ Text.Boundary t 0 s.start ∧ Text.Boundary t 0 s.stop

theorem range_of_holds {s : Span} (h : Text.Holds t 0 s w) :
    s.stop ≤ Text.byteLength t ∧ Text.Boundary t 0 s.start ∧ Text.Boundary t 0 s.stop := by
  have hstop := h.inside.2
  rw [Nat.zero_add] at hstop
  exact ⟨hstop, h.boundary_start, h.boundary_stop⟩

/-- A range with something at it fits. -/
theorem RenderError.SpanFits.of_holds {e : RenderError} {s : Span} (h : Text.Holds t 0 s w)
    (hne : w ≠ []) : e.SpanFits t s := by
  have hlt := h.lt hne
  have hrange := range_of_holds h
  exact ⟨hlt, Nat.lt_of_lt_of_le hlt hrange.1, fun _ => hrange.1, fun _ => h.boundary_start,
    fun _ => hrange⟩

theorem OpensAt.holds (h : OpensAt t k) : ∃ c, Text.Holds t 0 ⟨k, k + 1⟩ [c] := by
  obtain ⟨kind, hbyte⟩ := h
  have hsize : kind.opening.utf8Size = 1 := by cases kind <;> rfl
  obtain ⟨before, after, ht, rfl⟩ := Context.exists_of_getElem?_utf8
    (by cases kind <;> decide) hbyte
  refine ⟨kind.opening, before, after, by simpa using ht, ?_⟩
  rw [Text.byteLength_cons, hsize]
  simp

theorem InBraces.span_fits (h : InBraces t source k cause) {origin : Origin} {s : Span}
    (hs : (RenderError.expression source k origin cause).span? = some s) :
    (RenderError.expression source k origin cause).SpanFits t s := by
  rcases span?_expression source k origin cause with ⟨hstop, hlt, hinner⟩ | ⟨-, hwhole⟩
  · obtain rfl := Option.some.inj (hinner.symm.trans hs)
    have hinside := h.source_held.inside.2
    dsimp only at hinside
    refine ⟨?_, ?_, fun _ => ?_, fun hno => absurd rfl (hno _ _ _ _), fun hunmoved => ?_⟩
    · simp only [Span.shift]
      omega
    · simp only [Span.shift]
      omega
    · simp only [Span.shift]
      omega
    · obtain ⟨u, hsource, hembed, hu⟩ := hunmoved hstop
      obtain ⟨w, hw⟩ := h.points.text hlt
      exact range_of_holds ((h.holds_inner_iff hstop).2 (holds_of_common hw hsource hembed hu))
  · obtain rfl := Option.some.inj (hwhole.symm.trans hs)
    exact .of_holds h.held (List.cons_ne_nil _ _)

/-- **The range of a failure is not empty and starts in the text that the failure names.** It
stops in it too unless it is that of an unknown partial, and it starts between two characters
unless it is that of an expression. And if nothing has moved that it is told from, it is a range
of the text, between characters at both ends. -/
theorem render_span_fits {template : Text} {c : Context} {registry : Registry} {config : Config}
    {e : RenderError} (he : render template c registry config = .error e) {origin : Origin}
    (horigin : e.origin? = some origin) {s : Span} (hs : e.span? = some s) :
    ∃ t, origin.Names template registry t ∧ e.SpanFits t s := by
  have hlocated : e.Located template registry := render_located he
  cases e with
  | expression source k origin' cause =>
      obtain rfl := Option.some.inj horigin
      obtain ⟨t, hnames, hbraces⟩ := render_sited he
      exact ⟨t, hnames, hbraces.span_fits hs⟩
  | unterminated kind k origin' =>
      obtain rfl := Option.some.inj horigin
      obtain rfl := Option.some.inj hs
      obtain ⟨t, hnames, hopens⟩ := hlocated
      obtain ⟨c, hc⟩ := hopens.holds
      exact ⟨t, hnames, .of_holds hc (List.cons_ne_nil _ _)⟩
  | unknownPartial name k origin' =>
      obtain rfl := Option.some.inj horigin
      obtain rfl := Option.some.inj hs
      obtain ⟨t, hnames, hopens⟩ := hlocated
      obtain ⟨c, hc⟩ := hopens.holds
      have hfirst : RenderError.SpanFits t (.unknownPartial name k origin') ⟨k, k + 1⟩ :=
        .of_holds hc (List.cons_ne_nil _ _)
      refine ⟨t, hnames, by dsimp only; omega, hfirst.start_lt, fun hno => absurd rfl (hno _ _ _),
        fun _ => hc.boundary_start, fun hinvoked => ?_⟩
      exact range_of_holds (partialInvocations_holds hinvoked)
  | cyclic chain => cases horigin

/-- A partial that the text itself invokes is unknown where it does. -/
theorem render_span_fits_invoked :
    render "é<_b/>".toList [] [] {} = .error (.unknownPartial "b".toList 2 .template) ∧
    (RenderError.unknownPartial "b".toList 2 .template).origin? = some .template ∧
    (RenderError.unknownPartial "b".toList 2 .template).span? = some ⟨2, 5⟩ ∧
    Text.Boundary "é<_b/>".toList 0 5 := by
  have hrender : render "é<_b/>".toList [] [] {} =
      .error (.unknownPartial "b".toList 2 .template) := rfl
  obtain ⟨t, hnames, hfits⟩ := render_span_fits hrender rfl rfl
  obtain rfl : t = _ := hnames
  have hinvoked : (⟨"b".toList, 2⟩ : PartialInvocation) ∈
      partialInvocations "é<_b/>".toList := by decide
  exact ⟨hrender, rfl, rfl, (hfits.unmoved hinvoked).2.2⟩

/-- One that a value invokes is as long there as the value has it. -/
theorem span_too_long :
    ∃ e, render "{x}".toList [("x".toList, .string "<_verylongname>".toList)] [] {} = .error e ∧
      e.origin? = some .template ∧ e.span? = some ⟨0, 14⟩ ∧ Text.byteLength "{x}".toList = 3 := by
  have hspan : (match render "{x}".toList [("x".toList, .string "<_verylongname>".toList)] []
        {} with
      | .ok _ => none
      | .error e => some (e.origin?, e.span?)) = some (some .template, some ⟨0, 14⟩) := by
    decide +kernel
  cases hrender : render "{x}".toList [("x".toList, .string "<_verylongname>".toList)] [] {} with
  | ok markup =>
      rw [hrender] at hspan
      cases hspan
  | error e =>
      rw [hrender] at hspan
      obtain ⟨horigin, hs⟩ := Prod.mk.inj (Option.some.inj hspan)
      exact ⟨e, rfl, horigin, hs, rfl⟩

end Stencil.Render
