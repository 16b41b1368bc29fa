import Stencil.Proofs.Expr.Comparison.Run
import Stencil.Proofs.Expr.Name
import Stencil.Proofs.Expr.Placement
import Stencil.Proofs.Failure

/-!
# Markup inside an expression

A fragment inside an expression means its text with its regions evaluated: the gaps as
they are, and in the place of each region what the region stands for on its own
(`evaluateText_fragment`). The regions are evaluated one after another, so a region starts
with the steps and serials of those before it, and its ranges are those in the template
literal. Neither shows in what it stands for: that evaluation and the one of the region
alone are two that `displaced` compares.
-/

namespace Stencil.Expr

open Comparison (Agree)
open Evaluator Markup

/-! ## Later evaluations -/

/-- The identity where so many more things have been made before. -/
def Identity.displace (made : Nat) : Identity → Identity
  | .bound name => .bound name
  | .made serial => .made (serial + made)
  | .child parent position => .child (parent.displace made) position

theorem Identity.displace_inj {n : Nat} {a b : Identity} :
    a.displace n = b.displace n ↔ a = b := by
  refine ⟨fun h => ?_, congrArg _⟩
  induction a generalizing b with
  | bound name => cases b <;> simp_all [displace]
  | made serial => cases b <;> simp_all [displace]
  | child parent position ih =>
      cases b with
      | child parent' position' =>
          obtain ⟨hparent, rfl⟩ := Identity.child.inj h
          rw [ih hparent]
      | _ => cases h

/-- An evaluation and one of the same tree, ranges aside, that starts when `made` things
have been made already. It may run out of steps. -/
def displaced (made budget : Nat) : Comparison where
  identities a b := b = a.displace made
  arrows a b := a.params = b.params ∧ Tree.Alike a.body b.body ∧ a.scope = b.scope
  spans _ _ := True
  names _ _ _ := True
  progress p q := q.made = p.made + made
  excused _ := True
  allowed e := ∃ s, e = ExprError.runtime s (.stepsExhausted budget)
  failures _ _ := False
  identities_iff h h' := by rw [h, h', Identity.displace_inj]
  identities_child h position := by rw [h]; rfl
  made {p q} h := by
    refine ⟨by rw [h]; rfl, ?_⟩
    dsimp only
    omega
  trouble _ _ _ := .inl trivial
  undefined _ := .inl trivial

theorem settings_displaced (made : Nat) (c : Context) (limits : Limits) :
    (displaced made limits.steps).Settings ⟨Globals.within c, limits⟩
      ⟨Globals.within c, limits⟩ where
  globals := within_like (fun _ => rfl) c
  arrows_iff := Iff.rfl
  tick {s s'} _ := by
    intro p q hpq
    rw [Eval.tick_apply, Eval.tick_apply]
    split
    · exact .excused trivial _
    · split
      · exact .allowed _ ⟨s', rfl⟩
      · exact .values trivial hpq
  calls := Nat.le_refl _
  exhausted _ := trivial
  tooDeep _ := trivial

/-! ## What an evaluation comes to -/

variable {α β : Type} {budget : Nat}

/-- The evaluation comes to this from any progress, unless it runs out of steps. -/
def Yields (budget : Nat) (x : Eval α) (a : α) : Prop :=
  ∀ p, Outcome (fun r => r.1 = a)
    (fun e => ∃ s, e = ExprError.runtime s (.stepsExhausted budget)) (x p)

theorem Yields.pure (a : α) : Yields budget (pure a) a :=
  fun _ => rfl

theorem Yields.bind {x : Eval α} {f : α → Eval β} {a : α} {b : β} (hx : Yields budget x a)
    (hf : Yields budget (f a) b) : Yields budget (x >>= f) b := by
  intro p
  refine (hx p).bind fun r _ hr => ?_
  obtain ⟨a', q⟩ := r
  obtain rfl : a' = a := hr
  exact hf q

theorem yields_tick (limits : Limits) (span : Span) :
    Yields limits.steps (Eval.tick limits span) () := by
  intro p
  rw [Eval.tick_apply]
  split
  · exact ⟨span, rfl⟩
  · rfl

/-- **A tree comes to the same text later and elsewhere.** -/
theorem yields_render {c : Context} {limits : Limits} {e e' : Tree} {v : Value}
    (h : e.evaluate (Globals.within c) limits = .ok v)
    (hlike : Tree.Alike e e') (nesting : Nat) :
    Yields limits.steps
      (partText (value (run ⟨Globals.within c, limits⟩ nesting) [] 0) (.code e')) v.render := by
  intro q
  have hvisits := run_agree (settings_displaced q.made c limits) (n := limits.steps + 1)
    (m := nesting) (.inr fun s => ⟨s, rfl⟩)
  have hvalues : (displaced q.made limits.steps).Agree (Value.Like _)
      (value (run ⟨Globals.within c, limits⟩ (limits.steps + 1)) [] 0 e)
      (value (run ⟨Globals.within c, limits⟩ nesting) [] 0 e') := value_agree hvisits .nil hlike
  have hfrom := hvalues {} q (Nat.zero_add _).symm
  obtain ⟨p, hp⟩ : ∃ p, value (run ⟨Globals.within c, limits⟩ (limits.steps + 1)) [] 0 e {} =
      .ok (v, p) := by
    change Prod.fst <$> value _ [] 0 e {} = _ at h
    obtain ⟨r, hr, rfl⟩ := Except.map_eq_ok_iff.1 h
    exact ⟨r.2, hr⟩
  rw [hp] at hfrom
  change Outcome _ _ (value (run _ nesting) [] 0 e' q >>= fun r => .ok (r.1.render, r.2))
  generalize value (run _ nesting) [] 0 e' q = second at hfrom ⊢
  cases hfrom with
  | values hv => exact hv.render.symm
  | allowed _ h => exact h

/-! ## Parts of a template -/

/-- The parts come to texts that make up a text, unless they run out of steps. -/
def PartsYield (budget : Nat) (valueOf : Tree → Eval Value) (parts : List Part) (t : Text) : Prop :=
  ∃ texts, Yields budget (parts.mapM (partText valueOf)) texts ∧ texts.flatten = t

variable {valueOf : Tree → Eval Value} {parts : List Part} {t u : Text}

theorem PartsYield.nil : PartsYield budget valueOf [] [] :=
  ⟨[], .pure [], rfl⟩

theorem PartsYield.cons {part : Part} (hpart : Yields budget (partText valueOf part) t)
    (hparts : PartsYield budget valueOf parts u) :
    PartsYield budget valueOf (part :: parts) (t ++ u) := by
  obtain ⟨texts, hyields, rfl⟩ := hparts
  refine ⟨t :: texts, ?_, rfl⟩
  rw [List.mapM_cons]
  exact hpart.bind (hyields.bind (.pure _))

/-- A gap comes out as it is. -/
theorem PartsYield.gap {S : Span → Span → Prop} {N : Text → Span → Span → Prop}
    (gap : Text) {literal : List Part}
    (hparts : ∀ parts, List.Forall₂ (Part.Like S N) literal parts →
      PartsYield budget valueOf parts u)
    (h : List.Forall₂ (Part.Like S N) (gapPart gap ++ literal) parts) :
    PartsYield budget valueOf parts (gap ++ u) := by
  unfold gapPart at h
  split at h
  · next hgap =>
      rw [hgap]
      exact hparts parts h
  · cases h with
    | cons hpart hrest =>
        cases hpart
        exact (PartsYield.cons (.pure gap) (hparts _ hrest))

/-- **A template comes to its gaps with the text of a tree behind each.** -/
theorem partsYield_literalParts {S : Span → Span → Prop} {N : Text → Span → Span → Prop}
    {trees : List Tree} {values : List Text}
    (h : List.Forall₂ (fun e v => ∀ e', Tree.Like S N e e' →
      Yields budget (partText valueOf (.code e')) v) trees values) (gaps : List Text) (tail : Text)
    (hparts : List.Forall₂ (Part.Like S N) (literalParts (gaps.zip trees) tail) parts) :
    PartsYield budget valueOf parts ((gaps.zip values).flatMap (fun p => p.1 ++ p.2) ++ tail) := by
  -- nothing but the tail is left
  have htail : ∀ parts, List.Forall₂ (Part.Like S N) (gapPart tail) parts →
      PartsYield budget valueOf parts tail := by
    intro parts hparts
    rw [← List.append_nil (gapPart tail)] at hparts
    have hgap : PartsYield budget valueOf parts (tail ++ []) :=
      PartsYield.gap tail (fun parts hnil => by cases hnil; exact .nil) hparts
    rwa [List.append_nil] at hgap
  induction h generalizing gaps parts with
  | nil =>
      rw [List.zip_nil_right] at hparts ⊢
      exact htail parts hparts
  | @cons e v trees values he _ ih =>
      cases gaps with
      | nil => exact htail parts hparts
      | cons gap gaps =>
          rw [List.zip_cons_cons, literalParts] at hparts
          rw [List.zip_cons_cons, List.flatMap_cons, List.append_assoc, List.append_assoc]
          refine PartsYield.gap gap (fun parts hrest => ?_) hparts
          cases hrest with
          | cons hpart hrest =>
              cases hpart with
              | code hlike => exact .cons (he _ hlike) (ih gaps hrest)

theorem eraseParts_literalParts (gaps : List Text) (trees : List Tree) (tail : Text) :
    eraseParts (literalParts (gaps.zip trees) tail) =
      literalParts (gaps.zip (trees.map Tree.erase)) tail := by
  have hgap : ∀ gap parts, eraseParts (gapPart gap ++ parts) = gapPart gap ++ eraseParts parts := by
    intro gap parts
    unfold gapPart
    split <;> rfl
  have htail : eraseParts (gapPart tail) = gapPart tail := by
    have h := hgap tail []
    rwa [List.append_nil, eraseParts, List.append_nil] at h
  induction gaps generalizing trees with
  | nil => exact htail
  | cons gap gaps ih =>
      cases trees with
      | nil => exact htail
      | cons e trees =>
          rw [List.map_cons, List.zip_cons_cons, List.zip_cons_cons, literalParts, literalParts,
            hgap, eraseParts, ih]

/-! ## Fragments -/

theorem weave_eq (s : Scan) (values : List Text) :
    s.weave values =
      (((s.regions.map Region.gap).zip values).flatMap fun p => p.1 ++ p.2) ++ s.tail := by
  rw [Scan.weave, List.zip_map_left, List.flatMap_map]
  rfl

/-- A source that stands for a text is read as a tree that comes to it. -/
theorem evaluateText_eq_ok_iff {globals : Globals} {limits : Limits} {source t : Text} :
    evaluateText globals limits source = .ok t ↔
      ∃ e, parse (embed source) = .ok e ∧
        ∃ v, e.evaluate globals limits = .ok v ∧ v.render = t := by
  rw [evaluateText, Except.map_eq_ok_iff]
  constructor
  · rintro ⟨v, hv, rfl⟩
    obtain ⟨e, he, hv⟩ := Except.bind_eq_ok_iff.1 hv
    exact ⟨e, he, v, hv, rfl⟩
  · rintro ⟨e, he, v, hv, rfl⟩
    exact ⟨v, Except.bind_eq_ok_iff.2 ⟨e, he, hv⟩, rfl⟩

/-- A template comes to the text that its parts make up. -/
theorem yields_template {globals : Globals} {limits : Limits} {nesting : Nat}
    (h : PartsYield limits.steps (value (run ⟨globals, limits⟩ nesting) [] 0) parts t)
    (span : Span) :
    Yields limits.steps
      (value (run ⟨globals, limits⟩ (nesting + 1)) [] 0 (.template span parts)) (.string t) := by
  obtain ⟨texts, hyields, rfl⟩ := h
  have hrun : Yields limits.steps (run ⟨globals, limits⟩ (nesting + 1) [] 0 (.template span parts))
      (some (.string texts.flatten)) :=
    (yields_tick limits span).bind (hyields.bind (.pure _))
  exact hrun.bind (.pure _)

/-- A fragment is read as a template of its gaps with the trees of its regions in between,
ranges aside. -/
theorem parse_fragment {fragment : Text} (hfragment : fragmentAt? fragment = some fragment)
    {trees : List Tree}
    (hread : List.Forall₂ (fun r e => Reads (embed r.text) e) (scanExpressions fragment).regions
      (trees.map Tree.erase)) :
    ∃ tree, parse (embed fragment) = .ok tree ∧
      Tree.Alike (.template nowhere
        (literalParts (((scanExpressions fragment).regions.map Region.gap).zip trees)
          (scanExpressions fragment).tail)) tree := by
  obtain ⟨tree, hparse, herase⟩ := reads_embed_fragment hfragment hread
  rw [← eraseParts_literalParts] at herase
  exact ⟨tree, hparse, Tree.like_of_erase_eq (.template nowhere _) tree herase.symm⟩

/-- A fragment is read as a tree that comes to its gaps with the texts that its regions
stand for. -/
theorem yields_fragment (c : Context) (limits : Limits) {fragment : Text}
    (hfragment : fragmentAt? fragment = some fragment) {values : List Text}
    (hvalues : List.Forall₂ (fun r v => evaluateText (Globals.within c) limits r.text = .ok v)
      (scanExpressions fragment).regions values) :
    ∃ tree, parse (embed fragment) = .ok tree ∧
      Yields limits.steps (value (run ⟨Globals.within c, limits⟩ (limits.steps + 1)) [] 0 tree)
        (.string ((scanExpressions fragment).weave values)) := by
  obtain ⟨trees, hread, hcome⟩ : ∃ trees,
      List.Forall₂ (fun r e => Reads (embed r.text) e)
        (scanExpressions fragment).regions (trees.map Tree.erase) ∧
      List.Forall₂ (fun e v => ∃ w, e.evaluate (Globals.within c) limits = .ok w ∧ w.render = v)
        trees values := by
    generalize (scanExpressions fragment).regions = rs at hvalues
    induction hvalues with
    | nil => exact ⟨[], .nil, .nil⟩
    | cons hv _ ih =>
        obtain ⟨trees, hread, hcome⟩ := ih
        obtain ⟨e, he, hw⟩ := evaluateText_eq_ok_iff.1 hv
        exact ⟨e :: trees, .cons ⟨e, he, rfl⟩ hread, .cons hw hcome⟩
  obtain ⟨tree, hparse, hlike⟩ := parse_fragment hfragment hread
  refine ⟨tree, hparse, ?_⟩
  cases hlike with
  | @template _ span _ _ parts hparts =>
      have hregions : List.Forall₂ (fun e v => ∀ e', Tree.Alike e e' →
          Yields limits.steps
            (partText (value (run ⟨Globals.within c, limits⟩ limits.steps) [] 0) (.code e')) v)
          trees values :=
        hcome.imp fun e v ⟨w, hw, hrender⟩ e' he' => by
          rw [← hrender]
          exact yields_render hw he' limits.steps
      rw [weave_eq]
      exact yields_template (partsYield_literalParts hregions _ _ hparts) span

/-- A source that is read as a tree that comes to a text stands for it, unless that takes
more steps than there are. -/
theorem evaluateText_of_yields {c : Context} {limits : Limits} {source : Text} {tree : Tree}
    (hparse : parse (embed source) = .ok tree)
    (h : Yields limits.steps
      (value (run ⟨Globals.within c, limits⟩ (limits.steps + 1)) [] 0 tree) (.string t)) :
    evaluateText (Globals.within c) limits source = .ok t ∨
      ∃ span, evaluateText (Globals.within c) limits source =
        .error (ExprError.runtime span (.stepsExhausted limits.steps)) := by
  have hfrom := h {}
  rw [evaluateText, evaluate, hparse, Except.bind_ok]
  change Value.render <$> (Prod.fst <$> value _ [] 0 _ {}) = _ ∨
    ∃ s, Value.render <$> (Prod.fst <$> value _ [] 0 _ {}) = _
  generalize value _ [] 0 _ {} = outcome at hfrom ⊢
  cases outcome with
  | ok r =>
      obtain ⟨v, p⟩ := r
      obtain rfl : v = _ := hfrom
      exact .inl rfl
  | error e =>
      obtain ⟨s, rfl⟩ := hfrom
      exact .inr ⟨s, rfl⟩

/-- **Markup inside an expression means its text with its regions evaluated.** Where every
region of a fragment stands for a text, the fragment stands for its gaps, character by
character, with these texts in between, unless that takes more steps than there are. -/
theorem evaluateText_fragment (c : Context) (limits : Limits) {fragment : Text}
    (hfragment : fragmentAt? fragment = some fragment) {values : List Text}
    (hvalues : List.Forall₂ (fun r v => evaluateText (Globals.within c) limits r.text = .ok v)
      (scanExpressions fragment).regions values) :
    evaluateText (Globals.within c) limits fragment =
        .ok ((scanExpressions fragment).weave values) ∨
      ∃ span, evaluateText (Globals.within c) limits fragment =
        .error (ExprError.runtime span (.stepsExhausted limits.steps)) := by
  obtain ⟨tree, hparse, hyields⟩ := yields_fragment c limits hfragment hvalues
  exact evaluateText_of_yields hparse hyields

/-- Backslashes, backticks and dollars of a fragment are no part of the template literal
that it is embedded as. A million steps are enough. -/
theorem evaluateText_fragment_dollar :
    fragmentAt? "<b>\\\\`{x}$${x}</b>".toList = some "<b>\\\\`{x}$${x}</b>".toList ∧
      evaluateText (Globals.within [("x".toList, .string "y".toList)]) {} "x".toList =
        .ok "y".toList ∧
      evaluateText (Globals.within [("x".toList, .string "y".toList)]) {}
        "<b>\\\\`{x}$${x}</b>".toList = .ok "<b>\\\\`y$$y</b>".toList := by
  have hfragment : fragmentAt? "<b>\\\\`{x}$${x}</b>".toList = some "<b>\\\\`{x}$${x}</b>".toList :=
    rfl
  have hx : evaluateText (Globals.within [("x".toList, .string "y".toList)]) {} "x".toList =
      .ok "y".toList := by
    rw [evaluateText, evaluate_name _ (by decide) ⟨rfl, rfl, rfl⟩]
    rfl
  have hregions : List.Forall₂
      (fun (r : Region) v => evaluateText (Globals.within [("x".toList, .string "y".toList)]) {}
        r.text = .ok v)
      (scanExpressions "<b>\\\\`{x}$${x}</b>".toList).regions ["y".toList, "y".toList] :=
    .cons hx (.cons hx .nil)
  have hends : (evaluateText (Globals.within [("x".toList, .string "y".toList)]) {}
      "<b>\\\\`{x}$${x}</b>".toList).toOption.isSome = true := by
    decide +kernel
  refine ⟨hfragment, hx, ?_⟩
  rcases evaluateText_fragment _ {} hfragment hregions with htext | ⟨span, hstopped⟩
  · exact htext
  · rw [hstopped] at hends
    cases hends

end Stencil.Expr
