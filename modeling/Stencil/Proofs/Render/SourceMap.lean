import Stencil.Proofs.Render.Passes
import Stencil.Proofs.Render.Provenance

/-!
# Offsets of a render

A render of a text comes through drafts: the text itself, the text with the values
of its expressions, and then the text with one partial after another expanded. The
drafts are `Reached`, each with the provenance of its bytes, and every one of them
is `Traced`: one step of the render replaces regions of a tiled draft.

The offsets of failures are offsets of drafts that went back to the source. Where a
draft has a `<` or a `{`, the source has a `<` or a `{` (`Traced.opensAt`), so a
failure about a tag or a region is `Located` where one opens.
-/

namespace Stencil.Render

open Markup
open Context (utf8 length_utf8 getElem?_utf8_delimiter)
open Partial (Registry)

/-- The drafts that a render of a text can come through, whatever order its
partials are expanded in, and where their bytes come from. -/
inductive Reached (setting : Setting) (invoke : Invoke) (scope : Scope) (t : Text) :
    Draft → List Provenance → Prop where
  | source : Reached setting invoke scope t (Draft.ofSource t) (sourceProvenance t)
  /-- The values of the expressions stand in their places. -/
  | evaluated {outputs : List Text}
      (values : (scanExpressions t).regions.mapM
        (regionText setting (Expr.Globals.within scope.context) scope.origin) = .ok outputs) :
      Reached setting invoke scope t ((Draft.ofSource t).replace (scanExpressions t) outputs)
        (replaceProvenance .expression (sourceProvenance t)
          ((scanExpressions t).regions.zip outputs))
  /-- What the invocations of a partial give stands in their places. -/
  | expanded {draft : Draft} {ps : List Provenance} {p : Text × Text} {outputs : List Text}
      (before : Reached setting invoke scope t draft ps) (registered : p ∈ setting.registry)
      (bodies : (scanTags (some (tagName p.1)) draft.text).regions.mapM
        (fun r => invoke p.1 p.2 r.text) = .ok outputs) :
      Reached setting invoke scope t
        (draft.replace (scanTags (some (tagName p.1)) draft.text) outputs)
        (replaceProvenance .tag ps
          ((scanTags (some (tagName p.1)) draft.text).regions.zip outputs))

/-- The text is what an origin names: the template, or the body of a partial. A name
stands once in a registry, so a look-up gives that body (`Bindings.get?_of_mem`). -/
def Origin.Names (root : Text) (registry : Registry) : Origin → Text → Prop
  | template, t => t = root
  | body name, t => (name, t) ∈ registry

/-- A `{` or a `<` is at the byte of the text. -/
def OpensAt (t : Text) (k : Nat) : Prop :=
  ∃ kind : RegionKind, (utf8 t)[k]? = some kind.opening.toUInt8

/-- A failure about a region that stays open, or about a tag of no partial, is where
the text that it names has a `{` or a `<`. -/
def RenderError.Located (root : Text) (registry : Registry) : RenderError → Prop
  | unterminated _ k origin | unknownPartial _ k origin =>
      ∃ t, origin.Names root registry t ∧ OpensAt t k
  | expression .. | cyclic _ => True

variable {setting : Setting} {invoke : Invoke} {scope : Scope} {t : Text}

/-! ## Drafts are traced -/

/-- **A render keeps offsets and bytes in step.** -/
theorem Reached.traced {draft : Draft} {ps : List Provenance}
    (h : Reached setting invoke scope t draft ps) : Traced t draft ps := by
  induction h with
  | source => exact traced_source t
  | evaluated values =>
      have hlen := (mapM_eq_ok_iff.1 values).length_eq
      exact (traced_source t).replace .expression (scanBraces_tiling '{' (by decide) t) hlen.symm
  | expanded before registered bodies ih =>
      have hlen := (mapM_eq_ok_iff.1 bodies).length_eq
      exact ih.replace .tag (scanTags_tiling _ _) hlen.symm

/-- Where a draft has an opening delimiter, its source has one. -/
theorem Traced.opensAt {draft : Draft} {ps : List Provenance} (h : Traced t draft ps)
    (kind : RegionKind) {k : Nat} (hk : StandsAt kind.opening k draft.text) :
    OpensAt t (draft.map.toSource k) := by
  obtain ⟨before, after, htext, rfl⟩ := hk
  have hsize : kind.opening.utf8Size = 1 := by cases kind <;> rfl
  have hbyte := getElem?_utf8_delimiter hsize before after
  rw [← htext] at hbyte
  have hlt : Text.byteLength before < ps.length := by
    have hbytes := (List.getElem?_eq_some_iff.1 hbyte).1
    rwa [length_utf8, ← h.length] at hbytes
  cases hp : ps[Text.byteLength before] with
  | kept k =>
      obtain ⟨hoffset, hsame⟩ := h.kept _ k (List.getElem?_eq_some_iff.2 ⟨hlt, hp⟩)
      exact ⟨kind, by rw [hoffset, ← hsame, hbyte]⟩
  | produced producer k =>
      obtain ⟨hoffset, hopens⟩ := h.produced _ producer k (List.getElem?_eq_some_iff.2 ⟨hlt, hp⟩)
      exact ⟨producer, by rw [hoffset, hopens]⟩

/-! ## The passes come through reached drafts -/

/-- Where a failure of one render comes from: it is about the text itself, or it is
the failure of an invocation. -/
def FailsAt (setting : Setting) (invoke : Invoke) (origin : Origin) (t : Text)
    (e : RenderError) : Prop :=
  (∀ root, origin.Names root setting.registry t → e.Located root setting.registry) ∨
  ∃ p ∈ setting.registry, ∃ fragment, invoke p.1 p.2 fragment = .error e

theorem checkTerminated_outcome {P : Unit → Prop} (hP : P ()) {kind : RegionKind}
    {offset : Option Nat} (origin : Origin) (hoffset : ∀ k ∈ offset, OpensAt t k) :
    Outcome P (FailsAt setting invoke origin t)
      (checkTerminated setting.config kind origin offset) := by
  cases offset with
  | none => exact hP
  | some k =>
      rw [checkTerminated]
      split
      · exact Or.inl fun root hnames => ⟨t, hnames, hoffset k rfl⟩
      · exact hP

theorem expressionPass_outcome :
    Outcome (fun draft => ∃ ps, Reached setting invoke scope t draft ps)
      (FailsAt setting invoke scope.origin t) (expressionPass setting scope t) := by
  rw [expressionPass_eq]
  refine (checkTerminated_outcome (P := fun _ => True) trivial scope.origin ?_).bind
    fun _ _ _ => ?_
  · intro k hk
    have hstands := scanBraces_unterminated (by decide) hk
    exact (traced_source t).opensAt .expression hstands
  refine (Outcome.mapM fun r _ => ?_).bind fun outputs _ houtputs => ?_
  · rw [regionText]
    split
    · exact trivial
    · exact Or.inl fun _ _ => trivial
  · exact ⟨_, .evaluated houtputs⟩

theorem expand?_outcome {draft : Draft} {ps : List Provenance}
    (h : Reached setting invoke scope t draft ps) {p : Text × Text} (hp : p ∈ setting.registry) :
    Outcome (fun result => ∀ draft' ∈ result, ∃ ps', Reached setting invoke scope t draft' ps')
      (FailsAt setting invoke scope.origin t)
      (expand? setting invoke scope.origin p.1 p.2 draft) := by
  rw [expand?_eq]
  refine (checkTerminated_outcome (P := fun _ => True) trivial scope.origin ?_).bind
    fun _ _ _ => ?_
  · intro k hk
    obtain ⟨o, ho, rfl⟩ := Option.map_eq_some_iff.1 hk
    exact h.traced.opensAt .tag (scanTags_unterminated ho)
  split
  · exact fun draft' hdraft' => absurd hdraft' (by simp)
  refine (Outcome.mapM fun r _ => ?_).bind fun outputs _ houtputs => ?_
  · cases hinvoke : invoke p.1 p.2 r.text with
    | ok markup => exact trivial
    | error e => exact Or.inr ⟨p, hp, r.text, hinvoke⟩
  · intro draft' hdraft'
    obtain rfl := Option.some.inj hdraft'
    exact ⟨_, .expanded h hp houtputs⟩

/-- The rounds go from reached drafts to reached drafts. -/
theorem expandRounds_reached (rounds : Nat) {draft : Draft}
    (h : ∃ ps, Reached setting invoke scope t draft ps) :
    Outcome (fun draft' => ∃ ps, Reached setting invoke scope t draft' ps)
      (FailsAt setting invoke scope.origin t)
      (expandRounds setting invoke scope.origin rounds draft) :=
  expandRounds_outcome (fun _ _ hp ⟨_, h⟩ => expand?_outcome h hp) rounds h

theorem checkKnown_outcome {draft : Draft} {ps : List Provenance}
    (h : Reached setting invoke scope t draft ps) :
    Outcome (fun _ => True) (FailsAt setting invoke scope.origin t)
      (checkKnown setting scope.origin draft) := by
  unfold checkKnown
  dsimp only
  split
  · next i hfind =>
      split
      · have hstands := partialInvocations_standsAt (List.mem_of_find?_eq_some hfind)
        exact Or.inl fun root hnames => ⟨t, hnames, h.traced.opensAt .tag hstands⟩
      · exact trivial
  · exact trivial

theorem renderPasses_outcome :
    Outcome (fun _ => True) (FailsAt setting invoke scope.origin t)
      (renderPasses setting invoke scope t) := by
  rw [renderPasses]
  refine expressionPass_outcome.bind fun draft _ hdraft => ?_
  refine (expandRounds_reached _ hdraft).bind fun draft' _ hdraft' => ?_
  obtain ⟨ps, hdraft'⟩ := hdraft'
  exact (checkKnown_outcome hdraft').bind fun _ _ _ => trivial

/-! ## Whole renders -/

/-- **Whatever depth a failure comes from**, it is a cycle or comes from the passes over a text
that its origin names. So what holds of cycles, and of those failures of passes that no
invocation gives, holds of every failure. -/
theorem renderText_failure {root : Text} {E : RenderError → Prop}
    (cycle : ∀ chain, E (.cyclic chain))
    (passes : ∀ invoke scope t, scope.origin.Names root setting.registry t →
      Outcome (fun _ => True)
        (fun e => E e ∨ ∃ p ∈ setting.registry, ∃ fragment, invoke p.1 p.2 fragment = .error e)
        (renderPasses setting invoke scope t))
    (room : Nat) {scope : Scope} {t : Text} (hnames : scope.origin.Names root setting.registry t)
    {e : RenderError} (he : renderText setting room scope t = .error e) : E e := by
  induction room generalizing scope t e with
  | zero =>
      rcases (passes _ _ _ hnames).error he with hhere | ⟨p, -, fragment, hinvoke⟩
      · exact hhere
      · rcases invoke_eq_error hinvoke with rfl | hno
        · exact cycle _
        · obtain rfl := Except.error.inj hno
          exact cycle _
  | succ room ih =>
      rcases (passes _ _ _ hnames).error he with hhere | ⟨p, hp, fragment, hinvoke⟩
      · exact hhere
      · rcases invoke_eq_error hinvoke with rfl | hbody
        · exact cycle _
        · have hregistered : (scope.enter p.1 fragment).origin.Names root setting.registry p.2 := hp
          exact ih hregistered hbody

theorem render_failure {template : Text} {c : Context} {registry : Registry} {config : Config}
    {E : RenderError → Prop} (cycle : ∀ chain, E (.cyclic chain))
    (passes : ∀ invoke scope t, scope.origin.Names template registry t →
      Outcome (fun _ => True)
        (fun e => E e ∨ ∃ p ∈ registry, ∃ fragment, invoke p.1 p.2 fragment = .error e)
        (renderPasses ⟨registry, config⟩ invoke scope t))
    {e : RenderError} (he : render template c registry config = .error e) : E e := by
  rw [render] at he
  cases htext : renderText ⟨registry, config⟩ config.maxPartialDepth (Scope.root c) template with
  | ok markup => rw [htext] at he; exact absurd he (by simp)
  | error e' =>
      rw [htext] at he
      obtain rfl := Except.error.inj he
      have hnames : (Scope.root c).origin.Names template registry template := rfl
      exact renderText_failure cycle passes _ hnames htext

theorem render_located {template : Text} {c : Context} {registry : Registry} {config : Config}
    {e : RenderError} (he : render template c registry config = .error e) :
    e.Located template registry := by
  refine render_failure (E := fun e => e.Located template registry) (fun _ => trivial)
    (fun invoke scope t hnames => ?_) he
  exact renderPasses_outcome.mono (fun _ _ => trivial) fun e hfails =>
    hfails.imp_left fun hhere => hhere template hnames

/-- What is true of the offsets in every render with some partials and limits. -/
structure MapsBack (setting : Setting) : Prop where
  /-- In every draft that the render of a text comes through, offsets go back to where
  their bytes come from. -/
  traced : ∀ invoke scope t draft ps,
    Reached setting invoke scope t draft ps → Traced t draft ps
  /-- The render comes to such a draft by its expressions, -/
  evaluated : ∀ invoke scope t draft, expressionPass setting scope t = .ok draft →
    ∃ ps, Reached setting invoke scope t draft ps
  /-- by each expansion of a partial, -/
  expanded : ∀ invoke scope t draft ps p draft', Reached setting invoke scope t draft ps →
    p ∈ setting.registry → expand? setting invoke scope.origin p.1 p.2 draft = .ok (some draft') →
    ∃ ps', Reached setting invoke scope t draft' ps'
  /-- and by all rounds of them. -/
  finished : ∀ invoke scope t rounds draft ps draft',
    Reached setting invoke scope t draft ps →
    expandRounds setting invoke scope.origin rounds draft = .ok draft' →
    ∃ ps', Reached setting invoke scope t draft' ps'
  /-- A failure about a tag or a region names a text that has an opening delimiter
  where the failure is. -/
  located : ∀ t c e, render t c setting.registry setting.config = .error e →
    e.Located t setting.registry

/-- **Offsets go back to where their bytes come from**, at every point of a render. -/
theorem mapsBack (setting : Setting) : MapsBack setting where
  traced := fun _ _ _ _ _ h => h.traced
  evaluated := fun _ _ _ _ h => expressionPass_outcome.ok h
  expanded := fun _ _ _ _ _ _ draft' h hp hok => (expand?_outcome h hp).ok hok draft' rfl
  finished := fun _ _ _ rounds _ ps _ h hok => (expandRounds_reached rounds ⟨ps, h⟩).ok hok
  located := fun _ _ _ he => render_located he

end Stencil.Render
