import Stencil.Proofs.Markup.Leftover
import Stencil.Proofs.Render.Passes

/-!
# Markup at rest

Markup is at rest when a look for any of the partials finds no invocation. A round
expands nothing exactly if it starts from markup at rest (`expandRound_eq_false_iff`),
so a pass that is not cut off by its number of rounds ends at rest, and then more
rounds would end the same (`expandRounds_of_atRest`).

At rest, and with nothing unknown, a tag of a partial is left only where its name goes
on in a way that names do not (`leftover_of_settles`). A pass that is cut off may leave
tags that a further round would have expanded.
-/

namespace Stencil.Render

open Markup (Untagged partialInvocations)

variable {setting : Setting} {invoke : Invoke} {origin : Origin}

/-- Nothing of the markup is left to expand: a look for a partial finds no
invocation, and none that stays open if that fails. -/
def AtRest (setting : Setting) (t : Text) : Prop :=
  ∀ p ∈ setting.registry,
    (Markup.scanTags (some (tagName p.1)) t).regions = [] ∧
      (setting.config.isStrict = true →
        (Markup.scanTags (some (tagName p.1)) t).unterminated = none)

/-- Where malformed markup fails, markup at rest has no tag of a partial in it. -/
theorem AtRest.untagged {t : Text} (h : AtRest setting t)
    (hstrict : setting.config.isStrict = true) {p : Text × Text} (hp : p ∈ setting.registry) :
    Untagged (some (tagName p.1)) false t :=
  Markup.untagged_of_scanTags (h p hp).1 ((h p hp).2 hstrict)

/-! ## One round -/

/-- A look for a partial finds none exactly if no invocation is there, and none that
stays open if that fails. -/
theorem expand?_eq_none_iff {name body : Text} {draft : Draft} :
    expand? setting invoke origin name body draft = .ok none ↔
      (Markup.scanTags (some (tagName name)) draft.text).regions = [] ∧
        (setting.config.isStrict = true →
          (Markup.scanTags (some (tagName name)) draft.text).unterminated = none) := by
  rw [expand?_eq]
  dsimp only
  constructor
  · intro h
    obtain ⟨⟨⟩, hterm, h⟩ := Except.bind_eq_ok_iff.1 h
    have hregions : (Markup.scanTags (some (tagName name)) draft.text).regions = [] := by
      by_contra hne
      rw [if_neg hne] at h
      obtain ⟨outputs, -, h⟩ := Except.bind_eq_ok_iff.1 h
      exact absurd (Except.ok.inj h) (by simp)
    refine ⟨hregions, fun hstrict => ?_⟩
    cases hk : (Markup.scanTags (some (tagName name)) draft.text).unterminated with
    | none => rfl
    | some k =>
        rw [hk, Option.map_some, checkTerminated_strict hstrict] at hterm
        exact absurd hterm (by simp)
  · rintro ⟨hregions, hterm⟩
    have hok : checkTerminated setting.config .tag origin
        ((Markup.scanTags (some (tagName name)) draft.text).unterminated.map
          draft.map.toSource) = .ok () :=
      checkTerminated_ok (fun hstrict => by rw [hterm hstrict]; rfl) .tag origin
    rw [hok, hregions]
    rfl

/-- A round that has found something stays so. -/
theorem foldlM_expandNext_true {partials : List (Text × Text)} {draft : Draft}
    {state : Draft × Bool}
    (h : partials.foldlM (expandNext setting invoke origin) (draft, true) = .ok state) :
    state.2 = true := by
  induction partials generalizing draft with
  | nil =>
      obtain rfl := Except.ok.inj h
      rfl
  | cons p partials ih =>
      rw [List.foldlM_cons] at h
      obtain ⟨next, hnext, h⟩ := Except.bind_eq_ok_iff.1 h
      obtain ⟨result, -, hresult⟩ := Except.bind_eq_ok_iff.1 hnext
      cases result with
      | none =>
          obtain rfl := Except.ok.inj hresult
          exact ih h
      | some draft' =>
          obtain rfl := Except.ok.inj hresult
          exact ih h

theorem foldlM_expandNext_eq_false_iff {partials : List (Text × Text)} {draft draft' : Draft} :
    partials.foldlM (expandNext setting invoke origin) (draft, false) = .ok (draft', false) ↔
      draft' = draft ∧
        ∀ p ∈ partials, expand? setting invoke origin p.1 p.2 draft = .ok none := by
  induction partials with
  | nil =>
      rw [List.foldlM_nil, Except.pure_eq_ok]
      simp [eq_comm]
  | cons p partials ih =>
      rw [List.foldlM_cons, List.forall_mem_cons]
      constructor
      · intro h
        obtain ⟨next, hnext, h⟩ := Except.bind_eq_ok_iff.1 h
        obtain ⟨result, hresult, hstate⟩ := Except.bind_eq_ok_iff.1 hnext
        cases result with
        | none =>
            obtain rfl := Except.ok.inj hstate
            obtain ⟨hdraft, hall⟩ := ih.1 h
            exact ⟨hdraft, hresult, hall⟩
        | some found =>
            obtain rfl := Except.ok.inj hstate
            exact absurd (foldlM_expandNext_true h) Bool.false_ne_true
      · rintro ⟨hdraft, hp, hall⟩
        have hnext : expandNext setting invoke origin (draft, false) p = .ok (draft, false) := by
          rw [expandNext, hp]
          rfl
        rw [hnext, Except.bind_ok]
        exact ih.2 ⟨hdraft, hall⟩

/-- **A round expands nothing exactly if its markup is at rest.** -/
theorem expandRound_eq_false_iff {draft draft' : Draft} :
    expandRound setting invoke origin draft = .ok (draft', false) ↔
      draft' = draft ∧ AtRest setting draft.text := by
  rw [expandRound, foldlM_expandNext_eq_false_iff]
  simp only [expand?_eq_none_iff, AtRest]

/-! ## Rounds -/

/-- The rounds from a draft on come to one that expands nothing. -/
inductive Settles (setting : Setting) (invoke : Invoke) (origin : Origin) :
    (rounds : Nat) → Draft → Prop where
  | rest {rounds : Nat} {draft draft' : Draft}
      (round : expandRound setting invoke origin draft = .ok (draft', false)) :
      Settles setting invoke origin (rounds + 1) draft
  | again {rounds : Nat} {draft draft' : Draft}
      (round : expandRound setting invoke origin draft = .ok (draft', true))
      (later : Settles setting invoke origin rounds draft') :
      Settles setting invoke origin (rounds + 1) draft

/-- Rounds that settle end at rest. -/
theorem Settles.atRest {rounds : Nat} {draft final : Draft}
    (h : Settles setting invoke origin rounds draft)
    (hfinal : expandRounds setting invoke origin rounds draft = .ok final) :
    AtRest setting final.text := by
  induction h with
  | rest round =>
      rw [expandRounds, round] at hfinal
      obtain rfl := Except.ok.inj hfinal
      obtain ⟨rfl, hrest⟩ := expandRound_eq_false_iff.1 round
      exact hrest
  | again round _ ih =>
      rw [expandRounds, round] at hfinal
      exact ih hfinal

/-- **From markup at rest more rounds make no difference.** -/
theorem expandRounds_of_atRest {rounds more : Nat} (h : rounds ≤ more) {draft final : Draft}
    (hfinal : expandRounds setting invoke origin rounds draft = .ok final)
    (hrest : AtRest setting final.text) :
    expandRounds setting invoke origin more draft = .ok final := by
  induction rounds generalizing more draft with
  | zero =>
      obtain rfl := Except.ok.inj hfinal
      cases more with
      | zero => rfl
      | succ more =>
          rw [expandRounds, expandRound_eq_false_iff.2 ⟨rfl, hrest⟩]
          rfl
  | succ rounds ih =>
      obtain ⟨more, rfl⟩ := Nat.exists_eq_add_of_le' h
      rw [expandRounds] at hfinal
      obtain ⟨⟨draft', found⟩, hround, hlater⟩ := Except.bind_eq_ok_iff.1 hfinal
      rw [← Nat.add_assoc, expandRounds, hround, Except.bind_ok]
      cases found with
      | true => exact ih (Nat.le_add_left rounds more) hlater
      | false => exact hlater

/-! ## What a render leaves -/

/-- How a body is rendered where there is room for so many partials. -/
def innerRender (setting : Setting) : (room : Nat) → Inner
  | 0 => fun entered _ => .error entered.cycle
  | room + 1 => fun entered body => renderText setting room entered body

theorem renderText_eq (setting : Setting) (room : Nat) (scope : Scope) (t : Text) :
    renderText setting room scope t =
      renderPasses setting (Render.invoke (innerRender setting room) scope) scope t := by
  cases room with
  | zero => rfl
  | succ room => rfl

/-- An invocation that has succeeded has rendered the body, in room for one less. -/
theorem invoke_eq_ok {room : Nat} {scope : Scope} {name body fragment v : Text}
    (h : Render.invoke (innerRender setting room) scope name body fragment = .ok v) :
    ⟨name, (scope.enter name fragment).digest⟩ ∉ scope.stack ∧
      ∃ inside, room = inside + 1 ∧
        renderText setting inside (scope.enter name fragment) body = .ok v := by
  unfold Render.invoke at h
  dsimp only at h
  split at h
  · exact absurd h (by simp)
  · next hguard =>
      refine ⟨fun hmem => hguard (List.contains_iff_mem.2 hmem), ?_⟩
      cases room with
      | zero => exact absurd h (by simp [innerRender])
      | succ inside => exact ⟨inside, rfl, h⟩

theorem invoke_of_ok {inside : Nat} {scope : Scope} {name body fragment v : Text}
    (hguard : ⟨name, (scope.enter name fragment).digest⟩ ∉ scope.stack)
    (h : renderText setting inside (scope.enter name fragment) body = .ok v) :
    Render.invoke (innerRender setting (inside + 1)) scope name body fragment = .ok v := by
  unfold Render.invoke
  dsimp only
  rw [if_neg fun hmem => hguard (List.contains_iff_mem.1 hmem)]
  exact h

/-- What the two passes of a render that succeeded have done. -/
theorem renderPasses_eq_ok_iff {scope : Scope} {t m : Text} :
    renderPasses setting invoke scope t = .ok m ↔
      ∃ draft final, expressionPass setting scope t = .ok draft ∧
        expandRounds setting invoke scope.origin setting.config.maxPartialDepth draft = .ok final ∧
        checkKnown setting scope.origin final = .ok () ∧ final.text = m := by
  rw [renderPasses, Except.bind_eq_ok_iff]
  constructor
  · rintro ⟨draft, hdraft, h⟩
    obtain ⟨final, hfinal, h⟩ := Except.bind_eq_ok_iff.1 h
    obtain ⟨⟨⟩, hknown, h⟩ := Except.bind_eq_ok_iff.1 h
    exact ⟨draft, final, hdraft, hfinal, hknown, Except.ok.inj h⟩
  · rintro ⟨draft, final, hdraft, hfinal, hknown, rfl⟩
    refine ⟨draft, hdraft, ?_⟩
    rw [hfinal, Except.bind_ok, hknown]
    rfl

/-- Where unknown partials fail, every partial tag left is that of a registered one. -/
theorem contains_of_checkKnown {draft : Draft} (hstrict : setting.config.isStrict = true)
    (h : checkKnown setting origin draft = .ok ()) :
    ∀ i ∈ partialInvocations draft.text, Bindings.contains setting.registry i.name = true := by
  unfold checkKnown at h
  cases hfind : (partialInvocations draft.text).find? fun i =>
      !Bindings.contains setting.registry i.name with
  | none =>
      intro i hi
      simpa using List.find?_eq_none.1 hfind i hi
  | some i =>
      simp only [hfind, hstrict, if_true] at h
      exact absurd h (by simp)

/-- A partial tag in markup that no look for partials takes up: a registered name, and
after it a character at which no tag name ends. -/
def Leftover (setting : Setting) (m : Text) (i : Markup.PartialInvocation) : Prop :=
  Bindings.contains setting.registry i.name = true ∧
    ∃ before c after, m = before ++ '<' :: '_' :: (i.name ++ c :: after) ∧
      i.offset = Text.byteLength before ∧ Text.isBlank c = false ∧ c ≠ '/' ∧ c ≠ '>'

/-- Markup at rest with nothing unknown in it. -/
theorem leftover_of_atRest {m : Text} (hstrict : setting.config.isStrict = true)
    (hrest : AtRest setting m)
    (hknown : ∀ i ∈ partialInvocations m, Bindings.contains setting.registry i.name = true) :
    ∀ i ∈ partialInvocations m, Leftover setting m i := by
  intro i hi
  have hregistered := hknown i hi
  obtain ⟨body, hget⟩ := Option.isSome_iff_exists.1 hregistered
  obtain ⟨before, after, rfl, hpending, hoffset, hname⟩ := Markup.invokedName?_of_mem hi
  obtain ⟨rest, rfl⟩ := Markup.invokedName?_eq_some hname
  have huntagged := hrest.untagged hstrict (Bindings.mem_of_get? hget)
  obtain ⟨c, after, rfl, hblank, hslash, hgt⟩ :=
    Markup.follows_name_of_untagged huntagged hpending
  exact ⟨hregistered, before, c, after, rfl, hoffset, hblank, hslash, hgt⟩

/-- **What partial tags are left.** Where malformed markup fails, a text whose pass came
to a round that expanded nothing renders to markup in which every partial tag is a
leftover, and in which no look for a partial meets an opening tag. -/
theorem leftover_of_settles {room : Nat} {scope : Scope} {t m : Text}
    (hstrict : setting.config.isStrict = true)
    (hok : renderText setting room scope t = .ok m)
    (hsettles : ∀ draft, expressionPass setting scope t = .ok draft →
      Settles setting (Render.invoke (innerRender setting room) scope) scope.origin
        setting.config.maxPartialDepth draft) :
    (∀ i ∈ partialInvocations m, Leftover setting m i) ∧
      ∀ p ∈ setting.registry, Untagged (some (tagName p.1)) false m := by
  rw [renderText_eq] at hok
  obtain ⟨draft, final, hdraft, hfinal, hknown, rfl⟩ := renderPasses_eq_ok_iff.1 hok
  have hrest := (hsettles draft hdraft).atRest hfinal
  refine ⟨leftover_of_atRest hstrict hrest (contains_of_checkKnown hstrict hknown), ?_⟩
  intro p hp
  exact hrest.untagged hstrict hp

/-- A partial whose body starts a tag of its own name that is none. -/
def colonSetting : Setting :=
  ⟨[("box".toList, "a <_box: b".toList)], {}⟩

/-- The round that expands the partial is followed by one that expands nothing, and
the tag in its body is left. -/
theorem leftover_of_settles_colon :
    colonSetting.config.isStrict = true ∧
      renderText colonSetting 64 (Scope.root []) "<_box/>".toList = .ok "a <_box: b".toList ∧
      partialInvocations "a <_box: b".toList = [⟨"box".toList, 2⟩] ∧
      ∀ i ∈ partialInvocations "a <_box: b".toList,
        Leftover colonSetting "a <_box: b".toList i := by
  have hok : renderText colonSetting 64 (Scope.root []) "<_box/>".toList =
      .ok "a <_box: b".toList := rfl
  refine ⟨rfl, hok, rfl, (leftover_of_settles rfl hok fun draft hdraft => ?_).1⟩
  obtain rfl := Except.ok.inj hdraft
  exact .again rfl (.rest rfl)

end Stencil.Render
