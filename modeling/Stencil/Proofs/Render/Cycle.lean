import Stencil.Proofs.Context.Digest
import Stencil.Proofs.Json.Compact
import Stencil.Proofs.Render.Unguarded

/-!
# The guard against re-entry

A partial that is entered again with a context of the same digest is a cycle at
once. Without the guard it is a cycle as well, only found where the room ends: the
scope inside looks like the scope of the partial outside, so the render has come to
itself. Hence the guard changes nothing but the chain of a cycle
(`guard_changes_no_outcome`).

Digests have a set number of bits, so contexts that differ may share one. What is
assumed here is that those which the render comes to do not.
-/

namespace Stencil

/-- Contexts that bind the same names to values of the same JSON text. -/
def Context.SameTexts (c d : Context) : Prop :=
  ∀ name, (Bindings.get? c name).map Json.compact = (Bindings.get? d name).map Json.compact

theorem Context.SameTexts.get?_eq {c d : Context} (h : c.SameTexts d) (name : Text) :
    Bindings.get? c name = Bindings.get? d name :=
  Option.map_injective Json.compact_injective (h name)

namespace Render

/-- Without room the guard finds nothing that is no cycle already. -/
theorem renderText_zero (setting : Setting) (scope : Scope) (t : Text) :
    renderText setting 0 scope t = renderTextUnguarded setting 0 scope t := by
  have always : invoke (fun entered _ => .error entered.cycle) scope =
      reenter (fun entered _ => .error entered.cycle) scope := by
    funext name body fragment
    rw [invoke, reenter]
    exact ite_self _
  rw [renderText, renderTextUnguarded, always]

/-! ## What a scope keeps -/

/-- The digest of a scope is the digest of its context. -/
structure Scope.Faithful (s : Scope) : Prop where
  distinct : Bindings.Distinct s.context
  digest : s.digest = s.context.digest

theorem Scope.faithful_root {context : Context} (h : Bindings.Distinct context) :
    (Scope.root context).Faithful :=
  ⟨h, rfl⟩

theorem Scope.Faithful.enter {s : Scope} (h : s.Faithful) (name fragment : Text) :
    (s.enter name fragment).Faithful where
  distinct := Bindings.distinct_overlay h.distinct _
  digest := by
    change Context.overlaidDigest s.context s.digest _ = Context.digest (Bindings.overlay _ _)
    rw [Context.digest_overlay (Partial.distinct_invocationBindings fragment), h.digest]

/-- Each entry of the stack is a render that led here. -/
def Accounted (setting : Setting) (root a : Activation) : Prop :=
  ∀ entry ∈ a.scope.stack, ∃ b, Reaches setting root b ∧ Reaches setting b a ∧
    b.scope.digest = entry.digest ∧ b.scope.origin = .body entry.name ∧
    (entry.name, b.text) ∈ setting.registry

namespace Reaches

variable {setting : Setting} {root a : Activation}

theorem faithful (h : Reaches setting root a) (hroot : root.scope.Faithful) :
    a.scope.Faithful := by
  induction h with
  | refl => exact hroot
  | tail _ step ih =>
      cases step with
      | intro _ => exact ih.enter _ _

theorem accounted (h : Reaches setting root a) (hroot : root.scope.stack = []) :
    Accounted setting root a := by
  induction h with
  | refl =>
      intro entry hentry
      rw [hroot] at hentry
      cases hentry
  | @tail x y hx step ih =>
      intro entry hentry
      have hy : Reaches setting root y := hx.tail step
      have hlast := step
      cases step with
      | @intro room scope t name body fragment demands =>
          rcases List.mem_append.1 hentry with hentry | hentry
          · obtain ⟨b, hrb, hbx, hb⟩ := ih entry hentry
            exact ⟨b, hrb, hbx.tail hlast, hb⟩
          · obtain rfl := List.mem_singleton.1 hentry
            refine ⟨_, hy, .refl, rfl, rfl, ?_⟩
            exact (interactive_renderPasses setting scope t).registered demands

end Reaches

/-! ## The guard -/

/-- What is assumed of the digests: of the contexts that a render comes to, those of
one digest bind the same names to values of the same text. There are more contexts than
digests, so it cannot be asked of all of them. -/
def DigestsTell (setting : Setting) (root : Activation) : Prop :=
  ∀ a b, Reaches setting root a → Reaches setting root b →
    a.scope.context.digest = b.scope.context.digest →
    a.scope.context.SameTexts b.scope.context

section Guard

variable {setting : Setting} {root : Activation}

/-- A partial that the guard stops is a cycle without the guard. -/
theorem isCycle_of_guarded (hpartials : Bindings.Distinct setting.registry)
    (hroot : root.scope.Faithful) (hstack : root.scope.stack = [])
    (tell : DigestsTell setting root) {room : Nat} {scope : Scope} {t name body fragment : Text}
    (hreach : Reaches setting root ⟨room + 1, scope, t⟩)
    (demands : Demands (fun invoke => renderPasses setting invoke scope t)
      (reenter (renderTextUnguarded setting room) scope) name body fragment)
    (hguard : ⟨name, (scope.enter name fragment).digest⟩ ∈ scope.stack) :
    IsCycle (renderTextUnguarded setting room (scope.enter name fragment) body) := by
  have step : Enters setting ⟨room + 1, scope, t⟩ ⟨room, scope.enter name fragment, body⟩ :=
    .intro demands
  have hentered : Reaches setting root ⟨room, scope.enter name fragment, body⟩ :=
    hreach.tail step
  -- the render outside that the entry of the stack stands for
  obtain ⟨a, ha, hloop, hdigest, horigin, hregistered⟩ := hreach.accounted hstack _ hguard
  have haFaithful := ha.faithful hroot
  have heFaithful : (scope.enter name fragment).Faithful := hentered.faithful hroot
  -- the partial has one body, and the digest one context
  have hbody : a.text = body := by
    have hname := (interactive_renderPasses setting scope t).registered demands
    have h₁ := Bindings.get?_of_mem hpartials hregistered
    have h₂ := Bindings.get?_of_mem hpartials hname
    exact Option.some.inj (h₁.symm.trans h₂)
  have hsame : a.scope.context.digest = (scope.enter name fragment).context.digest := by
    rw [← haFaithful.digest, ← heFaithful.digest]
    exact hdigest
  have hlike : a.scope.Like (scope.enter name fragment) :=
    { origin := horigin
      distinct := haFaithful.distinct
      distinct' := heFaithful.distinct
      same := (tell _ _ ha hentered hsame).get?_eq }
  have hroom : room < a.room := hloop.room_le
  have hround : Reaches setting a ⟨room, scope.enter name fragment, body⟩ := hloop.tail step
  have hcycle : IsCycle (renderTextUnguarded setting room a.scope a.text) :=
    hround.isCycle_of_loop hroom hbody hlike (Nat.le_of_lt hroom)
  rw [hbody] at hcycle
  exact (nested_alike setting (room + 1) hlike body).isCycle hcycle

/-- **With the guard and without it a text renders alike**, wherever a render comes
to it. -/
theorem renderText_alike (hpartials : Bindings.Distinct setting.registry)
    (hroot : root.scope.Faithful) (hstack : root.scope.stack = [])
    (tell : DigestsTell setting root) {room : Nat} {scope : Scope} {t : Text}
    (hreach : Reaches setting root ⟨room, scope, t⟩) :
    Alike (renderText setting room scope t) (renderTextUnguarded setting room scope t) := by
  induction room generalizing scope t with
  | zero =>
      rw [renderText_zero]
      exact Alike.refl _
  | succ room ih =>
      refine (interactive_renderPasses setting scope t).alike fun name body fragment demands => ?_
      by_cases hguard : ⟨name, (scope.enter name fragment).digest⟩ ∈ scope.stack
      -- the guard stops it: a cycle at once, and a cycle without the guard
      · have hstopped : invoke (fun entered body => renderText setting room entered body) scope
            name body fragment = .error (scope.enter name fragment).cycle :=
          if_pos (List.contains_iff_mem.2 hguard)
        rw [hstopped]
        exact Or.inr ⟨⟨_, rfl⟩,
          isCycle_of_guarded hpartials hroot hstack tell hreach demands hguard⟩
      -- the guard lets it in
      · have hentered : invoke (fun entered body => renderText setting room entered body) scope
            name body fragment = renderText setting room (scope.enter name fragment) body :=
          if_neg fun h => hguard (List.contains_iff_mem.1 h)
        rw [hentered]
        exact ih (hreach.tail (.intro demands))

end Guard

/-- **The guard changes no outcome**, only how early a cycle is found. Without it a
template gives the same markup, fails for the same reason, and is a cycle in the same
cases. Contexts and registries bind each name once, as all that are built do. -/
theorem guard_changes_no_outcome (template : Text) {context : Context}
    {partials : Partial.Registry} {config : Config} (hcontext : Bindings.Distinct context)
    (hpartials : Bindings.Distinct partials)
    (tell : DigestsTell ⟨partials, config⟩
      ⟨config.maxPartialDepth, Scope.root context, template⟩) :
    (∀ x, render template context partials config = .ok x ↔
      renderUnguarded template context partials config = .ok x) ∧
    (∀ e, (∀ chain, e ≠ .cyclic chain) →
      (render template context partials config = .error e ↔
        renderUnguarded template context partials config = .error e)) ∧
    ((∃ chain, render template context partials config = .error (.cyclic chain)) ↔
      ∃ chain, renderUnguarded template context partials config = .error (.cyclic chain)) := by
  have alike : Alike (render template context partials config)
      (renderUnguarded template context partials config) :=
    (renderText_alike hpartials (Scope.faithful_root hcontext) rfl tell .refl).map _
  refine ⟨alike.eq_ok_iff, fun e he => alike.eq_error_iff he, ?_⟩
  constructor
  · exact alike.isCycle
  · exact alike.symm.isCycle

/-! ## A partial that invokes itself -/

/-- A partial whose body is its own invocation. -/
def mirrors : Partial.Registry :=
  [("mirror".toList, "<_mirror/>".toList)]

/-- What the partial binds each time. -/
def mirrored : Context :=
  [(Partial.contentsName, .string [])]

theorem renderPasses_mirror {invoke : Invoke} {scope : Scope} {e : RenderError}
    (h : invoke "mirror".toList "<_mirror/>".toList "<_mirror/>".toList = .error e) :
    renderPasses ⟨mirrors, {}⟩ invoke scope "<_mirror/>".toList = .error e := by
  have hpass : expressionPass ⟨mirrors, {}⟩ scope "<_mirror/>".toList =
      .ok ⟨"<_mirror/>".toList, [[]]⟩ := rfl
  have hscan : Markup.scanTags (some (tagName "mirror".toList)) "<_mirror/>".toList =
      ⟨[⟨[], "<_mirror/>".toList, ⟨0, 10⟩⟩], [], none⟩ := rfl
  have hexpand : expand? ⟨mirrors, {}⟩ invoke scope.origin "mirror".toList "<_mirror/>".toList
      ⟨"<_mirror/>".toList, [[]]⟩ = .error e := by
    rw [expand?_eq]
    dsimp only
    rw [hscan]
    change (invoke _ _ _ >>= fun v => _) >>= _ = _
    rw [h]
    rfl
  rw [renderPasses, hpass]
  change (((expand? _ _ _ _ _ _ >>= _) >>= _) >>= _) >>= _ = _
  rw [hexpand]
  rfl

theorem invocationBindings_mirror :
    Partial.invocationBindings "<_mirror/>".toList = mirrored :=
  Partial.invocationBindings_emptyTag (by decide : Partial.isValidName "mirror".toList = true)

/-- Without the guard it ends where the room ends. -/
theorem isCycle_mirror (room : Nat) (scope : Scope) :
    IsCycle (renderTextUnguarded ⟨mirrors, {}⟩ room scope "<_mirror/>".toList) := by
  induction room generalizing scope with
  | zero => exact ⟨_, renderPasses_mirror rfl⟩
  | succ room ih =>
      obtain ⟨chain, h⟩ := ih (scope.enter "mirror".toList "<_mirror/>".toList)
      exact ⟨chain, renderPasses_mirror h⟩

theorem eq_of_demands_mirror {room : Nat} {scope : Scope} {name body fragment : Text}
    (h : Demands (fun invoke => renderPasses ⟨mirrors, {}⟩ invoke scope "<_mirror/>".toList)
      (reenter (renderTextUnguarded ⟨mirrors, {}⟩ room) scope) name body fragment) :
    body = "<_mirror/>".toList ∧ fragment = "<_mirror/>".toList := by
  by_contra hother
  obtain ⟨chain, hcycle⟩ :=
    isCycle_mirror room (scope.enter "mirror".toList "<_mirror/>".toList)
  have hfixed : ∀ e, .error (.cyclic chain) = (.error e : Except RenderError Text) := by
    intro e
    rw [← h e]
    symm
    apply renderPasses_mirror
    rw [Invoke.failing_of_ne]
    · exact hcycle
    · rintro ⟨-, rfl, rfl⟩
      exact hother ⟨rfl, rfl⟩
  cases hfixed (.unterminated .tag 0 .template)

theorem reaches_mirror {a : Activation}
    (h : Reaches ⟨mirrors, {}⟩ ⟨64, Scope.root mirrored, "<_mirror/>".toList⟩ a) :
    a.text = "<_mirror/>".toList ∧ a.scope.context = mirrored := by
  induction h with
  | refl => exact ⟨rfl, rfl⟩
  | tail _ step ih =>
      cases step with
      | intro demands =>
          obtain ⟨rfl, hcontext⟩ := ih
          obtain ⟨rfl, rfl⟩ := eq_of_demands_mirror demands
          refine ⟨rfl, ?_⟩
          change Bindings.overlay _ (Partial.invocationBindings _) = _
          rw [hcontext, invocationBindings_mirror]
          rfl

/-- The partial that invokes itself is a cycle with the guard, as it is one without. -/
theorem guard_changes_no_outcome_mirror :
    DigestsTell ⟨mirrors, {}⟩ ⟨64, Scope.root mirrored, "<_mirror/>".toList⟩ ∧
    ∃ chain, render "<_mirror/>".toList mirrored mirrors {} = .error (.cyclic chain) := by
  have tell : DigestsTell ⟨mirrors, {}⟩ ⟨64, Scope.root mirrored, "<_mirror/>".toList⟩ := by
    intro a b ha hb _ name
    rw [(reaches_mirror ha).2, (reaches_mirror hb).2]
  refine ⟨tell, ?_⟩
  apply (guard_changes_no_outcome "<_mirror/>".toList (by decide) (by decide) tell).2.2.2
  exact (isCycle_map_iff _).2 (isCycle_mirror 64 _)

end Render

end Stencil
