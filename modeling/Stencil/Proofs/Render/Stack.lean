import Stencil.Proofs.Render.Course
import Stencil.Proofs.Render.Rest

/-!
# The stack of partials

A renderer with a stack of its own puts it back after every invocation, also where the body
fails (`keeps_enter`). So where it starts with the stack that the scope lists, the two are
the same throughout, and the renderer gives what `render` gives (`agrees_render`).

On the way the stack is never longer than the bound and never has one entry twice, for a
partial is only put on a stack that has room and does not have it. Of what is refused, the
chain of the cycle is the stack at that moment with the refused name at its end
(`stack_bounded_and_restored`).
-/

namespace Stencil.Render

variable {α β : Type} {setting : Setting}

/-! ## Put back -/

/-- Work that leaves the stack as it found it, whether it succeeds or fails. -/
def Keeps (w : Work α) : Prop :=
  ∀ c, (w c).2.stack = c.stack

theorem follows_keeps : Follows fun w _ => Keeps w where
  settled _ _ := rfl
  bind := by
    intro α β w x f g hw hf c
    change (Work.bind w f c).2.stack = c.stack
    have hfirst := hw c
    rw [Work.bind]
    split
    · next a c' heq => rw [hf a c', ← hfirst, heq]
    · next e c' heq => rw [← hfirst, heq]

theorem keeps_within {w : Work α} (h : Keeps w) (entry : Entry) :
    Keeps (Work.within entry w) := by
  intro c
  change (w (c.push entry)).2.stack.dropLast = c.stack
  rw [h, Course.stack_push, List.dropLast_concat]

theorem keeps_enter {inner : Scope → (body : Text) → Work Text}
    (h : ∀ entered body, Keeps (inner entered body)) (scope : Scope) (name body fragment : Text) :
    Keeps (Work.enter setting inner scope name body fragment) := by
  intro c
  by_cases hrefused : ⟨name, (scope.enter name fragment).digest⟩ ∈ c.stack ∨
      setting.config.maxPartialDepth ≤ c.stack.length
  · rw [Work.enter_of_refused hrefused]
    rfl
  · rw [Work.enter_of_admitted hrefused]
    exact keeps_within (h _ _) _ c

theorem keeps_renderPasses {enter : (name body fragment : Text) → Work Text}
    (h : ∀ name body fragment, Keeps (enter name body fragment)) (scope : Scope) (t : Text) :
    Keeps (Work.renderPasses setting enter scope t) := by
  -- any outcome will do for the invocations, as it is not looked at
  have invoke : Invoke := fun _ _ _ => .ok []
  exact @Follows.renderPasses _ follows_keeps setting enter invoke (fun p _ => h p.1 p.2) scope t

theorem keeps_renderText (setting : Setting) (room : Nat) (scope : Scope) (t : Text) :
    Keeps (Work.renderText setting room scope t) := by
  induction room generalizing scope t with
  | zero => exact keeps_renderPasses (fun _ _ _ => keeps_enter (fun _ _ _ => rfl) _ _ _ _) scope t
  | succ room ih => exact keeps_renderPasses (fun _ _ _ => keeps_enter ih _ _ _ _) scope t

/-! ## Stacks, and what they refuse -/

/-- A stack that a render may have: there is room for it, no partial is on it twice with the
same bindings, and all are registered. -/
structure Orderly (setting : Setting) (stack : List Entry) : Prop where
  bounded : stack.length ≤ setting.config.maxPartialDepth
  distinct : stack.Nodup
  registered : ∀ entry ∈ stack, entry.name ∈ Bindings.names setting.registry

/-- Why a partial is not let in: it is being rendered, or the stack is full. -/
structure Refusal (setting : Setting) (stack : List Entry) (name : Text) : Prop where
  orderly : Orderly setting stack
  registered : name ∈ Bindings.names setting.registry
  cause : name ∈ stack.map Entry.name ∨ stack.length = setting.config.maxPartialDepth

theorem orderly_nil (setting : Setting) : Orderly setting [] :=
  ⟨Nat.zero_le _, List.nodup_nil, by simp⟩

/-- A stack with one more registered partial, if there is room and the partial is not on it
with these bindings. -/
theorem Orderly.append {stack : List Entry} {entry : Entry} (h : Orderly setting stack)
    (hregistered : entry.name ∈ Bindings.names setting.registry) (hguard : entry ∉ stack)
    (hroom : stack.length < setting.config.maxPartialDepth) :
    Orderly setting (stack ++ [entry]) := by
  refine ⟨?_, ?_, ?_⟩
  · rw [List.length_append]
    exact hroom
  · refine List.nodup_append.2 ⟨h.distinct, List.nodup_singleton _, ?_⟩
    rintro a ha b hb rfl
    exact hguard (List.mem_singleton.1 hb ▸ ha)
  · intro other hother
    rcases List.mem_append.1 hother with hother | hother
    · exact h.registered other hother
    · obtain rfl := List.mem_singleton.1 hother
      exact hregistered

namespace Refusal

variable {stack : List Entry} {name : Text}

/-- All names of the cycle that a refusal gives are registered. -/
theorem registered_chain (h : Refusal setting stack name) :
    ∀ n ∈ stack.map Entry.name ++ [name], n ∈ Bindings.names setting.registry := by
  intro n hn
  rcases List.mem_append.1 hn with hn | hn
  · obtain ⟨entry, hentry, rfl⟩ := List.mem_map.1 hn
    exact h.orderly.registered entry hentry
  · obtain rfl := List.mem_singleton.1 hn
    exact h.registered

/-- The cycle is one name longer than the stack, which has room. -/
theorem length_chain_le (h : Refusal setting stack name) :
    (stack.map Entry.name ++ [name]).length ≤ setting.config.maxPartialDepth + 1 := by
  simpa using h.orderly.bounded

theorem cause_chain (h : Refusal setting stack name) :
    name ∈ stack.map Entry.name ∨
      (stack.map Entry.name ++ [name]).length = setting.config.maxPartialDepth + 1 :=
  h.cause.imp_right fun hfull => by simpa using hfull

end Refusal

/-- What becomes of a course in work with a result: nothing was refused, or the result is
the cycle that one refusal gave. -/
structure Accounts (setting : Setting) (before : Course) (x : Except RenderError α)
    (after : Course) : Prop where
  stack : after.stack = before.stack
  grown : before.moments ⊆ after.moments
  orderly : (∀ s ∈ before.moments, Orderly setting s) → ∀ s ∈ after.moments, Orderly setting s
  refused : ¬ IsCycle x ∧ after.refused = before.refused ∨
    ∃ s name, Refusal setting s name ∧ s ∈ after.moments ∧
      x = .error (.cyclic (s.map Entry.name ++ [name])) ∧
      after.refused = (s, name) :: before.refused

/-- Where the stack is this one, the work gives what the task gives. -/
def Agrees (setting : Setting) (stack : List Entry) (w : Work α) (x : Except RenderError α) :
    Prop :=
  ∀ c, c.stack = stack → ∃ after, w c = (x, after) ∧ Accounts setting c x after

theorem follows_agrees (setting : Setting) (stack : List Entry) :
    Follows (Agrees setting stack) where
  settled := by
    intro α x hx c _
    exact ⟨c, rfl, rfl, List.Subset.refl _, fun h => h, .inl ⟨hx, rfl⟩⟩
  bind := by
    intro α β w x f g hw hf c hc
    obtain ⟨mid, hmid, hfirst⟩ := hw c hc
    change ∃ after, Work.bind w f c = (x >>= g, after) ∧ _
    rw [Work.bind, hmid]
    cases x with
    | error e =>
        refine ⟨mid, rfl, hfirst.stack, hfirst.grown, hfirst.orderly, ?_⟩
        rcases hfirst.refused with ⟨hno, hsame⟩ | ⟨s, name, href, hs, he, hrefused⟩
        · refine .inl ⟨fun ⟨chain, h⟩ => hno ⟨chain, ?_⟩, hsame⟩
          exact congrArg Except.error (Except.error.inj h)
        · exact .inr ⟨s, name, href, hs, congrArg Except.error (Except.error.inj he), hrefused⟩
    | ok a =>
        obtain ⟨after, hafter, hsecond⟩ := hf a mid (hfirst.stack.trans hc)
        have hsame : mid.refused = c.refused := by
          rcases hfirst.refused with ⟨-, hsame⟩ | ⟨_, _, _, _, he, _⟩
          · exact hsame
          · cases he
        refine ⟨after, hafter, hsecond.stack.trans hfirst.stack,
          List.Subset.trans hfirst.grown hsecond.grown,
          fun h => hsecond.orderly (hfirst.orderly h), ?_⟩
        have hlater := hsecond.refused
        rw [hsame] at hlater
        exact hlater

/-! ## The stack that the scope lists -/

/-- Work in which a partial was refused gives the cycle that the scope gives. -/
theorem agrees_refuse {scope : Scope} {name fragment : Text}
    (href : Refusal setting scope.stack name) {c : Course} (hc : c.stack = scope.stack) :
    ∃ after, Work.refuse name c = (.error (scope.enter name fragment).cycle, after) ∧
      Accounts setting c (.error (scope.enter name fragment).cycle : Except RenderError Text)
        after := by
  have hcycle : (scope.enter name fragment).cycle =
      .cyclic (c.stack.map Entry.name ++ [name]) := by
    simp [Scope.cycle, Scope.enter, hc]
  rw [hcycle]
  rw [← hc] at href
  exact ⟨c.refuse name, rfl, rfl, List.Subset.refl _, fun h => h,
    .inr ⟨c.stack, name, href, List.mem_cons_self, rfl, rfl⟩⟩

/-- Work with one more partial on the stack, which is off it again at the end. -/
theorem agrees_within {scope : Scope} {name fragment : Text} {w : Work Text}
    {x : Except RenderError Text} (horderly : Orderly setting (scope.enter name fragment).stack)
    (hw : Agrees setting (scope.enter name fragment).stack w x) {c : Course}
    (hc : c.stack = scope.stack) :
    ∃ after, Work.within ⟨name, (scope.enter name fragment).digest⟩ w c = (x, after) ∧
      Accounts setting c x after := by
  have hpush : (c.push ⟨name, (scope.enter name fragment).digest⟩).stack =
      (scope.enter name fragment).stack := by
    rw [Course.stack_push, hc]
    rfl
  obtain ⟨after, hafter, haccounts⟩ := hw _ hpush
  have hwithin : Work.within ⟨name, (scope.enter name fragment).digest⟩ w c = (x, after.pop) := by
    rw [Work.within, hafter]
  have hstack : after.stack.dropLast = c.stack := by
    rw [haccounts.stack, Course.stack_push, List.dropLast_concat]
  have hgrown : c.moments ⊆ after.moments :=
    List.Subset.trans (List.subset_cons_self _ _) haccounts.grown
  refine ⟨after.pop, hwithin, hstack, List.Subset.trans hgrown (List.subset_cons_self _ _),
    fun h => ?_, ?_⟩
  · have hpushed : ∀ s ∈ (c.push ⟨name, (scope.enter name fragment).digest⟩).moments,
        Orderly setting s := by
      rw [Course.moments_push, ← Course.stack_push, hpush]
      exact List.forall_mem_cons.2 ⟨horderly, h⟩
    rw [Course.moments_pop, hstack]
    exact List.forall_mem_cons.2 ⟨h _ List.mem_cons_self, haccounts.orderly hpushed⟩
  · rcases haccounts.refused with hsame | ⟨s, refused, href, hs, hx, hrefused⟩
    · exact .inl hsame
    · exact .inr ⟨s, refused, href, List.mem_cons_of_mem _ hs, hx, hrefused⟩

/-- **An invocation gives the same** where the stack is the one that the scope lists, and
bodies do. -/
theorem agrees_enter {room : Nat} {scope : Scope}
    {inner : Scope → (body : Text) → Work Text} (horderly : Orderly setting scope.stack)
    (hroom : room + scope.stack.length = setting.config.maxPartialDepth)
    (hinner : ∀ inside, room = inside + 1 → ∀ entered body,
      Orderly setting entered.stack →
      inside + entered.stack.length = setting.config.maxPartialDepth →
      Agrees setting entered.stack (inner entered body) (innerRender setting room entered body))
    {p : Text × Text} (hp : p ∈ setting.registry) (fragment : Text) :
    Agrees setting scope.stack (Work.enter setting inner scope p.1 p.2 fragment)
      (invoke (innerRender setting room) scope p.1 p.2 fragment) := by
  intro c hc
  have hregistered : p.1 ∈ Bindings.names setting.registry := Bindings.mem_names hp
  by_cases hguard : ⟨p.1, (scope.enter p.1 fragment).digest⟩ ∈ scope.stack
  -- it is being rendered with the same bindings
  · have hinvoke : invoke (innerRender setting room) scope p.1 p.2 fragment =
        .error (scope.enter p.1 fragment).cycle := if_pos (List.contains_iff_mem.2 hguard)
    rw [hinvoke, Work.enter_of_refused (.inl (hc ▸ hguard))]
    exact agrees_refuse ⟨horderly, hregistered, .inl (List.mem_map_of_mem hguard)⟩ hc
  · have hinvoke : invoke (innerRender setting room) scope p.1 p.2 fragment =
        innerRender setting room (scope.enter p.1 fragment) p.2 :=
      if_neg fun h => hguard (List.contains_iff_mem.1 h)
    rw [hinvoke]
    cases room with
    -- the stack is full
    | zero =>
        rw [Nat.zero_add] at hroom
        rw [Work.enter_of_refused (.inr (hc ▸ Nat.le_of_eq hroom.symm))]
        exact agrees_refuse ⟨horderly, hregistered, .inr hroom⟩ hc
    -- it is let in
    | succ inside =>
        have hlength : (scope.enter p.1 fragment).stack.length = scope.stack.length + 1 := by
          simp [Scope.enter]
        have hentered : Orderly setting (scope.enter p.1 fragment).stack :=
          horderly.append hregistered hguard (by omega)
        have hadmitted : ¬ (⟨p.1, (scope.enter p.1 fragment).digest⟩ ∈ c.stack ∨
            setting.config.maxPartialDepth ≤ c.stack.length) := by
          rw [hc]
          rintro (h | h)
          · exact hguard h
          · omega
        rw [Work.enter_of_admitted hadmitted]
        exact agrees_within hentered (hinner inside rfl _ _ hentered (by omega)) hc

/-- **The renderer with a stack of its own gives what `renderText` gives.** -/
theorem agrees_renderText (setting : Setting) (room : Nat) {scope : Scope} (t : Text)
    (horderly : Orderly setting scope.stack)
    (hroom : room + scope.stack.length = setting.config.maxPartialDepth) :
    Agrees setting scope.stack (Work.renderText setting room scope t)
      (renderText setting room scope t) := by
  induction room generalizing scope t with
  | zero =>
      rw [renderText_eq]
      refine (follows_agrees setting scope.stack).renderPasses (fun p hp fragment => ?_) scope t
      exact agrees_enter horderly hroom (fun _ h => absurd h (Nat.succ_ne_zero _).symm) hp fragment
  | succ room ih =>
      rw [renderText_eq]
      refine (follows_agrees setting scope.stack).renderPasses (fun p hp fragment => ?_) scope t
      refine agrees_enter horderly hroom (fun inside hinside entered body he hr => ?_) hp fragment
      obtain rfl := Nat.succ.inj hinside
      exact ih body he hr

/-! ## Whole renders -/

theorem agrees_render (template : Text) (context : Context) (partials : Partial.Registry)
    (config : Config) :
    Agrees ⟨partials, config⟩ [] (Work.render template context partials config)
      (render template context partials config) := by
  have hroot : Orderly ⟨partials, config⟩ (Scope.root context).stack := orderly_nil _
  have htext := agrees_renderText ⟨partials, config⟩ config.maxPartialDepth template hroot rfl
  have hrender : render template context partials config =
      (renderText ⟨partials, config⟩ config.maxPartialDepth (Scope.root context) template >>=
        fun markup => .ok (Markup.unescape markup)) := rfl
  rw [hrender]
  exact (follows_agrees _ _).bind htext fun markup => (follows_agrees _ _).pure _

/-- **The stack of partials is bounded, honest and always put back.** Every invocation
leaves the stack as it found it, whatever comes of it. A renderer that keeps the stack
renders every template as `render` does; at no moment is its stack longer than the bound or
has a partial with the same bindings twice; and at the end it is empty. If it fails as a
cycle, then one partial was refused, at a moment when the names on the stack with its own at
their end are the chain; all of them are registered, and it is one of those before, or the
stack is full. -/
theorem stack_bounded_and_restored (template : Text) (context : Context)
    (partials : Partial.Registry) (config : Config) :
    (∀ room scope name body fragment c,
      (Work.enter ⟨partials, config⟩ (Work.renderText ⟨partials, config⟩ room) scope name body
        fragment c).2.stack = c.stack) ∧
    ∃ after, Work.render template context partials config Course.start =
        (render template context partials config, after) ∧
      after.stack = [] ∧
      (∀ stack ∈ after.moments, stack.length ≤ config.maxPartialDepth ∧ stack.Nodup) ∧
      ∀ chain, render template context partials config = .error (.cyclic chain) →
        ∃ stack name, after.refused = [(stack, name)] ∧ stack ∈ after.moments ∧
          chain = stack.map Entry.name ++ [name] ∧
          (∀ n ∈ chain, n ∈ Bindings.names partials) ∧
          chain.length ≤ config.maxPartialDepth + 1 ∧
          (name ∈ stack.map Entry.name ∨ chain.length = config.maxPartialDepth + 1) := by
  refine ⟨fun room scope name body fragment c =>
    keeps_enter (keeps_renderText _ room) scope name body fragment c, ?_⟩
  obtain ⟨after, hafter, haccounts⟩ :=
    agrees_render template context partials config Course.start rfl
  have hmoments : ∀ s ∈ after.moments, Orderly ⟨partials, config⟩ s := by
    refine haccounts.orderly fun s hs => ?_
    obtain rfl := List.mem_singleton.1 hs
    exact orderly_nil _
  refine ⟨after, hafter, haccounts.stack,
    fun s hs => ⟨(hmoments s hs).bounded, (hmoments s hs).distinct⟩, fun chain hchain => ?_⟩
  rcases haccounts.refused with ⟨hno, -⟩ | ⟨s, name, href, hs, hx, hrefused⟩
  · exact absurd ⟨chain, hchain⟩ hno
  · obtain rfl : chain = s.map Entry.name ++ [name] := by
      rw [hchain] at hx
      exact RenderError.cyclic.inj (Except.error.inj hx)
    exact ⟨s, name, hrefused, hs, rfl, href.registered_chain, href.length_chain_le,
      href.cause_chain⟩

end Stencil.Render
