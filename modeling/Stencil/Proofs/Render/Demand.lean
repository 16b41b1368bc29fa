import Stencil.Proofs.Render.Passes

/-!
# What the passes ask for

The passes over a text are given what invocations give, and look at it nowhere but
at the invocations that they come to, one after another. `Interactive` is this
shape: a task settles, or invokes a registered partial and goes on with the
result. An invocation is *demanded* if its failure, whatever it is, is the failure
of the task.

A task cannot tell two ways to invoke from one another if they give the same where
an invocation is demanded (`Interactive.alike`). Results count as the same here if
both are cycles, whatever the chains.
-/

namespace Stencil.Render

open Partial (Registry)

variable {α β : Type}

/-! ## Cycles -/

/-- The failure of a cycle, with some chain. -/
def IsCycle (x : Except RenderError α) : Prop :=
  ∃ chain, x = .error (.cyclic chain)

/-- The same result or failure, up to the chains of cycles. -/
def Alike (x y : Except RenderError α) : Prop :=
  x = y ∨ IsCycle x ∧ IsCycle y

/-- The same unless the first is a cycle. -/
def Below (x y : Except RenderError α) : Prop :=
  IsCycle x ∨ x = y

theorem not_isCycle_ok (a : α) : ¬ IsCycle (.ok a : Except RenderError α) := by
  rintro ⟨chain, h⟩
  cases h

theorem IsCycle.bind {x : Except RenderError α} (h : IsCycle x) (f : α → Except RenderError β) :
    IsCycle (x >>= f) := by
  obtain ⟨chain, rfl⟩ := h
  exact ⟨chain, rfl⟩

theorem isCycle_map_iff {x : Except RenderError α} (f : α → β) :
    IsCycle (f <$> x) ↔ IsCycle x := by
  cases x with
  | ok a =>
      constructor
      · intro h
        exact absurd h (not_isCycle_ok (f a))
      · intro h
        exact absurd h (not_isCycle_ok a)
  | error e =>
      constructor
      · rintro ⟨chain, h⟩
        exact ⟨chain, congrArg Except.error (Except.error.inj h)⟩
      · rintro ⟨chain, h⟩
        exact ⟨chain, congrArg Except.error (Except.error.inj h)⟩

namespace Alike

variable {x y z : Except RenderError α}

theorem refl (x : Except RenderError α) : Alike x x := Or.inl rfl

theorem symm (h : Alike x y) : Alike y x := by
  rcases h with rfl | ⟨hx, hy⟩
  · exact refl x
  · exact Or.inr ⟨hy, hx⟩

theorem isCycle (h : Alike x y) (hx : IsCycle x) : IsCycle y := by
  rcases h with rfl | ⟨-, hy⟩
  · exact hx
  · exact hy

theorem eq_ok_iff (h : Alike x y) (a : α) : x = .ok a ↔ y = .ok a := by
  rcases h with rfl | ⟨⟨c, rfl⟩, ⟨d, rfl⟩⟩
  · exact Iff.rfl
  · simp

theorem eq_error_iff (h : Alike x y) {e : RenderError} (he : ∀ chain, e ≠ .cyclic chain) :
    x = .error e ↔ y = .error e := by
  rcases h with rfl | ⟨⟨c, rfl⟩, ⟨d, rfl⟩⟩
  · exact Iff.rfl
  · constructor
    · intro h
      exact absurd (Except.error.inj h).symm (he c)
    · intro h
      exact absurd (Except.error.inj h).symm (he d)

theorem map (h : Alike x y) (f : α → β) : Alike (f <$> x) (f <$> y) := by
  rcases h with rfl | ⟨hx, hy⟩
  · exact refl _
  · exact Or.inr ⟨(isCycle_map_iff f).2 hx, (isCycle_map_iff f).2 hy⟩

end Alike

theorem below_iff_unless {x y : Except RenderError α} :
    Below x y ↔ Unless (fun e => ∃ chain, e = .cyclic chain) x y := by
  refine or_congr_left ⟨?_, ?_⟩
  · rintro ⟨chain, h⟩
    exact ⟨_, h, chain, rfl⟩
  · rintro ⟨_, h, chain, rfl⟩
    exact ⟨chain, h⟩

/-! ## Tasks that invoke partials -/

/-- A task that looks at what invocations give only by invoking partials of a list. -/
inductive Interactive (partials : List (Text × Text)) {α : Type} :
    (Invoke → Except RenderError α) → Prop where
  | settled (x : Except RenderError α) : Interactive partials fun _ => x
  | invoked {p : Text × Text} (hp : p ∈ partials) (fragment : Text)
      {next : Text → Invoke → Except RenderError α} (hnext : ∀ v, Interactive partials (next v)) :
      Interactive partials fun invoke => invoke p.1 p.2 fragment >>= fun v => next v invoke

namespace Interactive

variable {partials : List (Text × Text)}

theorem bind {F : Invoke → Except RenderError α} {G : α → Invoke → Except RenderError β}
    (hF : Interactive partials F) (hG : ∀ a, Interactive partials (G a)) :
    Interactive partials fun invoke => F invoke >>= fun a => G a invoke := by
  induction hF with
  | settled x =>
      cases x with
      | ok a => exact hG a
      | error e => exact .settled (.error e)
  | @invoked p hp fragment next _ ih =>
      have assoc : (fun invoke : Invoke =>
          (invoke p.1 p.2 fragment >>= fun v => next v invoke) >>= fun a => G a invoke) =
          fun invoke => invoke p.1 p.2 fragment >>= fun v =>
            next v invoke >>= fun a => G a invoke := by
        funext invoke
        rw [bind_assoc]
      rw [assoc]
      exact .invoked hp fragment ih

theorem mapM {F : α → Invoke → Except RenderError β} (as : List α)
    (h : ∀ a ∈ as, Interactive partials (F a)) :
    Interactive partials fun invoke => as.mapM fun a => F a invoke := by
  induction as with
  | nil => exact .settled (.ok [])
  | cons a as ih =>
      simp only [List.mapM_cons]
      refine (h a List.mem_cons_self).bind fun b => ?_
      have hrest := ih fun a' ha' => h a' (List.mem_cons_of_mem a ha')
      exact hrest.bind fun bs => .settled (.ok (b :: bs))

theorem foldlM {F : β → α → Invoke → Except RenderError β} (as : List α)
    (h : ∀ b, ∀ a ∈ as, Interactive partials (F b a)) (b : β) :
    Interactive partials fun invoke => as.foldlM (fun b a => F b a invoke) b := by
  induction as generalizing b with
  | nil => exact .settled (.ok b)
  | cons a as ih =>
      simp only [List.foldlM_cons]
      refine (h b a List.mem_cons_self).bind fun b' => ?_
      exact ih (fun c a' ha' => h c a' (List.mem_cons_of_mem a ha')) b'

end Interactive

/-! ## The passes are such tasks -/

section Passes

variable (setting : Setting) (origin : Origin)

theorem interactive_expand? {p : Text × Text} (hp : p ∈ setting.registry) (draft : Draft) :
    Interactive setting.registry fun invoke =>
      expand? setting invoke origin p.1 p.2 draft := by
  simp only [expand?_eq]
  refine (Interactive.settled _).bind fun _ => ?_
  split
  · exact .settled (.ok none)
  · refine Interactive.bind (Interactive.mapM _ fun r _ => ?_) fun outputs => .settled _
    have invoked := Interactive.invoked hp r.text fun v => Interactive.settled (pure v)
    simpa only [bind_pure] using invoked

theorem interactive_expandRound (draft : Draft) :
    Interactive setting.registry fun invoke => expandRound setting invoke origin draft := by
  refine Interactive.foldlM _ (fun state p hp => ?_) _
  refine (interactive_expand? setting origin hp state.1).bind fun result => ?_
  cases result with
  | none => exact .settled (.ok state)
  | some draft => exact .settled (.ok (draft, true))

theorem interactive_expandRounds (rounds : Nat) (draft : Draft) :
    Interactive setting.registry fun invoke =>
      expandRounds setting invoke origin rounds draft := by
  induction rounds generalizing draft with
  | zero => exact .settled (.ok draft)
  | succ rounds ih =>
      refine (interactive_expandRound setting origin draft).bind fun state => ?_
      obtain ⟨draft', found⟩ := state
      cases found with
      | true => exact ih draft'
      | false => exact .settled (.ok draft')

/-- **The passes look at what invocations give only by invoking.** -/
theorem interactive_renderPasses (scope : Scope) (t : Text) :
    Interactive setting.registry fun invoke => renderPasses setting invoke scope t := by
  refine (Interactive.settled _).bind fun draft => ?_
  refine (interactive_expandRounds setting scope.origin _ draft).bind fun expanded => ?_
  exact .settled _

end Passes

/-! ## Demands -/

/-- Invokes as before, except that one invocation fails. -/
def Invoke.failing (invoke : Invoke) (name body fragment : Text) (e : RenderError) : Invoke :=
  fun n b t => if n = name ∧ b = body ∧ t = fragment then .error e else invoke n b t

theorem Invoke.failing_self (invoke : Invoke) (name body fragment : Text) (e : RenderError) :
    invoke.failing name body fragment e name body fragment = .error e :=
  if_pos ⟨rfl, rfl, rfl⟩

theorem Invoke.failing_of_ne {invoke : Invoke} {name body fragment n b t : Text}
    (h : ¬ (n = name ∧ b = body ∧ t = fragment)) (e : RenderError) :
    invoke.failing name body fragment e n b t = invoke n b t :=
  if_neg h

/-- A task needs an invocation: should it fail, the task fails the same. -/
def Demands (F : Invoke → Except RenderError α) (invoke : Invoke)
    (name body fragment : Text) : Prop :=
  ∀ e, F (invoke.failing name body fragment e) = .error e

section First

variable {p : Text × Text} {fragment : Text} {next : Text → Invoke → Except RenderError α}
  {invoke : Invoke} {name body asked : Text}

/-- The first invocation of a task is demanded. -/
theorem demands_first (p : Text × Text) (fragment : Text)
    (next : Text → Invoke → Except RenderError α) (invoke : Invoke) :
    Demands (fun invoke => invoke p.1 p.2 fragment >>= fun v => next v invoke) invoke
      p.1 p.2 fragment := by
  intro e
  change (invoke.failing p.1 p.2 fragment e p.1 p.2 fragment >>= fun v => _) = _
  rw [Invoke.failing_self, Except.bind_error]

/-- So is what the rest of the task demands. -/
theorem demands_next {v : Text} (hv : invoke p.1 p.2 fragment = .ok v)
    (h : Demands (next v) invoke name body asked) :
    Demands (fun invoke => invoke p.1 p.2 fragment >>= fun v => next v invoke) invoke
      name body asked := by
  intro e
  change (invoke.failing name body asked e p.1 p.2 fragment >>= fun v => _) = _
  by_cases heq : p.1 = name ∧ p.2 = body ∧ fragment = asked
  · obtain ⟨rfl, rfl, rfl⟩ := heq
    rw [Invoke.failing_self, Except.bind_error]
  · rw [Invoke.failing_of_ne heq, hv, Except.bind_ok]
    exact h e

theorem not_demands_settled (x : Except RenderError α) :
    ¬ Demands (fun _ => x) invoke name body asked := by
  intro h
  -- it would fail in two different ways
  have h₁ : x = .error (.cyclic []) := h _
  have h₂ : x = .error (.cyclic [[]]) := h _
  rw [h₁] at h₂
  cases h₂

/-- A task demands its first invocation, and what the rest demands. -/
theorem demands_cases
    (h : Demands (fun invoke => invoke p.1 p.2 fragment >>= fun v => next v invoke) invoke
      name body asked) :
    (p.1 = name ∧ p.2 = body ∧ fragment = asked) ∨
      ∃ v, invoke p.1 p.2 fragment = .ok v ∧ Demands (next v) invoke name body asked := by
  by_cases heq : p.1 = name ∧ p.2 = body ∧ fragment = asked
  · exact Or.inl heq
  · have hrest : ∀ e, (invoke p.1 p.2 fragment >>= fun v =>
        next v (invoke.failing name body asked e)) = .error e := by
      intro e
      have unchanged : invoke.failing name body asked e p.1 p.2 fragment =
          invoke p.1 p.2 fragment := Invoke.failing_of_ne heq e
      rw [← unchanged]
      exact h e
    refine Or.inr ?_
    cases hv : invoke p.1 p.2 fragment with
    | ok v =>
        -- the failing invocation comes later
        refine ⟨v, rfl, fun e => ?_⟩
        have he := hrest e
        rwa [hv] at he
    | error e =>
        -- the task fails before it comes to the failing invocation
        rw [hv] at hrest
        have settled : Demands (fun _ => (.error e : Except RenderError α)) invoke
            name body asked := hrest
        exact absurd settled (not_demands_settled (.error e))

end First

namespace Interactive

variable {partials : List (Text × Text)} {F : Invoke → Except RenderError α}
  {invoke invoke' : Invoke} {name body fragment : Text}

/-- Only registered partials are demanded. -/
theorem registered (hF : Interactive partials F) (h : Demands F invoke name body fragment) :
    (name, body) ∈ partials := by
  induction hF with
  | settled x => exact absurd h (not_demands_settled x)
  | @invoked p hp _ _ _ ih =>
      rcases demands_cases h with ⟨rfl, rfl, -⟩ | ⟨v, -, hnext⟩
      · exact hp
      · exact ih v hnext

/-- **Only what is demanded counts.** -/
theorem alike (hF : Interactive partials F)
    (h : ∀ name body fragment, Demands F invoke' name body fragment →
      Alike (invoke name body fragment) (invoke' name body fragment)) :
    Alike (F invoke) (F invoke') := by
  induction hF with
  | settled x => exact Alike.refl x
  | @invoked p _ fragment next _ ih =>
      rcases h p.1 p.2 fragment (demands_first p fragment next invoke') with heq | ⟨hx, hy⟩
      -- the same result: the rest of the task demands the same
      · change Alike (invoke p.1 p.2 fragment >>= _) (invoke' p.1 p.2 fragment >>= _)
        cases hv : invoke' p.1 p.2 fragment with
        | ok v =>
            rw [heq, hv]
            exact ih v fun name body asked hd => h name body asked (demands_next hv hd)
        | error e =>
            rw [heq, hv]
            exact Alike.refl _
      -- two cycles: nothing else is demanded
      · exact Or.inr ⟨hx.bind _, hy.bind _⟩

/-- Invocations that go in step are tasks that go in step. -/
theorem inStep {E : RenderError → Prop} (hF : Interactive partials F)
    (h : ∀ name body fragment,
      Unless E (invoke name body fragment) (invoke' name body fragment)) :
    Unless E (F invoke) (F invoke') := by
  induction hF with
  | settled x => exact .refl x
  | @invoked p _ fragment _ _ ih => exact (h p.1 p.2 fragment).bind ih

/-- More cycles below are more cycles above, and nothing else. -/
theorem mono (hF : Interactive partials F)
    (h : ∀ name body fragment, Below (invoke name body fragment) (invoke' name body fragment)) :
    Below (F invoke) (F invoke') := by
  simp only [below_iff_unless] at h ⊢
  exact hF.inStep h

/-- Of a task that is no cycle, nothing that is demanded is a cycle. -/
theorem not_isCycle_of_demands (hF : Interactive partials F)
    (h : ∀ name body fragment, Below (invoke name body fragment) (invoke' name body fragment))
    (hno : ¬ IsCycle (F invoke)) (hd : Demands F invoke' name body fragment) :
    ¬ IsCycle (invoke name body fragment) := by
  induction hF with
  | settled x => exact absurd hd (not_demands_settled x)
  | @invoked p _ asked next _ ih =>
      have hfirst : ¬ IsCycle (invoke p.1 p.2 asked) := fun hc => hno (hc.bind _)
      rcases demands_cases hd with ⟨rfl, rfl, rfl⟩ | ⟨v, hv, hnext⟩
      · exact hfirst
      · have hsame : invoke p.1 p.2 asked = .ok v := by
          rcases h p.1 p.2 asked with hc | heq
          · exact absurd hc hfirst
          · rw [heq, hv]
        have hrest : ¬ IsCycle (next v invoke) := by
          intro hc
          apply hno
          change IsCycle (invoke p.1 p.2 asked >>= _)
          rwa [hsame]
        exact ih v hrest hnext

end Interactive

end Stencil.Render
