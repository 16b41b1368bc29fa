import Stencil.Proofs.Render.Rest
import Stencil.Proofs.Render.Unguarded

/-!
# A greater bound

One number bounds two things: how deep partials nest, and how many rounds a pass has.
Where the nesting comes to the bound the render is a cycle, so a greater bound on the
nesting changes a result only if it was one (`renderText_below`). Where a pass comes to
its last round nothing fails: what is left to expand stays. So a greater bound keeps the
markup of a render if every text in it renders to markup at rest
(`renderText_of_rests`), and `render_cut_off` is a render that is cut off.
-/

namespace Stencil

/-- A configuration with another bound. -/
def Config.bounded (config : Config) (bound : Nat) : Config :=
  { config with maxPartialDepth := bound }

namespace Render

/-- A setting with another number of rounds. -/
def Setting.bounded (setting : Setting) (rounds : Nat) : Setting :=
  ⟨setting.registry, setting.config.bounded rounds⟩

variable {setting : Setting}

/-! ## Rounds -/

theorem expandRounds_bounded (bound : Nat) (invoke : Invoke) (origin : Origin) (rounds : Nat)
    (draft : Draft) :
    expandRounds (setting.bounded bound) invoke origin rounds draft =
      expandRounds setting invoke origin rounds draft := by
  apply expandRounds_congr
  · rfl
  · rfl

/-- Passes that end at rest end the same with more rounds. -/
theorem renderPasses_of_atRest {rounds more : Nat} (h : rounds ≤ more) {invoke : Invoke}
    {scope : Scope} {t m : Text}
    (hok : renderPasses (setting.bounded rounds) invoke scope t = .ok m)
    (hrest : AtRest setting m) :
    renderPasses (setting.bounded more) invoke scope t = .ok m := by
  obtain ⟨draft, final, hdraft, hfinal, hknown, rfl⟩ := renderPasses_eq_ok_iff.1 hok
  rw [expandRounds_bounded] at hfinal
  refine renderPasses_eq_ok_iff.2 ⟨draft, final, hdraft, ?_, hknown, rfl⟩
  rw [expandRounds_bounded]
  exact expandRounds_of_atRest h hfinal hrest

/-! ## Nesting -/

/-- **More room for nesting changes cycles only.** -/
theorem renderText_below (setting : Setting) {room space : Nat} (h : room ≤ space) (scope : Scope)
    (t : Text) : Below (renderText setting room scope t) (renderText setting space scope t) := by
  induction room generalizing space scope t with
  | zero =>
      rw [renderText_eq, renderText_eq]
      refine (interactive_renderPasses setting scope t).mono ?_
      exact invoke_related (fun _ => Or.inr rfl) (fun _ _ => Or.inl ⟨_, rfl⟩) scope
  | succ room ih =>
      obtain ⟨space, rfl⟩ := Nat.exists_eq_add_of_le' h
      rw [renderText_eq, renderText_eq]
      refine (interactive_renderPasses setting scope t).mono ?_
      exact invoke_related (fun _ => Or.inr rfl) (ih (Nat.le_add_left room space)) scope

/-! ## Both -/

/-- What a task demands has succeeded if the task has. -/
theorem Demands.ok {α : Type} {F : Invoke → Except RenderError α} {invoke : Invoke}
    {name body fragment : Text} (h : Demands F invoke name body fragment) {a : α}
    (hok : F invoke = .ok a) : ∃ v, invoke name body fragment = .ok v := by
  cases hv : invoke name body fragment with
  | ok v => exact ⟨v, rfl⟩
  | error e =>
      have same : invoke.failing name body fragment e = invoke := by
        funext n b t
        by_cases heq : n = name ∧ b = body ∧ t = fragment
        · obtain ⟨rfl, rfl, rfl⟩ := heq
          rw [Invoke.failing_self, hv]
        · exact Invoke.failing_of_ne heq e
      have herror := h e
      rw [same, hok] at herror
      exact absurd herror (by simp)

/-- The render of a text comes to the render of a body: the invocation is demanded, and
there is room. -/
inductive Opens (setting : Setting) : Activation → Activation → Prop where
  | intro {room : Nat} {scope : Scope} {t name body fragment : Text}
      (demands : Demands (fun invoke => renderPasses setting invoke scope t)
        (invoke (innerRender setting (room + 1)) scope) name body fragment) :
      Opens setting ⟨room + 1, scope, t⟩ ⟨room, scope.enter name fragment, body⟩

/-- Every text that a render comes to gives markup at rest: none of its passes is cut
off by its number of rounds with something left to expand. -/
def RestsThroughout (setting : Setting) (root : Activation) : Prop :=
  ∀ a, Relation.ReflTransGen (Opens setting) root a →
    ∀ m, renderText setting a.room a.scope a.text = .ok m → AtRest setting m

/-- **More rounds and more room keep the markup of a render that rests throughout.** -/
theorem renderText_of_rests {rounds more : Nat} (hrounds : rounds ≤ more) {room space : Nat}
    (hroom : room ≤ space) {scope : Scope} {t m : Text}
    (hrests : RestsThroughout (setting.bounded rounds) ⟨room, scope, t⟩)
    (hok : renderText (setting.bounded rounds) room scope t = .ok m) :
    renderText (setting.bounded more) space scope t = .ok m := by
  induction room generalizing space scope t m with
  | zero =>
      have hrest : AtRest setting m := hrests _ .refl m hok
      rw [renderText_eq] at hok ⊢
      refine renderPasses_of_atRest hrounds ?_ hrest
      -- nothing is demanded, for there is no room
      refine (((interactive_renderPasses _ scope t).alike fun name body fragment hd => ?_).eq_ok_iff
        m).2 hok
      obtain ⟨v, hv⟩ := hd.ok hok
      obtain ⟨-, inside, hroom, -⟩ := invoke_eq_ok hv
      exact absurd hroom (by omega)
  | succ room ih =>
      obtain ⟨space, rfl⟩ := Nat.exists_eq_add_of_le' hroom
      have hrest : AtRest setting m := hrests _ .refl m hok
      rw [renderText_eq] at hok ⊢
      refine renderPasses_of_atRest hrounds ?_ hrest
      -- what is demanded has succeeded, so it gives the same by induction
      refine (((interactive_renderPasses _ scope t).alike fun name body fragment hd => ?_).eq_ok_iff
        m).2 hok
      obtain ⟨v, hv⟩ := hd.ok hok
      obtain ⟨hguard, inside, hinside, hbody⟩ := invoke_eq_ok hv
      obtain rfl : room = inside := Nat.succ.inj hinside
      have hlater : RestsThroughout (setting.bounded rounds)
          ⟨room, scope.enter name fragment, body⟩ := by
        intro a ha
        exact hrests a (.head (.intro hd) ha)
      have hsame := ih (Nat.le_add_left room space) hlater hbody
      rw [hv]
      exact Or.inl (invoke_of_ok hguard hsame)

/-- **A greater bound keeps what a render gives**, if the render rests throughout; and
the bound on nesting, with the same number of rounds, is only ever exceeded as a cycle. -/
theorem render_of_le (template : Text) (context : Context) (partials : Partial.Registry)
    (config : Config) {bound more : Nat} (h : bound ≤ more) :
    (∀ x, render template context partials (config.bounded bound) = .ok x →
      RestsThroughout ⟨partials, config.bounded bound⟩ ⟨bound, Scope.root context, template⟩ →
      render template context partials (config.bounded more) = .ok x) ∧
    ∀ rounds, Below
      (renderText ⟨partials, config.bounded rounds⟩ bound (Scope.root context) template)
      (renderText ⟨partials, config.bounded rounds⟩ more (Scope.root context) template) := by
  refine ⟨fun x hok hrests => ?_, fun rounds => renderText_below _ h _ _⟩
  have same : ∀ n, (⟨partials, config.bounded n⟩ : Setting) =
      Setting.bounded ⟨partials, config⟩ n := fun _ => rfl
  change Markup.unescape <$> renderText ⟨partials, config.bounded bound⟩ bound
    (Scope.root context) template = .ok x at hok
  change Markup.unescape <$> renderText ⟨partials, config.bounded more⟩ more
    (Scope.root context) template = .ok x
  cases hm : renderText ⟨partials, config.bounded bound⟩ bound (Scope.root context) template with
  | error e =>
      rw [hm] at hok
      exact absurd hok (by simp)
  | ok m =>
      rw [hm] at hok
      rw [same] at hm hrests ⊢
      rw [renderText_of_rests h h hrests hm]
      exact hok

/-! ## A tag that is completed by an expansion -/

/-- A partial whose body completes the tag of another that is looked for before it. -/
def completing : Partial.Registry :=
  [("b".toList, "B".toList), ("a".toList, "_".toList)]

/-- With one round the tag stays; with two it is expanded. -/
theorem render_cut_off :
    render "<<_a/>b/>".toList [] completing (Config.bounded {} 1) = .ok "<_b/>".toList ∧
    render "<<_a/>b/>".toList [] completing (Config.bounded {} 2) = .ok "B".toList :=
  ⟨rfl, rfl⟩

/-- A body of the partials renders to itself, and invokes nothing. -/
theorem renderPasses_completing {body : Text} (h : body = "_".toList ∨ body = "B".toList)
    (bound : Nat) (invoke : Invoke) (scope : Scope) :
    renderPasses ⟨completing, Config.bounded {} (bound + 1)⟩ invoke scope body = .ok body := by
  rcases h with rfl | rfl
  · rfl
  · rfl

theorem body_of_demands_completing {invoke : Invoke} {scope : Scope}
    {t name body fragment : Text}
    (h : Demands (fun invoke => renderPasses ⟨completing, Config.bounded {} 2⟩ invoke scope t)
      invoke name body fragment) : body = "_".toList ∨ body = "B".toList := by
  have hmem : (name, body) ∈ completing := (interactive_renderPasses _ scope t).registered h
  simp only [completing, List.mem_cons, List.not_mem_nil, or_false, Prod.mk.injEq] at hmem
  rcases hmem with ⟨-, rfl⟩ | ⟨-, rfl⟩
  · exact Or.inr rfl
  · exact Or.inl rfl

theorem opens_completing {a : Activation}
    (h : Relation.ReflTransGen (Opens ⟨completing, Config.bounded {} 2⟩)
      ⟨2, Scope.root [], "<<_a/>b/>".toList⟩ a) :
    a = ⟨2, Scope.root [], "<<_a/>b/>".toList⟩ ∨ a.text = "_".toList ∨ a.text = "B".toList := by
  cases h with
  | refl => exact Or.inl rfl
  | tail _ step =>
      cases step with
      | intro demands => exact Or.inr (body_of_demands_completing demands)

theorem restsThroughout_completing :
    RestsThroughout ⟨completing, Config.bounded {} 2⟩
      ⟨2, Scope.root [], "<<_a/>b/>".toList⟩ := by
  intro a ha m hm
  rcases opens_completing ha with rfl | hbody
  · obtain rfl : "B".toList = m := Except.ok.inj hm
    unfold AtRest
    decide
  · rw [renderText_eq, renderPasses_completing hbody] at hm
    obtain rfl := Except.ok.inj hm
    rcases hbody with hbody | hbody
    · rw [hbody]
      unfold AtRest
      decide
    · rw [hbody]
      unfold AtRest
      decide

/-- With two rounds nothing is cut off, and with three the result is the same. -/
theorem render_of_le_completed :
    RestsThroughout ⟨completing, Config.bounded {} 2⟩
      ⟨2, Scope.root [], "<<_a/>b/>".toList⟩ ∧
    render "<<_a/>b/>".toList [] completing (Config.bounded {} 3) = .ok "B".toList :=
  ⟨restsThroughout_completing,
    (render_of_le "<<_a/>b/>".toList [] completing {} (Nat.le_succ 2)).1 _ rfl
      restsThroughout_completing⟩

end Render

end Stencil
