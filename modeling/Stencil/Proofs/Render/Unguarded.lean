import Stencil.Proofs.Expr.Lookup
import Stencil.Proofs.Partial.Invocation
import Stencil.Proofs.Render.Demand
import Mathlib.Logic.Relation

/-!
# Rendering without the guard against re-entry

The reference for the guard is the same renderer without it: a partial may be
entered again with the same bindings, and only the room for nesting ends that.

Less room gives more cycles and nothing else (`nested_mono`), and a render depends
on its context only by look-up (`nested_alike`). From the two it follows that a
render that comes to itself again is a cycle with any room up to what it has
(`Reaches.isCycle_of_loop`): with less room it would still come to itself, with
less room again.
-/

namespace Stencil.Render

/-- What an invocation gives if partials may be entered again. -/
def reenter (inner : Inner) (scope : Scope) : Invoke := fun name body fragment =>
  inner (scope.enter name fragment) body

/-- Renders a text with its escapes left in it, with room for so many partials
one inside another, which may be the same with the same bindings. -/
def renderTextUnguarded (setting : Setting) :
    (room : Nat) → Scope → Text → Except RenderError Text
  | 0, scope, t =>
      renderPasses setting (reenter (fun entered _ => .error entered.cycle) scope) scope t
  | room + 1, scope, t =>
      renderPasses setting
        (reenter (fun entered body => renderTextUnguarded setting room entered body) scope) scope t

/-- Renders a template without the guard against re-entry. -/
def renderUnguarded (template : Text) (context : Context) (partials : Partial.Registry)
    (config : Config) : Except RenderError Text :=
  Markup.unescape <$>
    renderTextUnguarded ⟨partials, config⟩ config.maxPartialDepth (Scope.root context) template

/-- How a body is rendered where there is room for so many partials. -/
def nested (setting : Setting) : (room : Nat) → Inner
  | 0 => fun entered _ => .error entered.cycle
  | room + 1 => renderTextUnguarded setting room

theorem renderTextUnguarded_eq (setting : Setting) (room : Nat) (scope : Scope) (t : Text) :
    renderTextUnguarded setting room scope t =
      renderPasses setting (reenter (nested setting room) scope) scope t := by
  cases room with
  | zero => rfl
  | succ room => rfl

theorem isCycle_nested_zero (setting : Setting) (scope : Scope) (t : Text) :
    IsCycle (nested setting 0 scope t) :=
  ⟨_, rfl⟩

/-! ## Less room -/

/-- **Less room gives more cycles**, and nothing else. -/
theorem nested_mono (setting : Setting) {room more : Nat} (h : room ≤ more) (scope : Scope)
    (t : Text) : Below (nested setting room scope t) (nested setting more scope t) := by
  induction room generalizing more scope t with
  | zero => exact Or.inl (isCycle_nested_zero setting scope t)
  | succ room ih =>
      obtain ⟨more, rfl⟩ := Nat.exists_eq_add_of_le' h
      change Below (renderTextUnguarded setting room scope t)
        (renderTextUnguarded setting (more + room) scope t)
      rw [renderTextUnguarded_eq, renderTextUnguarded_eq]
      refine (interactive_renderPasses setting scope t).mono fun name body fragment => ?_
      exact ih (Nat.le_add_left room more) (scope.enter name fragment) body

/-! ## Scopes that look the same -/

/-- Scopes in which every expression has the same value, and fails the same. -/
structure Scope.Like (s s' : Scope) : Prop where
  origin : s.origin = s'.origin
  distinct : Bindings.Distinct s.context
  distinct' : Bindings.Distinct s'.context
  same : ∀ name, Bindings.get? s.context name = Bindings.get? s'.context name

namespace Scope.Like

variable {s s' : Scope}

theorem enter (h : s.Like s') (name fragment : Text) :
    (s.enter name fragment).Like (s'.enter name fragment) where
  origin := rfl
  distinct := Bindings.distinct_overlay h.distinct _
  distinct' := Bindings.distinct_overlay h.distinct' _
  same := by
    intro k
    change Bindings.get? (Bindings.overlay s.context _) k =
      Bindings.get? (Bindings.overlay s'.context _) k
    have hinner := Partial.distinct_invocationBindings fragment
    rw [Bindings.get?_overlay hinner, Bindings.get?_overlay hinner, h.same]

theorem renderPasses_eq (h : s.Like s') (setting : Setting) (invoke : Invoke) (t : Text) :
    renderPasses setting invoke s t = renderPasses setting invoke s' t := by
  have region : regionText setting (Expr.Globals.within s.context) s.origin =
      regionText setting (Expr.Globals.within s'.context) s'.origin := by
    funext r
    rw [regionText, regionText, h.origin,
      Expr.evaluateText_within h.distinct h.distinct' h.same]
  rw [renderPasses, renderPasses, expressionPass_eq, expressionPass_eq, region, h.origin]

end Scope.Like

/-- **A render depends on its context only by look-up.** The chains of cycles are
those of the stack. -/
theorem nested_alike (setting : Setting) (room : Nat) {s s' : Scope} (h : s.Like s') (t : Text) :
    Alike (nested setting room s t) (nested setting room s' t) := by
  induction room generalizing s s' t with
  | zero => exact Or.inr ⟨isCycle_nested_zero setting s t, isCycle_nested_zero setting s' t⟩
  | succ room ih =>
      change Alike (renderTextUnguarded setting room s t) (renderTextUnguarded setting room s' t)
      rw [renderTextUnguarded_eq, renderTextUnguarded_eq, h.renderPasses_eq]
      refine (interactive_renderPasses setting s' t).alike fun name body fragment _ => ?_
      exact ih (h.enter name fragment) body

/-! ## Renders inside renders -/

/-- A text that is being rendered, and the room inside. -/
structure Activation where
  room : Nat
  scope : Scope
  text : Text

/-- The render of a text without the guard comes to the render of a body: the
invocation is demanded, and there is room. -/
inductive Enters (setting : Setting) : Activation → Activation → Prop where
  | intro {room : Nat} {scope : Scope} {t name body fragment : Text}
      (demands : Demands (fun invoke => renderPasses setting invoke scope t)
        (reenter (renderTextUnguarded setting room) scope) name body fragment) :
      Enters setting ⟨room + 1, scope, t⟩ ⟨room, scope.enter name fragment, body⟩

/-- One render comes to another in any number of steps. -/
abbrev Reaches (setting : Setting) : Activation → Activation → Prop :=
  Relation.ReflTransGen (Enters setting)

namespace Reaches

variable {setting : Setting} {a b : Activation}

theorem room_le (h : Reaches setting a b) : b.room ≤ a.room := by
  induction h with
  | refl => exact Nat.le_refl _
  | tail _ step ih =>
      cases step with
      | intro _ => exact Nat.le_of_succ_le ih

/-- A render that is no cycle with some room is none further inside, with what is
left of the room there. -/
theorem not_isCycle (h : Reaches setting a b) {room : Nat} (hroom : room ≤ a.room)
    (hno : ¬ IsCycle (renderTextUnguarded setting room a.scope a.text)) :
    ∃ left, left + a.room = room + b.room ∧
      ¬ IsCycle (renderTextUnguarded setting left b.scope b.text) := by
  induction h using Relation.ReflTransGen.head_induction_on generalizing room with
  | refl => exact ⟨room, rfl, hno⟩
  | head step _ ih =>
      cases step with
      | @intro inside scope t name body fragment demands =>
          rw [renderTextUnguarded_eq] at hno
          -- less room inside gives more cycles, so what is demanded is none with less room
          have hbelow : ∀ name body fragment,
              Below (reenter (nested setting room) scope name body fragment)
                (reenter (renderTextUnguarded setting inside) scope name body fragment) :=
            fun name body fragment =>
              nested_mono setting hroom (scope.enter name fragment) body
          have hinner := (interactive_renderPasses setting scope t).not_isCycle_of_demands
            hbelow hno demands
          cases room with
          | zero => exact absurd (isCycle_nested_zero setting _ _) hinner
          | succ room =>
              obtain ⟨left, hleft, hb⟩ := ih (Nat.le_of_succ_le_succ hroom) hinner
              refine ⟨left, ?_, hb⟩
              dsimp only at hleft ⊢
              omega

/-- **A render that comes to itself again is a cycle.** With the room for one more
time round it would be none only if it were none with less. -/
theorem isCycle_of_loop (h : Reaches setting a b) (hroom : b.room < a.room)
    (htext : a.text = b.text) (hlike : a.scope.Like b.scope) {room : Nat} (hle : room ≤ a.room) :
    IsCycle (renderTextUnguarded setting room a.scope a.text) := by
  induction room using Nat.strongRecOn with
  | ind room ih =>
      by_contra hno
      -- one time round takes room, and what is left is a cycle by induction
      obtain ⟨left, hleft, hb⟩ := h.not_isCycle hle hno
      apply hb
      have ha := ih left (by omega) (by omega)
      rw [htext] at ha
      exact (nested_alike setting (left + 1) hlike b.text).isCycle ha

end Reaches

end Stencil.Render
