import Stencil.Proofs.Context.Digest
import Stencil.Proofs.Render.Unguarded

/-!
# The order of a context

A context lists its names in some order, and a render never asks for it: expressions look
names up, an invocation binds names, and a digest is a sum. So two contexts with the same
bindings in different orders give scopes that are twins, an invocation takes twins to
twins (`Scope.Twin.enter`), and the guard against re-entry stops both renders at the same
place with the same chain. Twins render the same (`renderText_twin`), results and failures
alike (`render_perm`).
-/

namespace Stencil.Render

/-- Scopes that differ in nothing but the order of what their contexts bind. -/
structure Scope.Twin (s s' : Scope) : Prop extends Scope.Like s s' where
  digest : s.digest = s'.digest
  stack : s.stack = s'.stack

namespace Scope.Twin

theorem root {c d : Context} (hc : Bindings.Distinct c) (h : c.Perm d) :
    (Scope.root c).Twin (Scope.root d) where
  origin := rfl
  distinct := hc
  distinct' := hc.perm h
  same := (Bindings.perm_iff hc (hc.perm h)).1 h
  digest := Context.digest_perm h
  stack := rfl

variable {s s' : Scope}

/-- The digest inside follows from the digest outside and from old values, so that twins
have one digest all the way. -/
theorem enter_digest (h : s.Twin s') (name fragment : Text) :
    (s.enter name fragment).digest = (s'.enter name fragment).digest := by
  change s.context.overlaidDigest s.digest _ = s'.context.overlaidDigest s'.digest _
  rw [h.digest, Context.overlaidDigest_congr h.same]

theorem enter (h : s.Twin s') (name fragment : Text) :
    (s.enter name fragment).Twin (s'.enter name fragment) where
  toLike := h.toLike.enter name fragment
  digest := h.enter_digest name fragment
  stack := by
    change s.stack ++ [⟨name, (s.enter name fragment).digest⟩] =
      s'.stack ++ [⟨name, (s'.enter name fragment).digest⟩]
    rw [h.stack, h.enter_digest]

theorem cycle_eq (h : s.Twin s') : s.cycle = s'.cycle := by
  rw [Scope.cycle, Scope.cycle, h.stack]

/-- The guard finds a re-entry in both scopes or in neither. -/
theorem invoke_eq (h : s.Twin s') {inner : Inner}
    (step : ∀ {e e' : Scope}, e.Twin e' → ∀ body, inner e body = inner e' body) :
    invoke inner s = invoke inner s' := by
  funext name body fragment
  have hentered := h.enter name fragment
  rw [invoke, invoke, h.stack, hentered.digest, hentered.cycle_eq, step hentered body]

end Scope.Twin

/-- **Twins render the same**, whatever the room: by induction on it, every invocation gives
the same in both scopes. -/
theorem renderText_twin (setting : Setting) (room : Nat) {s s' : Scope} (h : s.Twin s')
    (t : Text) : renderText setting room s t = renderText setting room s' t := by
  induction room generalizing s s' t with
  | zero =>
      have hinvoke : invoke (fun entered _ => .error entered.cycle) s =
          invoke (fun entered _ => .error entered.cycle) s' :=
        h.invoke_eq fun hentered _ => congrArg Except.error hentered.cycle_eq
      rw [renderText, renderText, hinvoke, h.renderPasses_eq]
  | succ room ih =>
      have hinvoke : invoke (fun entered body => renderText setting room entered body) s =
          invoke (fun entered body => renderText setting room entered body) s' :=
        h.invoke_eq fun hentered body => ih hentered body
      rw [renderText, renderText, hinvoke, h.renderPasses_eq]

/-- **A render depends on its context as a set of bindings**: in whatever order the context
lists them, the text or the failure is the same, with its message, range, origin and
chain. -/
theorem render_perm (template : Text) {c d : Context} (hc : Bindings.Distinct c)
    (h : c.Perm d) (partials : Partial.Registry) (config : Config) :
    render template c partials config = render template d partials config := by
  rw [render, render, renderText_twin _ _ (Scope.Twin.root hc h)]

/-- For instance with a partial that invokes itself. -/
theorem render_perm_swap :
    Bindings.Distinct ([("x".toList, .null), ("y".toList, .bool true)] : Context) ∧
    List.Perm ([("x".toList, .null), ("y".toList, .bool true)] : Context)
      [("y".toList, .bool true), ("x".toList, .null)] ∧
    render "<_p y=\"1\"/>".toList [("x".toList, .null), ("y".toList, .bool true)]
        [("p".toList, "<_p x='{y}'/>".toList)] {} =
      render "<_p y=\"1\"/>".toList [("y".toList, .bool true), ("x".toList, .null)]
        [("p".toList, "<_p x='{y}'/>".toList)] {} := by
  have hdistinct : Bindings.Distinct
      ([("x".toList, .null), ("y".toList, .bool true)] : Context) := by decide
  exact ⟨hdistinct, .swap _ _ _, render_perm _ hdistinct (.swap _ _ _) _ _⟩

end Stencil.Render
