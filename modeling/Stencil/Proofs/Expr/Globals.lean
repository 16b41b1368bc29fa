import Stencil.Expr.Globals
import Stencil.Proofs.Bindings

/-!
# What a global name stands for

The values of a context go before the helpers, so a global name stands for the
value that the context binds to it, or else for a helper. The order of the context
has no part in it.
-/

namespace Stencil.Expr.Globals

theorem names_ofContext (c : Context) :
    Bindings.names (ofContext c) = Bindings.names c := by
  simp [ofContext, Bindings.names]

theorem distinct_ofContext {c : Context} (h : Bindings.Distinct c) :
    Bindings.Distinct (ofContext c) := by
  rw [Bindings.Distinct, names_ofContext]
  exact h

theorem get?_ofContext (c : Context) (name : Text) :
    Bindings.get? (ofContext c) name =
      (Bindings.get? c name).map (Value.ofJson (.bound name)) := by
  induction c with
  | nil => rfl
  | cons b c ih =>
      obtain ⟨k, v⟩ := b
      have step : ofContext ((k, v) :: c) = (k, Value.ofJson (.bound k) v) :: ofContext c := rfl
      rw [step, Bindings.get?_cons, Bindings.get?_cons, ih]
      by_cases hk : k = name
      · subst hk
        rw [if_pos rfl, if_pos rfl]
        rfl
      · rw [if_neg hk, if_neg hk]

theorem get?_within {c : Context} (h : Bindings.Distinct c) (name : Text) :
    Bindings.get? (within c) name =
      ((Bindings.get? c name).map (Value.ofJson (.bound name))).or
        (Bindings.get? builtin name) := by
  rw [within, Bindings.get?_overlay (distinct_ofContext h), get?_ofContext]

end Stencil.Expr.Globals
