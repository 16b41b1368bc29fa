import Stencil.Proofs.Render.Bound
import Stencil.Proofs.Render.Cycle

/-!
# What a scope binds

A scope inside invocations has the context outside, overlaid by what each invocation
binds, and a digest that was changed along with it. The digest is never taken anew, and
stays that of the context however many overlays there are and whatever they bind again;
in the context the innermost binding of a name wins, and names keep the order in which
they came up (`overlays_exact`).
-/

namespace Stencil.Render

open Partial (contents contentsName invocationBindings)
open Context (digestBy overlaidDigestBy)

/-- Lays bindings over a context whose digest by a hash is known. -/
def overlayStep (hash : Text → Json → UInt64) (s : Context × UInt64) (inner : Context) :
    Context × UInt64 :=
  (Bindings.overlay s.1 inner, s.1.overlaidDigestBy hash s.2 inner)

/-- The digest is kept along overlays. -/
theorem foldl_overlayStep (hash : Text → Json → UInt64) {overlays : List Context}
    (h : ∀ o ∈ overlays, Bindings.Distinct o) (c : Context) :
    overlays.foldl (overlayStep hash) (c, c.digestBy hash) =
      (overlays.foldl Bindings.overlay c,
        Context.digestBy hash (overlays.foldl Bindings.overlay c)) := by
  induction overlays generalizing c with
  | nil => rfl
  | cons o overlays ih =>
      rw [List.forall_mem_cons] at h
      have hstep : overlayStep hash (c, c.digestBy hash) o =
          (Bindings.overlay c o, Context.digestBy hash (Bindings.overlay c o)) := by
        rw [overlayStep, Context.digestBy_overlay hash h.1]
      rw [List.foldl_cons, List.foldl_cons, hstep, ih h.2]

/-- A body sees the contents of its invocation over the attributes over what is outside. -/
theorem get?_enter (scope : Scope) (name fragment key : Text) :
    Bindings.get? (scope.enter name fragment).context key =
      if key = contentsName then some (.string (Markup.unescape (contents fragment)))
      else (Bindings.get? (Markup.attributeBindings fragment) key).or
        (Bindings.get? scope.context key) := by
  change Bindings.get? (Bindings.overlay scope.context (invocationBindings fragment)) key = _
  rw [Bindings.get?_overlay (Partial.distinct_invocationBindings fragment), invocationBindings,
    Bindings.get?_insert]
  by_cases h : key = contentsName
  · rw [if_pos h.symm, if_pos h, Option.some_or]
  · rw [if_neg (Ne.symm h), if_neg h]

theorem Opens.faithful {setting : Setting} {a b : Activation} (h : Opens setting a b)
    (ha : a.scope.Faithful) : b.scope.Faithful := by
  cases h with
  | intro _ => exact ha.enter _ _

/-- **Digests stay exact and the inner bindings win**, along any number of overlays and by
any hash of the entries. So it is wherever a render comes to, and where it only asks to be
let in: the digest is that of the context, in which contents win over attributes, and
attributes over what is bound outside. -/
theorem overlays_exact {c : Context} (hc : Bindings.Distinct c) {overlays : List Context}
    (hoverlays : ∀ o ∈ overlays, Bindings.Distinct o) :
    (∀ hash, overlays.foldl (overlayStep hash) (c, c.digestBy hash) =
      (overlays.foldl Bindings.overlay c,
        Context.digestBy hash (overlays.foldl Bindings.overlay c))) ∧
    (digestBy Context.entryDigest = Context.digest ∧
      overlaidDigestBy Context.entryDigest = Context.overlaidDigest) ∧
    (∀ name, Bindings.get? (overlays.foldl Bindings.overlay c) name =
      (overlays.reverse.findSome? fun o => Bindings.get? o name).or (Bindings.get? c name)) ∧
    Bindings.names (overlays.foldl Bindings.overlay c) =
      Bindings.names c ++
        ((Bindings.names overlays.flatten).removeAll (Bindings.names c)).eraseDups ∧
    ∀ template partials config a, Relation.ReflTransGen (Opens ⟨partials, config⟩)
        ⟨config.maxPartialDepth, Scope.root c, template⟩ a →
      a.scope.digest = a.scope.context.digest ∧
      ∀ name fragment,
        (a.scope.enter name fragment).digest = (a.scope.enter name fragment).context.digest ∧
        ∀ key, Bindings.get? (a.scope.enter name fragment).context key =
          if key = contentsName then some (.string (Markup.unescape (contents fragment)))
          else (Bindings.get? (Markup.attributeBindings fragment) key).or
            (Bindings.get? a.scope.context key) := by
  refine ⟨fun hash => foldl_overlayStep hash hoverlays c,
    ⟨Context.digestBy_entryDigest, Context.overlaidDigestBy_entryDigest⟩,
    Bindings.get?_overlays hoverlays c, ?_, fun template partials config a ha => ?_⟩
  · rw [Bindings.overlays_eq_overlay_flatten, Bindings.names_overlay]
  · have hfaithful : a.scope.Faithful := by
      induction ha with
      | refl => exact Scope.faithful_root hc
      | tail _ step ih => exact step.faithful ih
    exact ⟨hfaithful.digest, fun name fragment =>
      ⟨(hfaithful.enter name fragment).digest, get?_enter a.scope name fragment⟩⟩

/-- Two overlays, of which the second binds the name of the context again and the first
brings a new one. -/
theorem overlays_exact_two :
    Bindings.Distinct ([("x".toList, .null)] : Context) ∧
    (∀ o ∈ ([[("y".toList, .null), ("x".toList, .bool true)], [("x".toList, .bool false)]] :
      List Context), Bindings.Distinct o) ∧
    Bindings.names ([[("y".toList, .null), ("x".toList, .bool true)],
      [("x".toList, .bool false)]].foldl Bindings.overlay ([("x".toList, .null)] : Context)) =
        ["x".toList, "y".toList] := by
  have hc : Bindings.Distinct ([("x".toList, .null)] : Context) := by decide
  have ho : ∀ o ∈ ([[("y".toList, .null), ("x".toList, .bool true)],
      [("x".toList, .bool false)]] : List Context), Bindings.Distinct o := by
    rw [List.forall_mem_cons, List.forall_mem_singleton]
    exact ⟨by decide, by decide⟩
  exact ⟨hc, ho, (overlays_exact hc ho).2.2.2.1⟩

end Stencil.Render
