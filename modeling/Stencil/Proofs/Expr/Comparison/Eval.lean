import Stencil.Proofs.Expr.Comparison.Operation
import Stencil.Sorting

/-!
# Evaluations that agree

Two evaluations agree if, from progress that stands for one another, they come to values
that do and to progress that does again, or fail as the comparison lets them. Agreement
passes through everything that evaluations are put together with: `bind`, the traversals
of lists, and sorting with a comparison that is evaluated.
-/

namespace Stencil.Expr

/-- What two evaluations may come to. -/
inductive Comparison.Outcome (C : Comparison) {α β : Type} (R : α → β → Prop) :
    Except ExprError (α × Progress) → Except ExprError (β × Progress) → Prop where
  | values {a : α} {b : β} {p q : Progress} (value : R a b) (progress : C.progress p q) :
      Outcome C R (.ok (a, p)) (.ok (b, q))
  | excused {e : ExprError} (h : C.excused e) (y : Except ExprError (β × Progress)) :
      Outcome C R (.error e) y
  | allowed (x : Except ExprError (α × Progress)) {e : ExprError} (h : C.allowed e) :
      Outcome C R x (.error e)
  | failures {e e' : ExprError} (h : C.failures e e') : Outcome C R (.error e) (.error e')

/-- The second evaluation does what the first does. -/
def Comparison.Agree (C : Comparison) {α β : Type} (R : α → β → Prop) (x : Eval α) (y : Eval β) :
    Prop :=
  ∀ p q, C.progress p q → C.Outcome R (x p) (y q)

namespace Comparison.Agree

variable {C : Comparison} {α β γ δ : Type} {R : α → β → Prop} {S : γ → δ → Prop}

/-! ## Steps -/

theorem pure {a : α} {b : β} (h : R a b) : C.Agree R (pure a) (pure b) :=
  fun _ _ hpq => .values h hpq

/-- **Evaluations that agree may go on with evaluations that agree.** -/
theorem bind {x : Eval α} {y : Eval β} {f : α → Eval γ} {g : β → Eval δ} (hxy : C.Agree R x y)
    (hfg : ∀ a b, R a b → C.Agree S (f a) (g b)) : C.Agree S (x >>= f) (y >>= g) := by
  intro p q hpq
  have hfirst := hxy p q hpq
  change C.Outcome S ((x p).bind fun r => f r.1 r.2) ((y q).bind fun r => g r.1 r.2)
  generalize x p = first at hfirst
  generalize y q = second at hfirst
  cases hfirst with
  | values hvalue hprogress => exact hfg _ _ hvalue _ _ hprogress
  | excused h => exact .excused h _
  | allowed _ h => exact .allowed _ h
  | failures h => exact .failures h

theorem map {x : Eval α} {y : Eval β} {f : α → γ} {g : β → δ} (hxy : C.Agree R x y)
    (hfg : ∀ a b, R a b → S (f a) (g b)) : C.Agree S (f <$> x) (g <$> y) := by
  rw [map_eq_pure_bind, map_eq_pure_bind]
  exact hxy.bind fun a b hab => .pure (hfg a b hab)

theorem fail {s s' : Span} (h : C.spans s s') (t : Trouble)
    (hdefined : t.undefined? = none := by rfl) :
    C.Agree R (Eval.fail s t) (Eval.fail s' t) := by
  intro p q _
  rcases C.trouble h t hdefined with ht | ht | ht
  · exact .excused ht _
  · exact .allowed _ ht
  · exact .failures ht

theorem undefined {x : Text} {s s' : Span} (h : C.names x s s') :
    C.Agree R (Eval.fail s (.notDefined x)) (Eval.fail s' (.notDefined x)) := by
  intro p q _
  rcases C.undefined h with hx | hx | hx
  · exact .excused hx _
  · exact .allowed _ hx
  · exact .failures hx

/-- What is made next in one stands for what is made next in the other. -/
theorem fresh : C.Agree C.identities Eval.fresh Eval.fresh := by
  intro p q hpq
  obtain ⟨hid, hnext⟩ := C.made hpq
  exact .values hid hnext

theorem newArray {vs ws : List Value} (h : List.Forall₂ (Value.Like C) vs ws) :
    C.Agree (Value.Like C) (Eval.newArray vs) (Eval.newArray ws) :=
  fresh.bind fun _ _ id => .pure (.array id h)

theorem newObject {fs gs : List (Text × Value)} (h : FieldsLike C fs gs) :
    C.Agree (Value.Like C) (Eval.newObject fs) (Eval.newObject gs) :=
  fresh.bind fun _ _ id => .pure (.ofFields id h)

/-! ## Lists -/

theorem mapM {xs : List α} {ys : List β} {f : α → Eval γ} {g : β → Eval δ}
    (h : List.Forall₂ R xs ys) (hfg : ∀ a b, R a b → C.Agree S (f a) (g b)) :
    C.Agree (List.Forall₂ S) (xs.mapM f) (ys.mapM g) := by
  induction h with
  | nil => exact .pure .nil
  | cons hab _ ih =>
      rw [List.mapM_cons, List.mapM_cons]
      exact (hfg _ _ hab).bind fun _ _ hfirst => ih.bind fun _ _ hrest =>
        .pure (.cons hfirst hrest)

theorem foldlM {xs : List α} {ys : List β} {f : γ → α → Eval γ} {g : δ → β → Eval δ} {c : γ} {d : δ}
    (h : List.Forall₂ R xs ys)
    (hfg : ∀ a b c d, R a b → S c d → C.Agree S (f c a) (g d b)) (hcd : S c d) :
    C.Agree S (xs.foldlM f c) (ys.foldlM g d) := by
  induction h generalizing c d with
  | nil => exact .pure hcd
  | cons hab _ ih =>
      rw [List.foldlM_cons, List.foldlM_cons]
      exact (hfg _ _ _ _ hab hcd).bind fun _ _ hnext => ih hnext

theorem findM? {xs ys : List α} {R : α → α → Prop} {f g : α → Eval Bool} (h : List.Forall₂ R xs ys)
    (hfg : ∀ a b, R a b → C.Agree Eq (f a) (g b)) :
    C.Agree (Option.Rel R) (xs.findM? f) (ys.findM? g) := by
  induction h with
  | nil => exact .pure .none
  | cons hab _ ih =>
      refine (hfg _ _ hab).bind fun found _ hfound => ?_
      cases hfound
      cases found with
      | true => exact .pure (.some hab)
      | false => exact ih

theorem filterM {xs ys : List α} {R : α → α → Prop} {f g : α → Eval Bool} (h : List.Forall₂ R xs ys)
    (hfg : ∀ a b, R a b → C.Agree Eq (f a) (g b)) :
    C.Agree (List.Forall₂ R) (xs.filterM f) (ys.filterM g) := by
  have hfrom : ∀ kept kept', List.Forall₂ R kept kept' →
      C.Agree (List.Forall₂ R) (List.filterAuxM f xs kept) (List.filterAuxM g ys kept') := by
    induction h with
    | nil => exact fun _ _ hkept => .pure hkept
    | cons hab _ ih =>
        intro kept kept' hkept
        refine (hfg _ _ hab).bind fun found _ hfound => ?_
        cases hfound
        cases found with
        | true => exact ih _ _ (.cons hab hkept)
        | false => exact ih _ _ hkept
  exact (hfrom [] [] .nil).bind fun _ _ hkept => .pure (List.rel_reverse hkept)

/-! ## Sorting -/

variable {R : α → α → Prop} {after after' : α → α → Eval Bool}

theorem mergeM (hafter : ∀ a b a' b', R a b → R a' b' → C.Agree Eq (after a a') (after' b b'))
    {xs ys xs' ys' : List α} (h : List.Forall₂ R xs ys) (h' : List.Forall₂ R xs' ys') :
    C.Agree (List.Forall₂ R) (mergeM after xs xs') (Stencil.mergeM after' ys ys') := by
  fun_induction Stencil.mergeM after xs xs' generalizing ys ys' with
  | case1 xs' =>
      cases h
      rw [Stencil.mergeM]
      exact .pure h'
  | case2 x xs =>
      cases h with
      | cons hx hxs =>
          cases h'
          rw [Stencil.mergeM]
          exact .pure (.cons hx hxs)
  | case3 x xs x' xs' ih₁ ih₂ =>
      cases h with
      | @cons _ y _ ys hx hxs =>
          cases h' with
          | @cons _ y' _ ys' hx' hxs' =>
              rw [Stencil.mergeM]
              refine (hafter _ _ _ _ hx hx').bind fun found _ hfound => ?_
              cases hfound
              cases found with
              | true =>
                  exact (ih₁ (.cons hx hxs) hxs').bind fun _ _ hrest => .pure (.cons hx' hrest)
              | false =>
                  exact (ih₂ hxs (.cons hx' hxs')).bind fun _ _ hrest => .pure (.cons hx hrest)

theorem mergeSortM
    (hafter : ∀ a b a' b', R a b → R a' b' → C.Agree Eq (after a a') (after' b b'))
    {xs ys : List α} (h : List.Forall₂ R xs ys) :
    C.Agree (List.Forall₂ R) (mergeSortM after xs) (Stencil.mergeSortM after' ys) := by
  fun_induction Stencil.mergeSortM after xs generalizing ys with
  | case1 xs hlength =>
      rw [mergeSortM.eq_def after' ys, dif_pos (by rwa [← h.length_eq])]
      exact .pure h
  | case2 xs hlength ih₁ ih₂ =>
      rw [mergeSortM.eq_def after' ys, dif_neg (by rwa [← h.length_eq]), ← h.length_eq]
      exact (ih₁ (List.forall₂_take _ h)).bind fun _ _ hleft =>
        (ih₂ (List.forall₂_drop _ h)).bind fun _ _ hright => mergeM hafter hleft hright

end Comparison.Agree

end Stencil.Expr
