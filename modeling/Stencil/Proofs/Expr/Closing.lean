import Stencil.Proofs.Expr.Nesting

/-!
# Literals inside literals

The walk that looks for the end of a literal keeps a stack of layers. It finds the same end if
each layer is closed on its own first, and the walk goes on behind it (`closing_open`,
`closing_interpolation`): what is inside a layer ends where it would end without the layers
below. What ends inside a text ends there whatever follows (`closing_append`).
-/

namespace Stencil.Expr

variable {l l' : Layer} {c d : Char} {t body rest : Text}

/-! ## One step -/

theorem closing_end {skip : Bool} (h : Layer.step c rest.head? [l] = ([], skip)) :
    closing l (c :: rest) = some ([], rest) := by
  rw [closing, closingFrom, h]

theorem closing_keep (h : Layer.step c rest.head? [l] = ([l'], false)) :
    closing l (c :: rest) = (closing l' rest).map fun p => (c :: p.1, p.2) := by
  rw [closing, closingFrom, h]
  rfl

theorem closing_skip (h : Layer.step c (some d) [l] = ([l], true)) :
    closing l (c :: d :: rest) = (closing l rest).map fun p => (c :: d :: p.1, p.2) := by
  rw [closing, closingFrom, List.head?_cons, h]
  dsimp only
  rw [closingFrom, Option.map_map]
  rfl

/-! ## A layer inside another -/

/-- What does not end does not end with more layers below it. -/
theorem closingFrom_eq_none {ls below : List Layer} {skip : Bool}
    (h : closingFrom (l :: ls) skip t = none) :
    closingFrom (l :: ls ++ l' :: below) skip t = none := by
  induction t generalizing l ls skip with
  | nil => rfl
  | cons c t ih =>
      cases skip with
      | true =>
          rw [closingFrom, Option.map_eq_none_iff] at h
          rw [List.cons_append, closingFrom, Option.map_eq_none_iff]
          exact ih h
      | false =>
          rw [closingFrom] at h
          split at h
          · cases h
          · next l₁ ls₁ skip heq =>
              rw [Option.map_eq_none_iff] at h
              rw [closingFrom, step_append, heq]
              show Option.map _ (closingFrom (l₁ :: ls₁ ++ l' :: below) skip t) = none
              rw [ih h]
              rfl

/-- Of two layers the inner one ends first, as it would end alone. -/
theorem closingFrom_pair (l l' : Layer) (t : Text) :
    closingFrom [l', l] false t = (closing l' t).bind fun p =>
      (closing l p.2).map fun q => (p.1 ++ l'.closer :: q.1, q.2) := by
  cases h : closing l' t with
  | none => exact closingFrom_eq_none h
  | some p =>
      obtain ⟨body, rest⟩ := p
      obtain ⟨c, rfl, hextend⟩ := closingFrom_extend h
      have hcloser : c = l'.closer := by
        have heq := closing_eq h
        exact (List.cons.inj (List.append_cancel_left heq)).1
      subst hcloser
      exact hextend l [] rest

/-- A layer that a character opens is closed first. -/
theorem closing_open (h : Layer.step c rest.head? [l] = ([l', l], false)) :
    closing l (c :: rest) = (closing l' rest).bind fun p =>
      (closing l p.2).map fun q => (c :: (p.1 ++ l'.closer :: q.1), q.2) := by
  rw [closing, closingFrom, h]
  dsimp only
  rw [closingFrom_pair, Option.map_bind]
  congr 1
  funext p
  rw [Function.comp, Option.map_map]
  rfl

/-- So is an interpolation. -/
theorem closing_interpolation (rest : Text) :
    closing .template ('$' :: '{' :: rest) = (closing (.code 0) rest).bind fun p =>
      (closing .template p.2).map fun q => ('$' :: '{' :: (p.1 ++ '}' :: q.1), q.2) := by
  have hopening : Layer.step '$' (some '{') [.template] = ([.code 0, .template], true) := rfl
  rw [closing, closingFrom, List.head?_cons, hopening]
  dsimp only
  rw [closingFrom, closingFrom_pair, Option.map_map, Option.map_bind]
  congr 1
  funext p
  rw [Function.comp, Option.map_map]
  rfl

/-! ## What follows -/

theorem closingFrom_append {ls : List Layer} {skip : Bool}
    (h : closingFrom (l :: ls) skip t = some (body, rest)) :
    ∃ c, t = body ++ c :: rest ∧
      ∀ rest', closingFrom (l :: ls) skip (body ++ c :: rest') = some (body, rest') := by
  induction t generalizing l ls skip body with
  | nil => cases h
  | cons c t ih =>
      cases skip with
      | true =>
          simp only [closingFrom, Option.map_eq_some_iff, Prod.mk.injEq] at h
          obtain ⟨⟨b, r⟩, hb, rfl, rfl⟩ := h
          obtain ⟨d, rfl, happend⟩ := ih hb
          refine ⟨d, rfl, ?_⟩
          intro rest'
          rw [List.cons_append, closingFrom, happend]
          rfl
      | false =>
          rw [closingFrom] at h
          split at h
          · next skip heq =>
              simp only [Option.some.injEq, Prod.mk.injEq] at h
              obtain ⟨rfl, rfl⟩ := h
              obtain ⟨rfl, hends⟩ := step_eq_nil heq
              refine ⟨c, rfl, ?_⟩
              intro rest'
              rw [List.nil_append, closingFrom, hends]
          · next l₁ ls₁ skip heq =>
              simp only [Option.map_eq_some_iff, Prod.mk.injEq] at h
              obtain ⟨⟨b, r⟩, hb, rfl, rfl⟩ := h
              obtain ⟨d, rfl, happend⟩ := ih hb
              refine ⟨d, rfl, ?_⟩
              intro rest'
              have hnext : (b ++ d :: rest').head? = (b ++ d :: r).head? := by cases b <;> rfl
              rw [List.cons_append, closingFrom, hnext, heq]
              dsimp only
              rw [happend]
              rfl

/-- **What ends a layer ends it whatever follows.** -/
theorem closing_append (h : closing l t = some (body, rest)) (rest' : Text) :
    closing l (body ++ l.closer :: rest') = some (body, rest') := by
  obtain ⟨c, rfl, happend⟩ := closingFrom_append h
  have heq := closing_eq h
  obtain ⟨rfl, -⟩ := List.cons.inj (List.append_cancel_left heq)
  exact happend rest'

end Stencil.Expr
