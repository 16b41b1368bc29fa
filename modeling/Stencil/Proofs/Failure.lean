import Stencil.Memo
import Mathlib.Data.List.Forall2

/-!
# Lists of tasks that may fail

`mapM` runs the tasks of a list from left to right. It succeeds with the results
of all of them, and otherwise fails as the first task that fails.

`Outcome P E` says of a task that its result meets `P` if it succeeds and that its
failure meets `E` if it fails. It goes through sequences and lists of tasks, so an
invariant of one step is an invariant of a run.

`Unless E` compares two tasks: they end the same, unless the first fails in a way that
meets `E`. `Spares E` says in addition that the second never fails so. Both go through
sequences and lists of tasks too, so what is compared is one step.
-/

namespace Stencil

variable {α β ε : Type}

@[simp] theorem Except.bind_ok {γ : Type} (a : α) (f : α → Except ε γ) :
    (Except.ok a >>= f) = f a := rfl

@[simp] theorem Except.bind_error {γ : Type} (e : ε) (f : α → Except ε γ) :
    (Except.error e >>= f) = Except.error e := rfl

@[simp] theorem Except.pure_eq_ok (a : α) : (pure a : Except ε α) = .ok a := rfl

@[simp] theorem Except.map_ok {γ : Type} (f : α → γ) (a : α) :
    (f <$> (Except.ok a : Except ε α)) = .ok (f a) := rfl

@[simp] theorem Except.map_error {γ : Type} (f : α → γ) (e : ε) :
    (f <$> (Except.error e : Except ε α)) = .error e := rfl

/-- What a sequence of two tasks that succeeded has done. -/
theorem Except.bind_eq_ok_iff {γ : Type} {x : Except ε α} {f : α → Except ε γ} {c : γ} :
    (x >>= f) = .ok c ↔ ∃ a, x = .ok a ∧ f a = .ok c := by
  cases x <;> simp

theorem Except.map_eq_ok_iff {f : α → β} {x : Except ε α} {b : β} :
    (f <$> x) = .ok b ↔ ∃ a, x = .ok a ∧ f a = b := by
  cases x <;> simp

theorem Except.toOption_eq_some_iff {x : Except ε α} {a : α} :
    x.toOption = some a ↔ x = .ok a := by
  cases x <;> simp [Except.toOption]

theorem mapM_eq_ok_iff {f : α → Except ε β} {as : List α} {bs : List β} :
    as.mapM f = .ok bs ↔ List.Forall₂ (fun a b => f a = .ok b) as bs := by
  induction as generalizing bs with
  | nil =>
      rw [List.mapM_nil, List.forall₂_nil_left_iff]
      simp [eq_comm]
  | cons a as ih =>
      rw [List.mapM_cons, Except.bind_eq_ok_iff, List.forall₂_cons_left_iff]
      constructor
      · rintro ⟨b, hb, h⟩
        obtain ⟨bs', hbs, h'⟩ := Except.bind_eq_ok_iff.1 h
        exact ⟨b, bs', hb, ih.1 hbs, (Except.ok.inj h').symm⟩
      · rintro ⟨b, bs', hb, hbs, rfl⟩
        exact ⟨b, hb, Except.bind_eq_ok_iff.2 ⟨bs', ih.2 hbs, rfl⟩⟩

/-- The first task that fails decides. -/
theorem mapM_eq_error {f : α → Except ε β} {before : List α} {a : α} {after : List α} {e : ε}
    (succeed : ∀ b ∈ before, ∃ v, f b = .ok v) (fails : f a = .error e) :
    (before ++ a :: after).mapM f = .error e := by
  induction before with
  | nil => rw [List.nil_append, List.mapM_cons, fails, Except.bind_error]
  | cons b before ih =>
      obtain ⟨v, hv⟩ := succeed b List.mem_cons_self
      have hrest := ih fun x hx => succeed x (List.mem_cons_of_mem b hx)
      rw [List.cons_append, List.mapM_cons, hv, Except.bind_ok, hrest, Except.bind_error]

/-- All tasks succeed, or there is a first that fails. -/
theorem forall₂_or_first_error (f : α → Except ε β) (as : List α) :
    (∃ bs, List.Forall₂ (fun a b => f a = .ok b) as bs) ∨
    ∃ before a after e, as = before ++ a :: after ∧ (∀ b ∈ before, ∃ v, f b = .ok v) ∧
      f a = .error e := by
  induction as with
  | nil => exact Or.inl ⟨[], .nil⟩
  | cons a as ih =>
      cases ha : f a with
      | error e => exact Or.inr ⟨[], a, as, e, rfl, by simp, ha⟩
      | ok b =>
          rcases ih with ⟨bs, hbs⟩ | ⟨before, a', after, e, rfl, hbefore, ha'⟩
          · exact Or.inl ⟨b :: bs, .cons ha hbs⟩
          · refine Or.inr ⟨a :: before, a', after, e, rfl, ?_, ha'⟩
            intro x hx
            rcases List.mem_cons.1 hx with rfl | hx
            · exact ⟨b, ha⟩
            · exact hbefore x hx

/-! ## Outcomes -/

/-- What is true of the result of a task, or else of its failure. -/
def Outcome (P : α → Prop) (E : ε → Prop) : Except ε α → Prop
  | .ok a => P a
  | .error e => E e

namespace Outcome

variable {γ : Type} {P : α → Prop} {Q : β → Prop} {E : ε → Prop}

theorem ok {x : Except ε α} (h : Outcome P E x) {a : α} (hx : x = .ok a) : P a := by
  subst hx
  exact h

theorem error {x : Except ε α} (h : Outcome P E x) {e : ε} (hx : x = .error e) : E e := by
  subst hx
  exact h

theorem mono {P' : α → Prop} {E' : ε → Prop} {x : Except ε α} (h : Outcome P E x)
    (hP : ∀ a, P a → P' a) (hE : ∀ e, E e → E' e) : Outcome P' E' x := by
  cases x with
  | ok a => exact hP a h
  | error e => exact hE e h

theorem bind {x : Except ε α} {f : α → Except ε β} (h : Outcome P E x)
    (hf : ∀ a, x = .ok a → P a → Outcome Q E (f a)) : Outcome Q E (x >>= f) := by
  cases x with
  | ok a => exact hf a rfl h
  | error e => exact h

theorem foldlM {f : β → α → Except ε β} {as : List α}
    (step : ∀ b, ∀ a ∈ as, Q b → Outcome Q E (f b a)) {b : β} (h : Q b) :
    Outcome Q E (as.foldlM f b) := by
  induction as generalizing b with
  | nil => exact h
  | cons a as ih =>
      rw [List.foldlM_cons]
      refine (step b a List.mem_cons_self h).bind fun b' _ hb' => ?_
      exact ih (fun c a' ha' => step c a' (List.mem_cons_of_mem a ha')) hb'

theorem mapM {f : α → Except ε β} {as : List α}
    (step : ∀ a ∈ as, Outcome (fun _ => True) E (f a)) :
    Outcome (fun bs => as.mapM f = .ok bs) E (as.mapM f) := by
  induction as with
  | nil => exact rfl
  | cons a as ih =>
      rw [List.mapM_cons]
      refine (step a List.mem_cons_self).bind fun b hb _ => ?_
      refine (ih fun a' ha' => step a' (List.mem_cons_of_mem a ha')).bind fun bs hbs _ => ?_
      rw [hb, hbs]
      exact rfl

end Outcome

/-! ## Two tasks -/

/-- The second task ends as the first, but where the first fails in a way of a kind it may
end in any other way. -/
def Unless (E : ε → Prop) (x y : Except ε α) : Prop :=
  (∃ e, x = .error e ∧ E e) ∨ x = y

namespace Unless

variable {E : ε → Prop} {x y : Except ε α}

theorem refl (x : Except ε α) : Unless E x x := Or.inr rfl

theorem failed {e : ε} (he : E e) (y : Except ε α) : Unless E (.error e) y :=
  Or.inl ⟨e, rfl, he⟩

theorem eq_ok (h : Unless E x y) {a : α} (hx : x = .ok a) : y = .ok a := by
  rcases h with ⟨e, rfl, -⟩ | rfl
  · cases hx
  · exact hx

theorem eq_error (h : Unless E x y) {e : ε} (he : ¬ E e) (hx : x = .error e) :
    y = .error e := by
  rcases h with ⟨e', rfl, he'⟩ | rfl
  · obtain rfl := Except.error.inj hx
    exact absurd he' he
  · exact hx

theorem bind {f g : α → Except ε β} (h : Unless E x y) (hfg : ∀ a, Unless E (f a) (g a)) :
    Unless E (x >>= f) (y >>= g) := by
  rcases h with ⟨e, rfl, he⟩ | rfl
  · exact failed he _
  · cases x with
    | ok a => exact hfg a
    | error e => exact refl _

theorem map (h : Unless E x y) (f : α → β) : Unless E (f <$> x) (f <$> y) := by
  rcases h with ⟨e, rfl, he⟩ | rfl
  · exact failed he _
  · exact refl _

theorem mapM {f g : α → Except ε β} (h : ∀ a, Unless E (f a) (g a)) (as : List α) :
    Unless E (as.mapM f) (as.mapM g) := by
  induction as with
  | nil => exact refl _
  | cons a as ih =>
      rw [List.mapM_cons, List.mapM_cons]
      exact (h a).bind fun b => ih.bind fun bs => refl _

end Unless

/-- The second task ends as the first, but for failures of a kind: it never fails so, and
where the first does, it may end in any other way. -/
structure Spares (E : ε → Prop) (x y : Except ε α) : Prop where
  same : (∃ e, x = .error e ∧ E e) ∨ x = y
  never : ∀ e, y = .error e → ¬ E e

namespace Spares

variable {E : ε → Prop} {x y : Except ε α}

theorem ok (a : α) : Spares E (.ok a) (.ok a) :=
  ⟨Or.inr rfl, fun _ h => by cases h⟩

theorem error {e : ε} (he : ¬ E e) : Spares E (.error e : Except ε α) (.error e) :=
  ⟨Or.inr rfl, fun _ h => Except.error.inj h ▸ he⟩

/-- A failure of the kind is spared. -/
theorem spared {e : ε} (he : E e) (a : α) : Spares E (.error e) (.ok a) :=
  ⟨Or.inl ⟨e, rfl, he⟩, fun _ h => by cases h⟩

theorem eq_ok (h : Spares E x y) {a : α} (hx : x = .ok a) : y = .ok a :=
  Unless.eq_ok h.same hx

theorem eq_error (h : Spares E x y) {e : ε} (he : ¬ E e) (hx : x = .error e) :
    y = .error e :=
  Unless.eq_error h.same he hx

theorem bind {f g : α → Except ε β} (h : Spares E x y) (hfg : ∀ a, Spares E (f a) (g a)) :
    Spares E (x >>= f) (y >>= g) where
  same := Unless.bind h.same fun a => (hfg a).same
  never := by
    cases y with
    | ok a => exact (hfg a).never
    | error e =>
        intro e' he'
        obtain rfl := Except.error.inj he'
        exact h.never e rfl

theorem map (h : Spares E x y) (f : α → β) : Spares E (f <$> x) (f <$> y) := by
  have hbind := h.bind fun a => Spares.ok (E := E) (f a)
  cases x <;> cases y <;> exact hbind

theorem mapM {f g : α → Except ε β} (h : ∀ a, Spares E (f a) (g a)) (as : List α) :
    Spares E (as.mapM f) (as.mapM g) := by
  induction as with
  | nil => exact ok []
  | cons a as ih =>
      rw [List.mapM_cons, List.mapM_cons]
      exact (h a).bind fun b => ih.bind fun bs => ok (b :: bs)

theorem foldlM {f g : β → α → Except ε β} (h : ∀ b a, Spares E (f b a) (g b a)) (as : List α)
    (b : β) : Spares E (as.foldlM f b) (as.foldlM g b) := by
  induction as generalizing b with
  | nil => exact ok b
  | cons a as ih =>
      rw [List.foldlM_cons, List.foldlM_cons]
      exact (h b a).bind ih

end Spares

end Stencil
