import Stencil.Bindings

/-!
# Doing the same thing once

`mapDistinct` runs a function on the items of a list from left to right, and
takes the result of an earlier item with the same key for granted. If the
results depend on the keys only, this cannot be told from running the function
on every item (`mapDistinct_eq_mapM`).
-/

namespace Stencil

variable {α β ε : Type}

/-- The results on the items of a list, where results by key are known. -/
def mapDistinctFrom (key : α → Text) (f : α → Except ε β) :
    (known : Bindings β) → List α → Except ε (List β)
  | _, [] => .ok []
  | known, a :: as =>
      match known.get? (key a) with
      | some b => return b :: (← mapDistinctFrom key f known as)
      | none => do
          let b ← f a
          return b :: (← mapDistinctFrom key f ((key a, b) :: known) as)

/-- The results on the items of a list, once for each key. -/
def mapDistinct (key : α → Text) (f : α → Except ε β) (as : List α) : Except ε (List β) :=
  mapDistinctFrom key f [] as

/-! ## Whether a result is taken for granted cannot be seen -/

theorem mapDistinctFrom_eq_mapM (key : α → Text) (f : α → Except ε β)
    (determined : ∀ a a' b, key a = key a' → f a = .ok b → f a' = .ok b)
    (as : List α) (known : Bindings β)
    (sound : ∀ a b, known.get? (key a) = some b → f a = .ok b) :
    mapDistinctFrom key f known as = as.mapM f := by
  induction as generalizing known with
  | nil => rfl
  | cons a as ih =>
      rw [List.mapM_cons]
      cases hk : known.get? (key a) with
      | some b => simp [mapDistinctFrom, hk, sound a b hk, ih known sound, bind, Except.bind]
      | none =>
          cases ha : f a with
          | error e => simp [mapDistinctFrom, hk, ha, bind, Except.bind]
          | ok b =>
              have sound' : ∀ a' b',
                  Bindings.get? ((key a, b) :: known) (key a') = some b' → f a' = .ok b' := by
                intro a' b' h
                by_cases hkey : key a = key a'
                · simp only [Bindings.get?, hkey, if_pos] at h
                  obtain rfl := Option.some.inj h
                  exact determined a a' b hkey ha
                · simp only [Bindings.get?, hkey, if_neg, not_false_eq_true] at h
                  exact sound a' b' h
              simp [mapDistinctFrom, hk, ha, ih _ sound', bind, Except.bind]

theorem mapDistinct_eq_mapM (key : α → Text) (f : α → Except ε β)
    (determined : ∀ a a' b, key a = key a' → f a = .ok b → f a' = .ok b) (as : List α) :
    mapDistinct key f as = as.mapM f :=
  mapDistinctFrom_eq_mapM key f determined as [] (by simp [Bindings.get?])

end Stencil
