import Stencil.Text.Basic

/-!
# Sorting with a comparison that may fail

`mergeSortM` sorts by merging sorted halves, the first half being the shorter
one. The comparison asks whether its first argument belongs after its second,
and runs in a monad, so it may count, fail or be inconsistent. An item of the
first half goes first unless it belongs after, which keeps equal items in order.
-/

namespace Stencil

variable {α : Type} {m : Type → Type} [Monad m]

def mergeM (after : α → α → m Bool) : List α → List α → m (List α)
  | [], ys => pure ys
  | x :: xs, [] => pure (x :: xs)
  | x :: xs, y :: ys => do
      if ← after x y then
        let rest ← mergeM after (x :: xs) ys
        pure (y :: rest)
      else
        let rest ← mergeM after xs (y :: ys)
        pure (x :: rest)
termination_by xs ys => xs.length + ys.length

def mergeSortM (after : α → α → m Bool) (xs : List α) : m (List α) :=
  if h : xs.length ≤ 1 then pure xs
  else do
    let left ← mergeSortM after (xs.take (xs.length / 2))
    let right ← mergeSortM after (xs.drop (xs.length / 2))
    mergeM after left right
termination_by xs.length
decreasing_by
  all_goals simp only [List.length_take, List.length_drop]; omega

end Stencil
