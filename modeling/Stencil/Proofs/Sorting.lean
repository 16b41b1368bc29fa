import Mathlib.Data.List.Basic

/-!
# Merging and sorting as relations

`Merged after before xs ys zs` says that `zs` is a merge of `xs` and `ys`, where an item of
`ys` went first only if the item of `xs` beside it belongs after it, and an item of `xs`
only if it belongs before; `MergeSorted` says the same of a whole sort by halves. Who
decides, and whether it decides the same twice, is left open. Whoever it is, nothing is
lost (`MergeSorted.perm`). If it is a total preorder, the items come out in its order, and
those that it does not tell apart as they were (`MergeSorted.stable`).
-/

namespace Stencil

variable {α : Type}

/-- A merge of two lists. -/
inductive Merged (after before : α → α → Prop) : (xs ys zs : List α) → Prop where
  | noLeft (ys : List α) : Merged after before [] ys ys
  | noRight (xs : List α) : Merged after before xs [] xs
  | right {x y : α} {xs ys zs : List α} (h : after x y)
      (rest : Merged after before (x :: xs) ys zs) :
      Merged after before (x :: xs) (y :: ys) (y :: zs)
  | left {x y : α} {xs ys zs : List α} (h : before x y)
      (rest : Merged after before xs (y :: ys) zs) :
      Merged after before (x :: xs) (y :: ys) (x :: zs)

/-- A list sorted by merging its sorted halves. -/
inductive MergeSorted (after before : α → α → Prop) : (xs zs : List α) → Prop where
  | short {xs : List α} (h : xs.length ≤ 1) : MergeSorted after before xs xs
  | halves {xs ls rs zs : List α}
      (hleft : MergeSorted after before (xs.take (xs.length / 2)) ls)
      (hright : MergeSorted after before (xs.drop (xs.length / 2)) rs)
      (hmerged : Merged after before ls rs zs) : MergeSorted after before xs zs

/-- The relation orders the items of a list, and may hold both ways between two of them. -/
structure TotalPreorderOn (le : α → α → Bool) (xs : List α) : Prop where
  total : ∀ x ∈ xs, ∀ y ∈ xs, le x y ∨ le y x
  trans : ∀ x ∈ xs, ∀ y ∈ xs, ∀ z ∈ xs, le x y → le y z → le x z

/-- Neither of two items comes before the other. -/
def tied (le : α → α → Bool) (x y : α) : Bool :=
  le x y && le y x

/-- The second list has the items of the first in order, and tied items as they were. -/
structure StablySorted (le : α → α → Bool) (xs ys : List α) : Prop where
  perm : ys.Perm xs
  ordered : ys.Pairwise fun x y => le x y
  stable : ∀ x ∈ xs, ys.filter (tied le x) = xs.filter (tied le x)

namespace Merged

variable {after before : α → α → Prop} {le : α → α → Bool} {xs ys zs : List α}

/-- **A merge has all items of both lists.** -/
theorem perm (h : Merged after before xs ys zs) : zs.Perm (xs ++ ys) := by
  induction h with
  | noLeft ys => exact .refl ys
  | noRight xs => rw [List.append_nil]
  | right _ _ ih => exact (ih.cons _).trans List.perm_middle.symm
  | left _ _ ih => exact ih.cons _

theorem mono {after' before' : α → α → Prop} (h : Merged after before xs ys zs)
    (hafter : ∀ x ∈ xs, ∀ y ∈ ys, after x y → after' x y)
    (hbefore : ∀ x ∈ xs, ∀ y ∈ ys, before x y → before' x y) : Merged after' before' xs ys zs := by
  induction h with
  | noLeft ys => exact .noLeft ys
  | noRight xs => exact .noRight xs
  | right h _ ih =>
      refine .right (hafter _ List.mem_cons_self _ List.mem_cons_self h) (ih ?_ ?_)
      · exact fun x hx y hy => hafter x hx y (List.mem_cons_of_mem _ hy)
      · exact fun x hx y hy => hbefore x hx y (List.mem_cons_of_mem _ hy)
  | left h _ ih =>
      refine .left (hbefore _ List.mem_cons_self _ List.mem_cons_self h) (ih ?_ ?_)
      · exact fun x hx => hafter x (List.mem_cons_of_mem _ hx)
      · exact fun x hx => hbefore x (List.mem_cons_of_mem _ hx)

variable {us : List α} (hle : TotalPreorderOn le us)
include hle

/-- **A merge of two lists in order is in order.** -/
theorem ordered (h : Merged (fun x y => ¬ le x y) (fun x y => le x y) xs ys zs)
    (hxsIn : xs ⊆ us) (hysIn : ys ⊆ us) (hxs : xs.Pairwise fun x y => le x y)
    (hys : ys.Pairwise fun x y => le x y) : zs.Pairwise fun x y => le x y := by
  induction h with
  | noLeft => exact hys
  | noRight => exact hxs
  | @right x y xs ys zs h rest ih =>
      have hx : x ∈ us := hxsIn List.mem_cons_self
      have hy : y ∈ us := hysIn List.mem_cons_self
      have hyx : le y x := (hle.total x hx y hy).resolve_left h
      rw [List.cons_subset] at hysIn
      rw [List.pairwise_cons] at hys ⊢
      refine ⟨fun z hz => ?_, ih hxsIn hysIn.2 hxs hys.2⟩
      rcases List.mem_append.1 (rest.perm.mem_iff.1 hz) with hz | hz
      · rcases List.mem_cons.1 hz with rfl | hz'
        · exact hyx
        · exact hle.trans y hy x hx z (hxsIn hz) hyx ((List.pairwise_cons.1 hxs).1 z hz')
      · exact hys.1 z hz
  | @left x y xs ys zs h rest ih =>
      have hx : x ∈ us := hxsIn List.mem_cons_self
      have hy : y ∈ us := hysIn List.mem_cons_self
      rw [List.cons_subset] at hxsIn
      rw [List.pairwise_cons] at hxs ⊢
      refine ⟨fun z hz => ?_, ih hxsIn.2 hysIn hxs.2 hys⟩
      rcases List.mem_append.1 (rest.perm.mem_iff.1 hz) with hz | hz
      · exact hxs.1 z hz
      · rcases List.mem_cons.1 hz with rfl | hz'
        · exact h
        · exact hle.trans x hx y hy z (hysIn hz) h ((List.pairwise_cons.1 hys).1 z hz')

/-- **A merge keeps tied items as they are**, those of the first list first. -/
theorem filter_tied (h : Merged (fun x y => ¬ le x y) (fun x y => le x y) xs ys zs)
    (hxsIn : xs ⊆ us) (hysIn : ys ⊆ us) (hxs : xs.Pairwise fun x y => le x y) {a : α}
    (ha : a ∈ us) :
    zs.filter (tied le a) = xs.filter (tied le a) ++ ys.filter (tied le a) := by
  induction h with
  | noLeft => rfl
  | noRight => rw [List.filter_nil, List.append_nil]
  | @right x y xs ys zs h rest ih =>
      rw [List.cons_subset] at hysIn
      have hrest := ih hxsIn hysIn.2 hxs
      by_cases hy : tied le a y
      · -- an item of the first list that ties with `y` would come before it
        have hnone : (x :: xs).filter (tied le a) = [] := by
          refine List.filter_eq_nil_iff.2 fun w hw htied => h ?_
          rw [tied, Bool.and_eq_true] at hy htied
          have hwy : le w y := hle.trans w (hxsIn hw) a ha y hysIn.1 htied.2 hy.1
          rcases List.mem_cons.1 hw with rfl | hw'
          · exact hwy
          · have hxw : le x w := (List.pairwise_cons.1 hxs).1 w hw'
            exact hle.trans x (hxsIn List.mem_cons_self) w (hxsIn hw) y hysIn.1 hxw hwy
        rw [List.filter_cons_of_pos hy, hrest, hnone, List.filter_cons_of_pos hy]
        rfl
      · rw [List.filter_cons_of_neg hy, hrest, List.filter_cons_of_neg hy]
  | @left x y xs ys zs h rest ih =>
      rw [List.cons_subset] at hxsIn
      have hrest := ih hxsIn.2 hysIn (List.pairwise_cons.1 hxs).2
      by_cases hx : tied le a x
      · rw [List.filter_cons_of_pos hx, hrest, List.filter_cons_of_pos hx, List.cons_append]
      · rw [List.filter_cons_of_neg hx, hrest, List.filter_cons_of_neg hx]

end Merged

namespace MergeSorted

variable {after before : α → α → Prop} {le : α → α → Bool} {xs zs : List α}

/-- **A sort loses nothing**, whatever decides. -/
theorem perm (h : MergeSorted after before xs zs) : zs.Perm xs := by
  induction h with
  | short => exact .refl _
  | @halves xs ls rs zs _ _ hmerged ihLeft ihRight =>
      have hboth : (ls ++ rs).Perm (xs.take (xs.length / 2) ++ xs.drop (xs.length / 2)) :=
        ihLeft.append ihRight
      rw [List.take_append_drop] at hboth
      exact hmerged.perm.trans hboth

theorem mono {after' before' : α → α → Prop} (h : MergeSorted after before xs zs)
    (hafter : ∀ x ∈ xs, ∀ y ∈ xs, after x y → after' x y)
    (hbefore : ∀ x ∈ xs, ∀ y ∈ xs, before x y → before' x y) :
    MergeSorted after' before' xs zs := by
  induction h with
  | short h => exact .short h
  | @halves xs ls rs zs hleft hright hmerged ihLeft ihRight =>
      have htake : xs.take (xs.length / 2) ⊆ xs := List.take_subset _ xs
      have hdrop : xs.drop (xs.length / 2) ⊆ xs := List.drop_subset _ xs
      have hls : ls ⊆ xs := fun x hx => htake (hleft.perm.mem_iff.1 hx)
      have hrs : rs ⊆ xs := fun x hx => hdrop (hright.perm.mem_iff.1 hx)
      refine .halves (ihLeft ?_ ?_) (ihRight ?_ ?_) (hmerged.mono ?_ ?_)
      · exact fun x hx y hy => hafter x (htake hx) y (htake hy)
      · exact fun x hx y hy => hbefore x (htake hx) y (htake hy)
      · exact fun x hx y hy => hafter x (hdrop hx) y (hdrop hy)
      · exact fun x hx y hy => hbefore x (hdrop hx) y (hdrop hy)
      · exact fun x hx y hy => hafter x (hls hx) y (hrs hy)
      · exact fun x hx y hy => hbefore x (hls hx) y (hrs hy)

/-- A sort by a total preorder is in its order, and keeps tied items as they are. -/
theorem ordered_and_filter_tied {us : List α} (hle : TotalPreorderOn le us)
    (h : MergeSorted (fun x y => ¬ le x y) (fun x y => le x y) xs zs) (hxsIn : xs ⊆ us) :
    (zs.Pairwise fun x y => le x y) ∧
      ∀ a ∈ us, zs.filter (tied le a) = xs.filter (tied le a) := by
  induction h with
  | @short xs h =>
      refine ⟨?_, fun _ _ => rfl⟩
      match xs, h with
      | [], _ => exact .nil
      | [x], _ => exact List.pairwise_singleton _ x
  | @halves xs ls rs zs hleft hright hmerged ihLeft ihRight =>
      have htake : xs.take (xs.length / 2) ⊆ us := List.Subset.trans (List.take_subset _ xs) hxsIn
      have hdrop : xs.drop (xs.length / 2) ⊆ us := List.Subset.trans (List.drop_subset _ xs) hxsIn
      have hls : ls ⊆ us := List.Subset.trans hleft.perm.subset htake
      have hrs : rs ⊆ us := List.Subset.trans hright.perm.subset hdrop
      obtain ⟨hlsOrdered, hlsTied⟩ := ihLeft htake
      obtain ⟨hrsOrdered, hrsTied⟩ := ihRight hdrop
      refine ⟨hmerged.ordered hle hls hrs hlsOrdered hrsOrdered, fun a ha => ?_⟩
      rw [hmerged.filter_tied hle hls hrs hlsOrdered ha, hlsTied a ha, hrsTied a ha,
        ← List.filter_append, List.take_append_drop]

/-- **A sort by a total preorder is stable.** -/
theorem stable (h : MergeSorted (fun x y => ¬ le x y) (fun x y => le x y) xs zs)
    (hle : TotalPreorderOn le xs) : StablySorted le xs zs where
  perm := h.perm
  ordered := (h.ordered_and_filter_tied hle (List.Subset.refl xs)).1
  stable := (h.ordered_and_filter_tied hle (List.Subset.refl xs)).2

end MergeSorted

end Stencil
