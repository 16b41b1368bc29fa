import Stencil.Proofs.Text.Utf8
import Stencil.Text.Search
import Mathlib.Data.List.Basic

/-!
# Leftmost occurrences

A search finds the leftmost occurrence (`firstAt_of_cut?`), and the pieces of a text stand
between leftmost occurrences that do not overlap (`divides_pieces`). Both are the same for the
bytes of the texts as for their characters (`occursAt_utf8_iff`, `Divides.utf8`): where the bytes
of a pattern are found, the pattern stands.
-/

namespace Stencil.Text

open Context (utf8 utf8_append length_utf8)

section Lists

variable {α : Type}

/-- A pattern stands in a list behind a number of things. -/
def OccursAt (pattern xs : List α) (i : Nat) : Prop :=
  ∃ before after, xs = before ++ (pattern ++ after) ∧ before.length = i

/-- The first place at which a pattern stands. -/
structure FirstAt (pattern xs : List α) (i : Nat) : Prop where
  occurs : OccursAt pattern xs i
  least : ∀ j < i, ¬ OccursAt pattern xs j

/-- The pieces of a list between occurrences of a pattern, each the first behind the one before
it, and none behind the last. -/
inductive Divides (pattern : List α) : List α → List (List α) → Prop
  | last {xs : List α} (absent : ∀ i, ¬ OccursAt pattern xs i) : Divides pattern xs [xs]
  | next {before after : List α} {pieces : List (List α)}
      (first : FirstAt pattern (before ++ (pattern ++ after)) before.length)
      (rest : Divides pattern after pieces) :
      Divides pattern (before ++ (pattern ++ after)) (before :: pieces)

variable {pattern xs : List α}

theorem occursAt_zero_iff : OccursAt pattern xs 0 ↔ ∃ after, xs = pattern ++ after := by
  constructor
  · rintro ⟨before, after, rfl, hlength⟩
    obtain rfl := List.eq_nil_of_length_eq_zero hlength
    exact ⟨after, rfl⟩
  · rintro ⟨after, rfl⟩
    exact ⟨[], after, rfl, rfl⟩

theorem occursAt_succ_iff {x : α} {i : Nat} :
    OccursAt pattern (x :: xs) (i + 1) ↔ OccursAt pattern xs i := by
  constructor
  · rintro ⟨before, after, heq, hlength⟩
    cases before with
    | nil => cases hlength
    | cons y before =>
        obtain ⟨-, rfl⟩ := List.cons.inj heq
        exact ⟨before, after, rfl, Nat.succ.inj hlength⟩
  · rintro ⟨before, after, rfl, rfl⟩
    exact ⟨x :: before, after, rfl, rfl⟩

theorem FirstAt.cons {x : α} {i : Nat} (h : FirstAt pattern xs i)
    (hx : ¬ OccursAt pattern (x :: xs) 0) : FirstAt pattern (x :: xs) (i + 1) where
  occurs := occursAt_succ_iff.2 h.occurs
  least := by
    intro j hj
    cases j with
    | zero => exact hx
    | succ j =>
        rw [occursAt_succ_iff]
        exact h.least j (Nat.lt_of_succ_lt_succ hj)

theorem firstAt_zero (after : List α) : FirstAt pattern (pattern ++ after) 0 :=
  ⟨occursAt_zero_iff.2 ⟨after, rfl⟩, fun _ hj => absurd hj (Nat.not_lt_zero _)⟩

end Lists

/-! ## The search -/

variable {pattern t : Text}

theorem startsWith_iff : startsWith t pattern = true ↔ OccursAt pattern t 0 := by
  rw [startsWith, Option.isSome_iff_exists, occursAt_zero_iff]
  simp only [dropHead?_eq_some_iff]

/-- **The search finds the first occurrence.** -/
theorem firstAt_of_cut? {before after : Text} (h : cut? pattern t = some (before, after)) :
    t = before ++ (pattern ++ after) ∧ FirstAt pattern t before.length := by
  induction t generalizing before with
  | nil =>
      unfold cut? at h
      split at h
      · next hpattern =>
          obtain ⟨rfl, rfl⟩ := Prod.mk.inj (Option.some.inj h)
          subst hpattern
          exact ⟨rfl, firstAt_zero []⟩
      · cases h
  | cons c t ih =>
      unfold cut? at h
      split at h
      · next rest hrest =>
          obtain ⟨rfl, rfl⟩ := Prod.mk.inj (Option.some.inj h)
          rw [dropHead?_eq_some_iff] at hrest
          rw [hrest]
          exact ⟨rfl, firstAt_zero rest⟩
      · next hnone =>
          obtain ⟨⟨before', after'⟩, hcut, heq⟩ := Option.map_eq_some_iff.1 h
          obtain ⟨rfl, rfl⟩ := Prod.mk.inj heq
          obtain ⟨ht, hfirst⟩ := ih hcut
          have hhead : ¬ OccursAt pattern (c :: t) 0 := by
            rw [← startsWith_iff, startsWith, hnone]
            exact Bool.false_ne_true
          exact ⟨congrArg (c :: ·) ht, hfirst.cons hhead⟩

/-- What is not found is not there. -/
theorem not_occursAt_of_cut? (h : cut? pattern t = none) (i : Nat) : ¬ OccursAt pattern t i := by
  induction t generalizing i with
  | nil =>
      rintro ⟨before, after, heq, -⟩
      obtain ⟨-, htail⟩ := List.append_eq_nil_iff.1 heq.symm
      obtain ⟨rfl, -⟩ := List.append_eq_nil_iff.1 htail
      cases h
  | cons c t ih =>
      unfold cut? at h
      split at h
      · cases h
      · next hnone =>
          cases i with
          | zero =>
              rw [← startsWith_iff, startsWith, hnone]
              exact Bool.false_ne_true
          | succ i =>
              rw [occursAt_succ_iff]
              exact ih (Option.map_eq_none_iff.1 h) i

/-! ## The pieces -/

/-- What is passed over of an occurrence is no part of a piece. -/
theorem piecesAfter_eq_drop (pattern : Text) (skip : Nat) (t : Text) :
    piecesAfter pattern skip t = piecesAfter pattern 0 (t.drop skip) := by
  induction t generalizing skip with
  | nil => rw [List.drop_nil, piecesAfter, piecesAfter]
  | cons c t ih =>
      cases skip with
      | zero => rfl
      | succ skip => rw [piecesAfter, ih, List.drop_succ_cons]

theorem Divides.cons {c : Char} {pieces : List Text} (h : Divides pattern t pieces)
    (hc : ¬ OccursAt pattern (c :: t) 0) : Divides pattern (c :: t) (consPiece c pieces) := by
  cases h with
  | last absent =>
      refine .last fun i => ?_
      cases i with
      | zero => exact hc
      | succ i => exact mt occursAt_succ_iff.1 (absent i)
  | @next before after pieces first rest =>
      have hnext :
          Divides pattern ((c :: before) ++ (pattern ++ after)) ((c :: before) :: pieces) :=
        .next (first.cons hc) rest
      exact hnext

/-- **The pieces stand between first occurrences.** -/
theorem divides_piecesAfter (hp : pattern ≠ []) (t : Text) :
    Divides pattern t (piecesAfter pattern 0 t) := by
  have hpos := List.length_pos_of_ne_nil hp
  induction hn : t.length using Nat.strongRecOn generalizing t with
  | _ n ih =>
    subst hn
    cases t with
    | nil =>
        refine .last fun i => ?_
        rintro ⟨before, after, heq, -⟩
        obtain ⟨-, htail⟩ := List.append_eq_nil_iff.1 heq.symm
        exact hp (List.append_eq_nil_iff.1 htail).1
    | cons c t =>
        rw [piecesAfter]
        split
        · next hstart =>
            obtain ⟨after, hafter⟩ := occursAt_zero_iff.1 (startsWith_iff.1 hstart)
            have hlength := congrArg List.length hafter
            rw [List.length_append, List.length_cons] at hlength
            have hdrop : t.drop (pattern.length - 1) = after := by
              have := congrArg (List.drop pattern.length) hafter
              rwa [List.drop_left, ← Nat.sub_add_cancel hpos, List.drop_succ_cons] at this
            rw [piecesAfter_eq_drop, hdrop, hafter]
            have hrest := ih after.length (by rw [List.length_cons]; omega) after rfl
            have hnext : Divides pattern ([] ++ (pattern ++ after)) ([] :: _) :=
              .next (firstAt_zero after) hrest
            exact hnext
        · next hstart =>
            exact (ih t.length (Nat.lt_succ_self _) t rfl).cons (mt startsWith_iff.2 hstart)

theorem divides_pieces (hp : pattern ≠ []) (t : Text) : Divides pattern t (pieces pattern t) := by
  rw [pieces, if_neg hp]
  exact divides_piecesAfter hp t

/-! ## Bytes -/

/-- **The bytes of a pattern are found where the pattern stands.** -/
theorem occursAt_utf8_iff (hp : pattern ≠ []) {k : Nat} :
    OccursAt (utf8 pattern) (utf8 t) k ↔
      ∃ i, OccursAt pattern t i ∧ byteLength (t.take i) = k := by
  constructor
  · rintro ⟨before, after, heq, rfl⟩
    obtain ⟨s, rest, rfl, rfl⟩ := Context.exists_of_utf8_eq_append hp heq
    refine ⟨s.length, ⟨s, rest, List.append_assoc s pattern rest, rfl⟩, ?_⟩
    rw [List.append_assoc, List.take_left, length_utf8]
  · rintro ⟨i, ⟨s, rest, rfl, rfl⟩, rfl⟩
    refine ⟨utf8 s, utf8 rest, ?_, ?_⟩
    · rw [utf8_append, utf8_append]
    · rw [List.take_left, length_utf8]

theorem byteLength_take_le {i j : Nat} (h : i ≤ j) (t : Text) :
    byteLength (t.take i) ≤ byteLength (t.take j) := by
  have hsplit : t.take j = t.take i ++ (t.take j).drop i := by
    have htake : (t.take j).take i = t.take i := by rw [List.take_take, Nat.min_eq_left h]
    rw [← htake, List.take_append_drop]
  rw [hsplit, byteLength_append]
  exact Nat.le_add_right _ _

/-- So the first place of the bytes is that of the characters. The empty pattern is found at the
start. -/
theorem FirstAt.utf8 {i : Nat} (h : FirstAt pattern t i) :
    FirstAt (utf8 pattern) (utf8 t) (byteLength (t.take i)) := by
  by_cases hp : pattern = []
  · subst hp
    have hzero : i = 0 := by
      by_contra hne
      exact h.least 0 (Nat.pos_of_ne_zero hne) (occursAt_zero_iff.2 ⟨t, rfl⟩)
    subst hzero
    exact firstAt_zero (utf8 t)
  · refine ⟨(occursAt_utf8_iff hp).2 ⟨i, h.occurs, rfl⟩, fun k hk hoccurs => ?_⟩
    obtain ⟨j, hj, rfl⟩ := (occursAt_utf8_iff hp).1 hoccurs
    have hlt : j < i := by
      by_contra hle
      exact absurd (byteLength_take_le (Nat.not_lt.1 hle) t) (Nat.not_le.2 hk)
    exact h.least j hlt hj

/-- And the pieces of the bytes are the bytes of the pieces. -/
theorem Divides.utf8 (hp : pattern ≠ []) {pieces : List Text} (h : Divides pattern t pieces) :
    Divides (utf8 pattern) (utf8 t) (pieces.map utf8) := by
  induction h with
  | last absent =>
      refine .last fun k hoccurs => ?_
      obtain ⟨i, hi, -⟩ := (occursAt_utf8_iff hp).1 hoccurs
      exact absent i hi
  | @next before after pieces first _ ih =>
      have hfirst := first.utf8
      rw [List.take_left, ← length_utf8, utf8_append, utf8_append] at hfirst
      rw [utf8_append, utf8_append, List.map_cons]
      exact .next hfirst ih

end Stencil.Text
