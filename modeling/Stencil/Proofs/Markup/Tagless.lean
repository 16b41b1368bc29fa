import Stencil.Proofs.Markup.Leftover

/-!
# Markup without tags of partials

In tagless markup no unescaped `<` stands before the name of a partial, so that it has
no partial tags (`partialInvocations_eq_nil_iff`) and no scan for a partial finds
anything (`untagged_of_tagless`).
-/

namespace Stencil.Markup

open Partial (isValidName isNameChar_of_valid)

/-- No unescaped `<` of the text starts a partial tag. -/
def Tagless (escaped : Bool) (t : Text) : Prop :=
  ∀ before after, t = before ++ '<' :: after → pending escaped before = false →
    invokedName? after = none

variable {escaped : Bool} {c : Char} {t : Text}

theorem tagless_nil (escaped : Bool) : Tagless escaped [] := by
  intro before after h
  simp at h

theorem tagless_cons :
    Tagless escaped (c :: t) ↔
      (c = '<' → escaped = false → invokedName? t = none) ∧
        Tagless (pendingAfter escaped c) t :=
  forall_split_cons

/-- A character that is no `<` matters only for the one after it. -/
theorem tagless_cons_of_ne (h : c ≠ '<') :
    Tagless escaped (c :: t) ↔ Tagless (pendingAfter escaped c) t := by
  rw [tagless_cons]
  exact and_iff_right fun heq => absurd heq h

theorem tagless_of_free (h : Free '<' escaped t) : Tagless escaped t := by
  intro before after heq hp
  rw [h before after heq] at hp
  exact Bool.noConfusion hp

theorem partialInvocations_eq_nil_iff : partialInvocations t = [] ↔ Tagless false t := by
  have from_offset : ∀ escaped offset,
      partialInvocationsFrom escaped offset t = [] ↔ Tagless escaped t := by
    induction t with
    | nil => exact fun escaped _ => ⟨fun _ => tagless_nil escaped, fun _ => rfl⟩
    | cons c t ih =>
        intro escaped offset
        rw [partialInvocationsFrom, tagless_cons, ← ih _ (offset + c.utf8Size)]
        split
        · next hc =>
            rw [Bool.and_eq_true, decide_eq_true_eq, Bool.not_eq_true'] at hc
            obtain ⟨rfl, rfl⟩ := hc
            cases invokedName? t <;> simp
        · next hc =>
            refine (and_iff_right fun hlt he => ?_).symm
            exact absurd (by simp [hlt, he]) hc
  exact from_offset false 0

/-- The name of a partial in a tag is an invoked name. -/
theorem invokedName?_of_name {name : Text} (h : isValidName name = true) (rest : Text) :
    invokedName? ('_' :: (name ++ rest)) ≠ none := by
  cases name with
  | nil => exact absurd h (by simp [isValidName])
  | cons c name =>
      rw [isValidName, Bool.and_eq_true] at h
      simp [invokedName?, h.1]

/-- **No scan for a partial finds a tag in tagless markup.** -/
theorem untagged_of_tagless {name : Text} (hname : isValidName name = true)
    (h : Tagless escaped t) : Untagged (some ('_' :: name)) escaped t := by
  intro before after heq hp hkind
  have hstart := startsName_of_opening hkind
  rw [startsName, Option.any_eq_true] at hstart
  obtain ⟨rest, hdrop, -⟩ := hstart
  obtain rfl := Text.dropHead?_eq_some_iff.1 hdrop
  exact invokedName?_of_name hname rest (h before _ heq hp)

end Stencil.Markup
