import Stencil.Proofs.Markup.Tags

/-!
# Tags that a scan leaves alone

A scan for the tags of a name that has found nothing, and in which nothing stays
open, has met no opening tag of that name (`untagged_of_scanTags`). A partial tag as
`partialInvocations` lists it is an opening tag of its name unless its name goes on
in a way that names do not (`follows_name_of_untagged`). The two ways to look for
partial tags so differ in nothing else.
-/

namespace Stencil.Markup

variable {filter : Option Text} {escaped : Bool} {t : Text}

/-! ## What an open fragment leads to -/

namespace TagPhase

/-- Whether the machine is inside a fragment. -/
def IsOpen : TagPhase → Prop
  | outside _ => False
  | tag .. | between .. => True

theorem isOpen_keep {p : TagPhase} (h : p.IsOpen) (c : Char) : (p.keep c).IsOpen := by
  cases p with
  | outside gap => exact h
  | tag gap start depth kind body => trivial
  | between gap start depth body => trivial

/-- A fragment stays open until it is complete. -/
theorem step_isOpen {p : TagPhase} (h : p.IsOpen) (filter : Option Text) (offset : Nat) (c : Char)
    (rest : Text) :
    (∃ q, p.step filter offset c rest = (q, none) ∧ q.IsOpen) ∨
      ∃ q r, p.step filter offset c rest = (q, some r) := by
  cases p with
  | outside gap => exact absurd h id
  | between gap start depth body =>
      refine Or.inl ?_
      cases hk : (if c = '<' then tagKind? filter rest else none) with
      | none => exact ⟨between gap start depth (c :: body), by simp only [step, hk], trivial⟩
      | some kind => exact ⟨tag gap start depth kind (c :: body), by simp only [step, hk], trivial⟩
  | tag gap start depth kind body =>
      by_cases hc : c = '>'
      · cases hd : depthAfter kind body depth with
        | zero => exact Or.inr ⟨_, _, by simp only [step, hc, hd, if_true]; rfl⟩
        | succ depth' =>
            exact Or.inl ⟨between gap start (depth' + 1) (c :: body), by simp [step, hc, hd],
              trivial⟩
      · exact Or.inl ⟨tag gap start depth kind (c :: body), by simp [step, hc], trivial⟩

end TagPhase

/-- From inside a fragment a scan finds one, or ends with one open. -/
theorem scanTagsFrom_of_isOpen {p : TagPhase} (h : p.IsOpen) (offset : Nat) :
    (scanTagsFrom filter escaped offset p t).regions ≠ [] ∨
      (scanTagsFrom filter escaped offset p t).unterminated ≠ none := by
  induction t generalizing escaped offset p with
  | nil =>
      refine Or.inr ?_
      cases p with
      | outside gap => exact absurd h id
      | tag gap start depth kind body => simp [scanTagsFrom, TagPhase.finish]
      | between gap start depth body => simp [scanTagsFrom, TagPhase.finish]
  | cons c t ih =>
      cases escaped with
      | true =>
          rw [scanTagsFrom, if_pos rfl]
          exact ih (TagPhase.isOpen_keep h c) _
      | false =>
          rcases TagPhase.step_isOpen h filter offset c t with ⟨q, hstep, hq⟩ | ⟨q, r, hstep⟩
          · rw [scanTagsFrom_step hstep]
            exact ih hq _
          · rw [scanTagsFrom_step hstep]
            exact Or.inl (List.cons_ne_nil _ _)

/-- **A scan that finds nothing has met no opening tag.** -/
theorem untagged_of_scanTags (hregions : (scanTags filter t).regions = [])
    (hterm : (scanTags filter t).unterminated = none) : Untagged filter false t := by
  have from_outside : ∀ escaped offset gap,
      (scanTagsFrom filter escaped offset (.outside gap) t).regions = [] →
      (scanTagsFrom filter escaped offset (.outside gap) t).unterminated = none →
      Untagged filter escaped t := by
    clear hregions hterm
    induction t with
    | nil =>
        intro escaped offset gap _ _ before after h
        simp at h
    | cons c t ih =>
        intro escaped offset gap hregions hterm
        rw [untagged_cons]
        by_cases hopens : c = '<' ∧ escaped = false ∧ tagKind? filter t = some .opening
        -- the scan would be inside a fragment from here on
        · obtain ⟨rfl, rfl, hkind⟩ := hopens
          have hstep : (TagPhase.outside gap).step filter offset '<' t =
              (.tag gap offset 0 .opening ['<'], none) := by
            simp [TagPhase.step, hkind]
          rw [scanTagsFrom_step hstep] at hregions hterm
          rcases scanTagsFrom_of_isOpen (p := .tag gap offset 0 .opening ['<']) trivial
            (offset + Char.utf8Size '<') with h | h
          · exact absurd hregions h
          · exact absurd hterm h
        · have hstep : (if escaped then ((TagPhase.outside gap).keep c, none)
              else (TagPhase.outside gap).step filter offset c t) =
              (TagPhase.outside (c :: gap), none) := by
            cases escaped with
            | true => rfl
            | false =>
                have hno : ¬ (c = '<' ∧ tagKind? filter t = some .opening) := by
                  rintro ⟨hc, hkind⟩
                  exact hopens ⟨hc, rfl, hkind⟩
                simp only [Bool.false_eq_true, if_false, TagPhase.step, Bool.and_eq_true,
                  decide_eq_true_eq]
                rw [if_neg hno]
          rw [scanTagsFrom, hstep] at hregions hterm
          refine ⟨fun hc he hkind => hopens ⟨hc, he, hkind⟩, ?_⟩
          exact ih _ _ _ hregions hterm
  exact from_outside false 0 [] hregions hterm

/-! ## Partial tags -/

/-- The name of a partial tag reaches as far as name characters do. -/
theorem invokedName?_eq_some {name : Text} (h : invokedName? t = some name) :
    ∃ rest, t = '_' :: (name ++ rest) := by
  unfold invokedName? at h
  split at h
  · next c rest =>
      split at h
      · obtain rfl := Option.some.inj h
        refine ⟨rest.dropWhile isNameChar, ?_⟩
        rw [List.cons_append, List.takeWhile_append_dropWhile]
      · exact absurd h (by simp)
  · exact absurd h (by simp)

/-- A partial tag stands where it is said to, and is not escaped. -/
theorem invokedName?_of_mem {i : PartialInvocation} (hi : i ∈ partialInvocations t) :
    ∃ before after, t = before ++ '<' :: after ∧ pending false before = false ∧
      i.offset = Text.byteLength before ∧ invokedName? after = some i.name := by
  have from_offset : ∀ escaped offset, i ∈ partialInvocationsFrom escaped offset t →
      ∃ before after, t = before ++ '<' :: after ∧ pending escaped before = false ∧
        i.offset = offset + Text.byteLength before ∧ invokedName? after = some i.name := by
    clear hi
    induction t with
    | nil => exact fun _ _ h => absurd h (by simp [partialInvocationsFrom])
    | cons c t ih =>
        intro escaped offset h
        have later : i ∈ partialInvocationsFrom (pendingAfter escaped c) (offset + c.utf8Size) t →
            ∃ before after, c :: t = before ++ '<' :: after ∧ pending escaped before = false ∧
              i.offset = offset + Text.byteLength before ∧ invokedName? after = some i.name := by
          intro hlater
          obtain ⟨before, after, rfl, hpending, hoffset, hname⟩ := ih _ _ hlater
          refine ⟨c :: before, after, rfl, hpending, ?_, hname⟩
          rw [Text.byteLength_cons]
          omega
        rw [partialInvocationsFrom] at h
        split at h
        · next hc =>
            rw [Bool.and_eq_true, decide_eq_true_eq, Bool.not_eq_true'] at hc
            obtain ⟨rfl, rfl⟩ := hc
            split at h
            · next name hname =>
                rcases List.mem_cons.1 h with rfl | h
                · exact ⟨[], t, rfl, rfl, rfl, hname⟩
                · exact later h
            · exact later h
        · exact later h
  obtain ⟨before, after, ht, hpending, hoffset, hname⟩ := from_offset false 0 hi
  exact ⟨before, after, ht, hpending, by omega, hname⟩

/-- What follows a name in markup without an opening tag of that name: something
does, and no tag name ends before it. -/
theorem follows_name_of_untagged {name before rest : Text}
    (h : Untagged (some ('_' :: name)) false (before ++ '<' :: '_' :: (name ++ rest)))
    (hpending : pending false before = false) :
    ∃ c after, rest = c :: after ∧ Text.isBlank c = false ∧ c ≠ '/' ∧ c ≠ '>' := by
  have hkind := h before _ rfl hpending
  have hdrop : Text.dropHead? ('_' :: name) ('_' :: (name ++ rest)) = some rest :=
    Text.dropHead?_eq_some_iff.2 rfl
  have hends : endsName rest = false := by
    cases hends : endsName rest with
    | false => rfl
    | true => exact absurd (by simp [tagKind?, startsName, hdrop, hends]) hkind
  cases rest with
  | nil => exact absurd hends (by simp [endsName])
  | cons c after =>
      simp only [endsName, Bool.or_eq_false_iff, decide_eq_false_iff_not] at hends
      exact ⟨c, after, rfl, hends.1.1, hends.1.2, hends.2⟩

end Stencil.Markup
