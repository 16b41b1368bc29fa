import Stencil.Proofs.Markup.Tagless
import Stencil.Proofs.Markup.Tiling
import Mathlib.Data.List.Flatten

/-!
# Markup without escape sequences

Resolving escapes only drops backslashes, so a text without escape sequences is one that
`unescape` leaves as it is (`unescape_eq_self_iff`), and one that it leaves as long as it
was. Of a scan whose gaps are such texts, values stand between the gaps as they are
written (`resolve_eq_weave_iff`).

A text that is resolved and then escaped as a value has its remaining backslashes
doubled, and no other character of it is escaped. Where no `<` was, that makes no partial
tag (`tagless_escapeText_unescape`).
-/

namespace Stencil.Markup

variable {c d : Char} {escaped : Bool} {t : Text}

/-- Resolving escapes drops backslashes, and nothing else. -/
theorem unescape_sublist (t : Text) : (unescape t).Sublist t := by
  fun_induction unescape t with
  | case1 => exact .refl _
  | case2 c => exact .refl _
  | case3 c d t _ ih => exact (ih.cons_cons d).cons c
  | case4 c d t _ ih => exact ih.cons_cons c

/-- **A text without escape sequences** is one in which no backslash stands before a
character of a meaning. -/
theorem unescape_eq_self_iff :
    unescape t = t ↔ ∀ d, isEscapable d = true → ¬ ['\\', d] <:+: t := by
  fun_induction unescape t with
  | case1 => simp
  | case2 c =>
      refine ⟨fun _ d _ h => ?_, fun _ => rfl⟩
      exact absurd h.length_le (by simp)
  | case3 c d t hcd _ =>
      rw [Bool.and_eq_true, decide_eq_true_eq] at hcd
      obtain ⟨rfl, hd⟩ := hcd
      constructor
      · intro h
        have hlength := congrArg List.length h
        have hle := (unescape_sublist t).length_le
        simp only [List.length_cons] at hlength
        omega
      · intro h
        exact absurd ⟨[], t, rfl⟩ (h d hd)
  | case4 c d t hcd ih =>
      rw [List.cons.injEq, and_iff_right rfl, ih]
      refine forall₂_congr fun e he => not_congr ?_
      refine (List.infix_cons_iff.trans (or_iff_right ?_)).symm
      rintro ⟨rest, hrest⟩
      obtain ⟨rfl, h⟩ := List.cons.inj hrest
      obtain ⟨rfl, -⟩ := List.cons.inj h
      exact hcd (by simp [he])

/-! ## Characters that are not escaped -/

/-- No character of the text like this one is escaped. -/
def Bare (d : Char) (escaped : Bool) (t : Text) : Prop :=
  ∀ before after, t = before ++ d :: after → pending escaped before = false

theorem bare_nil (d : Char) (escaped : Bool) : Bare d escaped [] := by
  intro before after h
  simp at h

theorem bare_cons :
    Bare d escaped (c :: t) ↔ (c = d → escaped = false) ∧ Bare d (pendingAfter escaped c) t :=
  forall_split_cons

theorem bare_append {s : Text} :
    Bare d escaped (s ++ t) ↔ Bare d escaped s ∧ Bare d (pending escaped s) t := by
  induction s generalizing escaped with
  | nil => exact ⟨fun h => ⟨bare_nil d escaped, h⟩, fun h => h.2⟩
  | cons c s ih => rw [List.cons_append, bare_cons, bare_cons, ih, and_assoc]; rfl

/-- In a value only backslashes are escaped. -/
theorem bare_escapeText (hd : d ≠ '\\') (t : Text) : Bare d false (escapeText t) := by
  induction t with
  | nil => exact bare_nil d false
  | cons c t ih =>
      rw [escapeText_cons, bare_append]
      by_cases h : c = '\\'
      · rw [if_pos h]
        refine ⟨?_, by simpa [pending] using ih⟩
        simp [bare_cons, Ne.symm hd, bare_nil]
      · rw [if_neg h]
        refine ⟨?_, by simpa [pending, h] using ih⟩
        simp [bare_cons, bare_nil]

/-- No character of a meaning is escaped in a text without escape sequences. -/
theorem bare_of_unescape_eq (hd : isEscapable d = true) (hne : d ≠ '\\') (h : unescape t = t) :
    Bare d false t := by
  fun_induction unescape t with
  | case1 => exact bare_nil d false
  | case2 c => exact bare_cons.2 ⟨fun _ => rfl, bare_nil d _⟩
  | case3 c e t hce ih =>
      -- a sequence would have been resolved to something shorter
      have hlength := congrArg List.length h
      have hle := (unescape_sublist t).length_le
      simp only [List.length_cons] at hlength
      omega
  | case4 c e t hce ih =>
      have hrest := ih (List.cons.inj h).2
      refine bare_cons.2 ⟨fun _ => rfl, ?_⟩
      by_cases hc : c = '\\'
      · have he : ¬ isEscapable e = true := fun he => hce (by simp [hc, he])
        have hed : e ≠ d := by
          rintro rfl
          exact he hd
        have heb : e ≠ '\\' := ne_backslash_of_not_escapable he
        rw [bare_cons, pendingAfter_of_ne heb] at hrest ⊢
        exact ⟨fun heq => absurd heq hed, hrest.2⟩
      · rwa [pendingAfter_of_ne hc]

/-! ## Resolved, and escaped as a value -/

/-- What a backslash starts is resolved to a character with a meaning first. -/
theorem unescape_backslash_eq_cons (t : Text) :
    ∃ e rest, isEscapable e = true ∧ unescape ('\\' :: t) = e :: rest := by
  cases t with
  | nil => exact ⟨'\\', [], rfl, rfl⟩
  | cons d t =>
      by_cases hd : isEscapable d = true
      · exact ⟨d, unescape t, hd, unescape_backslash_pair hd t⟩
      · refine ⟨'\\', unescape (d :: t), rfl, ?_⟩
        rw [unescape, if_neg (by simp [hd])]

/-- What a character without a meaning starts, when a text is resolved and escaped
again, it starts in the text. -/
theorem escapeText_unescape_eq_cons (hc : isEscapable c = false) {rest : Text}
    (h : escapeText (unescape t) = c :: rest) :
    ∃ t', t = c :: t' ∧ rest = escapeText (unescape t') := by
  cases t with
  | nil => simp [unescape] at h
  | cons a t =>
      by_cases ha : a = '\\'
      · obtain ⟨e, u, he, hu⟩ := unescape_backslash_eq_cons t
        have heq : e = c := by
          rw [ha, hu, escapeText_cons] at h
          split at h
          · next hb => rw [hb, (List.cons.inj h).1]
          · exact (List.cons.inj h).1
        rw [heq, hc] at he
        exact Bool.noConfusion he
      · rw [unescape_cons_of_ne ha, escapeText_cons, if_neg ha] at h
        obtain ⟨rfl, rfl⟩ := List.cons.inj h
        exact ⟨t, rfl, rfl⟩

theorem invokedName?_ne_none_iff :
    invokedName? t ≠ none ↔ ∃ c rest, isLetter c = true ∧ t = '_' :: c :: rest := by
  constructor
  · intro h
    unfold invokedName? at h
    split at h
    · next c rest =>
        split at h
        · next hc => exact ⟨c, rest, hc, rfl⟩
        · exact absurd rfl h
    · exact absurd rfl h
  · rintro ⟨c, rest, hc, rfl⟩
    simp [invokedName?, hc]

theorem not_escapable_of_isNameChar (h : isNameChar c = true) : isEscapable c = false := by
  simp [isEscapable, ne_of_isNameChar h (d := '{') rfl, ne_of_isNameChar h (d := '}') rfl,
    ne_of_isNameChar h (d := '<') rfl, ne_of_isNameChar h (d := '>') rfl,
    ne_of_isNameChar h (d := '\\') rfl]

theorem invokedName?_escapeText_unescape (h : invokedName? t = none) :
    invokedName? (escapeText (unescape t)) = none := by
  by_contra hne
  obtain ⟨c, rest, hc, heq⟩ := invokedName?_ne_none_iff.1 hne
  obtain ⟨t, rfl, hrest⟩ := escapeText_unescape_eq_cons rfl heq
  have hname : isNameChar c = true := by
    have halpha : c.isAlpha = true := hc
    simp [isNameChar, Char.isAlphanum, halpha]
  obtain ⟨t, rfl, -⟩ := escapeText_unescape_eq_cons (not_escapable_of_isNameChar hname) hrest.symm
  exact invokedName?_ne_none_iff.2 ⟨c, t, hc, rfl⟩ h

/-- **Where no `<` was escaped, none is a tag once the escapes are resolved.** -/
theorem tagless_escapeText_unescape (hbare : Bare '<' false t) (h : Tagless false t) :
    Tagless false (escapeText (unescape t)) := by
  fun_induction unescape t with
  | case1 => exact h
  | case2 c =>
      rw [escapeText_cons]
      split
      · exact tagless_of_free (free_of_not_mem (by decide) false)
      · exact h
  | case3 c d t hcd ih =>
      rw [Bool.and_eq_true, decide_eq_true_eq] at hcd
      obtain ⟨rfl, hd⟩ := hcd
      have hlt : d ≠ '<' := fun heq =>
        Bool.noConfusion ((bare_cons.1 (bare_cons.1 hbare).2).1 heq)
      have hrest := ih (bare_cons.1 (bare_cons.1 hbare).2).2
        ((tagless_cons_of_ne hlt).1 ((tagless_cons_of_ne (by decide)).1 h))
      rw [escapeText_cons]
      split
      · exact (tagless_cons_of_ne (by decide)).2 ((tagless_cons_of_ne (by decide)).2 hrest)
      · next hb =>
          rw [List.singleton_append, tagless_cons_of_ne hlt, pendingAfter_of_ne hb]
          exact hrest
  | case4 c d t hcd ih =>
      rw [escapeText_cons]
      split
      · next hb =>
          -- a backslash that is no part of a sequence: `d` is plain, escaped or not
          subst hb
          have hd : ¬ isEscapable d = true := fun hd => hcd (by simp [hd])
          have hlt : d ≠ '<' := by
            rintro rfl
            exact hd rfl
          have hback : d ≠ '\\' := ne_backslash_of_not_escapable hd
          have hbare' := (bare_cons.1 (bare_cons.1 hbare).2).2
          have htagless := (tagless_cons_of_ne hlt).1 ((tagless_cons_of_ne (by decide)).1 h)
          rw [pendingAfter_of_ne hback] at hbare' htagless
          have hrest := ih
            (bare_cons.2 ⟨fun _ => rfl, by rwa [pendingAfter_of_ne hback]⟩)
            ((tagless_cons_of_ne hlt).2 (by rwa [pendingAfter_of_ne hback]))
          exact (tagless_cons_of_ne (by decide)).2 ((tagless_cons_of_ne (by decide)).2 hrest)
      · next hb =>
          rw [tagless_cons, pendingAfter_of_ne hb] at h
          rw [bare_cons, pendingAfter_of_ne hb] at hbare
          rw [List.singleton_append, tagless_cons, pendingAfter_of_ne hb]
          exact ⟨fun hlt he => invokedName?_escapeText_unescape (h.1 hlt he), ih hbare.2 h.2⟩

/-! ## Gaps without escape sequences -/

/-- No escape sequence stands outside the regions. -/
structure Scan.Verbatim (s : Scan) : Prop where
  gaps : ∀ r ∈ s.regions, unescape r.gap = r.gap
  tail : unescape s.tail = s.tail

instance (s : Scan) : Decidable s.Verbatim :=
  decidable_of_iff ((∀ r ∈ s.regions, unescape r.gap = r.gap) ∧ unescape s.tail = s.tail)
    ⟨fun h => ⟨h.1, h.2⟩, fun h => ⟨h.gaps, h.tail⟩⟩

/-- Of sublists, one after another, each is all of its list if together they are. -/
theorem append_eq_append_iff_of_sublist {s s' t t' : Text} (hs : s'.Sublist s) (ht : t'.Sublist t) :
    s' ++ t' = s ++ t ↔ s' = s ∧ t' = t := by
  refine ⟨fun h => ?_, fun ⟨hs, ht⟩ => by rw [hs, ht]⟩
  have hlength := congrArg List.length h
  have hle := hs.length_le
  have hle' := ht.length_le
  rw [List.length_append, List.length_append] at hlength
  exact ⟨hs.eq_of_length (by omega), ht.eq_of_length (by omega)⟩

/-- **What is resolved is what is written exactly if there is nothing to resolve.** -/
theorem resolve_eq_weave_iff {s : Scan} {values : List Text}
    (h : s.regions.length = values.length) :
    s.resolve values = s.weave values ↔ s.Verbatim := by
  have pieces_sublist : ∀ pieces : List (Region × Text),
      (pieces.flatMap fun p => unescape p.1.gap ++ p.2).Sublist
        (pieces.flatMap fun p => p.1.gap ++ p.2) := fun pieces =>
    List.Sublist.flatMap_right pieces fun p _ => (unescape_sublist p.1.gap).append_right p.2
  have pieces_eq : ∀ pieces : List (Region × Text),
      (pieces.flatMap fun p => unescape p.1.gap ++ p.2) =
        (pieces.flatMap fun p => p.1.gap ++ p.2) ↔
      ∀ r ∈ pieces.map Prod.fst, unescape r.gap = r.gap := by
    intro pieces
    induction pieces with
    | nil => simp
    | cons p pieces ih =>
        have hhead := (unescape_sublist p.1.gap).append_right p.2
        rw [List.flatMap_cons, List.flatMap_cons,
          append_eq_append_iff_of_sublist hhead (pieces_sublist pieces), List.append_left_inj, ih,
          List.map_cons, List.forall_mem_cons]
  have hregions : (s.regions.zip values).map Prod.fst = s.regions :=
    List.map_fst_zip (Nat.le_of_eq h)
  rw [Scan.resolve, Scan.weave,
    append_eq_append_iff_of_sublist (pieces_sublist _) (unescape_sublist s.tail), pieces_eq,
    hregions]
  exact ⟨fun h => ⟨h.1, h.2⟩, fun h => ⟨h.gaps, h.tail⟩⟩

/-- Then no character of a meaning but backslashes is escaped, between the values. -/
theorem bare_weave {opening : Char} {whole : Region → Text} {s : Scan} {offset : Nat}
    (htiles : Tiling opening whole s.tail offset s.regions t) (h : s.Verbatim)
    (hd : isEscapable d = true) (hne : d ≠ '\\') (values : List Text) :
    Bare d false (s.weave (values.map escapeText)) := by
  have htail := bare_of_unescape_eq hd hne h.tail
  have hgaps := h.gaps
  unfold Scan.weave
  generalize s.regions = rs at htiles hgaps
  induction htiles generalizing values with
  | done offset => exact htail
  | @region offset r rs rest head unescaped closed start stop others ih =>
      cases values with
      | nil => exact htail
      | cons v values =>
          rw [List.forall_mem_cons] at hgaps
          simp only [List.map_cons, List.zip_cons_cons, List.flatMap_cons, List.append_assoc]
          rw [bare_append, bare_append, unescaped, pending_escapeText]
          exact ⟨bare_of_unescape_eq hd hne hgaps.1, bare_escapeText hne v, ih values hgaps.2⟩

/-- The values between such gaps, escaped all together, spell no partial tag if they
spell none when they are escaped one by one. -/
theorem tagless_escapeText_weave {opening : Char} {whole : Region → Text} {s : Scan} {offset : Nat}
    (htiles : Tiling opening whole s.tail offset s.regions t) (h : s.Verbatim) {values : List Text}
    (hlength : s.regions.length = values.length)
    (htagless : Tagless false (s.weave (values.map escapeText))) :
    Tagless false (escapeText (s.weave values)) := by
  rw [← (resolve_eq_weave_iff hlength).2 h, ← unescape_weave htiles]
  exact tagless_escapeText_unescape (bare_weave htiles h rfl (by decide) values) htagless

end Stencil.Markup
