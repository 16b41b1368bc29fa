import Stencil.Markup.Brace
import Stencil.Markup.Tag
import Stencil.Proofs.Markup.Escape

/-!
# Text that a scanner passes over

In each phase a scanner waits for certain unescaped characters and takes in all
others. Over a text without the ones it waits for, it only adds the text to what
it keeps (`scanBracesFrom_keepAll`, `scanTagsFrom_keeping`). In particular a text
without an unescaped opening delimiter has no regions, and neither has a text in
which no unescaped `<` starts a tag that passes the filter.
-/

namespace Stencil.Markup

/-- The places of a character in a text are the start, if it stands there, and its places
in the rest. -/
theorem forall_split_cons {c d : Char} {t : Text} {P : Text → Text → Prop} :
    (∀ before after, c :: t = before ++ d :: after → P before after) ↔
      (c = d → P [] t) ∧ ∀ before after, t = before ++ d :: after → P (c :: before) after := by
  constructor
  · intro h
    refine ⟨?_, ?_⟩
    · rintro rfl
      exact h [] t rfl
    · intro before after ht
      exact h (c :: before) after (by rw [ht]; rfl)
  · rintro ⟨hc, ht⟩ before after heq
    cases before with
    | nil =>
        obtain ⟨rfl, rfl⟩ := List.cons.inj heq
        exact hc rfl
    | cons c' before =>
        obtain ⟨rfl, rfl⟩ := List.cons.inj heq
        exact ht before after rfl

/-- No unescaped character of the text, read from the flag on, is like this one. -/
def Free (d : Char) (escaped : Bool) (t : Text) : Prop :=
  ∀ before after, t = before ++ d :: after → pending escaped before = true

theorem free_nil (d : Char) (escaped : Bool) : Free d escaped [] := by
  intro before after h
  simp at h

theorem free_cons {d c : Char} {escaped : Bool} {t : Text} :
    Free d escaped (c :: t) ↔ (c = d → escaped = true) ∧ Free d (pendingAfter escaped c) t :=
  forall_split_cons

instance decidableFree (d : Char) : ∀ escaped t, Decidable (Free d escaped t)
  | escaped, [] => .isTrue (free_nil d escaped)
  | escaped, c :: t =>
      have := decidableFree d (pendingAfter escaped c) t
      decidable_of_iff _ free_cons.symm

theorem free_append {d : Char} {escaped : Bool} {s t : Text} :
    Free d escaped (s ++ t) ↔ Free d escaped s ∧ Free d (pending escaped s) t := by
  induction s generalizing escaped with
  | nil => exact ⟨fun h => ⟨free_nil d escaped, h⟩, fun h => h.2⟩
  | cons c s ih => rw [List.cons_append, free_cons, free_cons, ih, and_assoc]; rfl

/-- A seam at which no escape sequence comes about leaves every delimiter as it is. -/
theorem free_append_of_not_joins {d : Char} {s t : Text} (hs : Free d false s)
    (ht : Free d false t) (h : ¬ Joins s t) : Free d false (s ++ t) := by
  refine free_append.2 ⟨hs, ?_⟩
  cases hpend : pending false s with
  | false => exact ht
  | true =>
      cases t with
      | nil => exact free_nil d true
      | cons c t =>
          have hc : c ≠ '\\' := by
            rintro rfl
            exact h ⟨hpend, rfl⟩
          rw [free_cons, pendingAfter_of_ne hc] at ht ⊢
          exact ⟨fun _ => rfl, ht.2⟩

theorem free_of_not_mem {d : Char} {t : Text} (h : d ∉ t) (escaped : Bool) : Free d escaped t := by
  rintro before after rfl
  exact absurd (List.mem_append_right before List.mem_cons_self) h

/-- With every meaning taken away, no delimiter is left. -/
theorem free_escapeMarkup {d : Char} (hd : isEscapable d = true) (hne : d ≠ '\\') (t : Text) :
    Free d false (escapeMarkup t) := by
  induction t with
  | nil => exact free_nil d false
  | cons c t ih =>
      rw [escapeMarkup_cons, free_append]
      by_cases h : isEscapable c = true
      · rw [if_pos h]
        refine ⟨?_, by simpa [pending] using ih⟩
        simp [free_cons, Ne.symm hne, free_nil]
      · have hcd : c ≠ d := by
          rintro rfl
          exact h hd
        rw [if_neg h]
        refine ⟨?_, by simpa [pending, ne_backslash_of_not_escapable h] using ih⟩
        simp [free_cons, hcd, free_nil]

/-! ## Braces -/

namespace BracePhase

/-- The characters that the brace scanner waits for. -/
def awaited (opening closing : Char) : BracePhase → List Char
  | outside _ => [opening]
  | inside .. => [opening, closing]

/-- The phase after a text of which no character counts. -/
def keepAll (p : BracePhase) (s : Text) : BracePhase :=
  s.foldl (fun p c => p.keep c) p

variable {opening closing : Char}

theorem awaited_keep (c : Char) (p : BracePhase) :
    (p.keep c).awaited opening closing = p.awaited opening closing := by
  cases p <;> rfl

theorem step_of_not_mem {c : Char} {p : BracePhase} (h : c ∉ p.awaited opening closing)
    (offset : Nat) : p.step opening closing offset c = (p.keep c, none) := by
  cases p with
  | outside gap =>
      have hc : c ≠ opening := by simpa [awaited] using h
      simp [step, keep, hc]
  | inside gap start depth body =>
      have hc : c ≠ opening ∧ c ≠ closing := by simpa [awaited] using h
      simp [step, keep, hc]

theorem keepAll_outside (gap s : Text) : (outside gap).keepAll s = outside (s.reverse ++ gap) := by
  induction s generalizing gap with
  | nil => rfl
  | cons c s ih => simpa [keepAll, keep] using ih (c :: gap)

theorem keepAll_inside (gap : Text) (start depth : Nat) (body s : Text) :
    (inside gap start depth body).keepAll s = inside gap start depth (s.reverse ++ body) := by
  induction s generalizing body with
  | nil => rfl
  | cons c s ih => simpa [keepAll, keep] using ih (c :: body)

end BracePhase

/-- The brace scanner passes over what it does not wait for. -/
theorem scanBracesFrom_keepAll {opening closing : Char} {p : BracePhase} {s : Text}
    {escaped : Bool} (h : ∀ d ∈ p.awaited opening closing, Free d escaped s) (offset : Nat)
    (rest : Text) :
    scanBracesFrom opening closing escaped offset p (s ++ rest) =
      scanBracesFrom opening closing (pending escaped s) (offset + Text.byteLength s)
        (p.keepAll s) rest := by
  induction s generalizing escaped offset p with
  | nil => rfl
  | cons c s ih =>
      have hstep : (if escaped then (p.keep c, none) else p.step opening closing offset c) =
          (p.keep c, none) := by
        cases escaped with
        | true => rfl
        | false =>
            refine BracePhase.step_of_not_mem (fun hc => ?_) offset
            exact Bool.noConfusion ((free_cons.1 (h c hc)).1 rfl)
      have hrest := ih (p := p.keep c) (fun d hd => by
        rw [BracePhase.awaited_keep] at hd
        exact (free_cons.1 (h d hd)).2) (offset + c.utf8Size)
      rw [List.cons_append, scanBracesFrom, hstep]
      simpa [Scan.consOption, pending, BracePhase.keepAll, Nat.add_assoc] using hrest

/-- Outside every region it waits for an opening delimiter. -/
theorem scanBracesFrom_keeping {opening : Char} {s : Text} {escaped : Bool}
    (h : Free opening escaped s) (closing : Char) (offset : Nat) (gap rest : Text) :
    scanBracesFrom opening closing escaped offset (.outside gap) (s ++ rest) =
      scanBracesFrom opening closing (pending escaped s) (offset + Text.byteLength s)
        (.outside (s.reverse ++ gap)) rest := by
  rw [scanBracesFrom_keepAll (by simpa [BracePhase.awaited] using h), BracePhase.keepAll_outside]

/-- Inside a region it waits for either delimiter. -/
theorem scanBracesFrom_inside {opening closing : Char} {s : Text} {escaped : Bool}
    (ho : Free opening escaped s) (hc : Free closing escaped s) (offset : Nat) (gap : Text)
    (start depth : Nat) (body rest : Text) :
    scanBracesFrom opening closing escaped offset (.inside gap start depth body) (s ++ rest) =
      scanBracesFrom opening closing (pending escaped s) (offset + Text.byteLength s)
        (.inside gap start depth (s.reverse ++ body)) rest := by
  rw [scanBracesFrom_keepAll (by simpa [BracePhase.awaited] using ⟨ho, hc⟩),
    BracePhase.keepAll_inside]

/-- A text without an unescaped opening delimiter has no regions. -/
theorem scanBraces_of_free {opening : Char} {t : Text} (h : Free opening false t)
    (closing : Char) : scanBraces opening closing t = ⟨[], t, none⟩ := by
  have := scanBracesFrom_keeping h closing 0 [] []
  rw [List.append_nil] at this
  rw [scanBraces, this]
  simp [scanBracesFrom, BracePhase.finish]

/-! ## Tags -/

namespace TagPhase

/-- The character that the tag scanner waits for. -/
def awaited : TagPhase → Char
  | outside _ | between .. => '<'
  | tag .. => '>'

/-- The phase after a text of which no character counts. -/
def keepAll (p : TagPhase) (s : Text) : TagPhase :=
  s.foldl (fun p c => p.keep c) p

theorem awaited_keep (c : Char) (p : TagPhase) : (p.keep c).awaited = p.awaited := by
  cases p <;> rfl

theorem step_of_ne {c : Char} {p : TagPhase} (h : c ≠ p.awaited) (filter : Option Text)
    (offset : Nat) (rest : Text) : p.step filter offset c rest = (p.keep c, none) := by
  cases p with
  | outside gap =>
      have hc : c ≠ '<' := h
      simp [step, keep, hc]
  | tag gap start depth kind body =>
      have hc : c ≠ '>' := h
      simp [step, keep, hc]
  | between gap start depth body =>
      have hc : c ≠ '<' := h
      simp [step, keep, hc]

theorem keepAll_outside (gap s : Text) : (outside gap).keepAll s = outside (s.reverse ++ gap) := by
  induction s generalizing gap with
  | nil => rfl
  | cons c s ih => simpa [keepAll, keep] using ih (c :: gap)

theorem keepAll_between (gap : Text) (start depth : Nat) (body s : Text) :
    (between gap start depth body).keepAll s = between gap start depth (s.reverse ++ body) := by
  induction s generalizing body with
  | nil => rfl
  | cons c s ih => simpa [keepAll, keep] using ih (c :: body)

theorem keepAll_tag (gap : Text) (start depth : Nat) (kind : TagKind) (body s : Text) :
    (tag gap start depth kind body).keepAll s = tag gap start depth kind (s.reverse ++ body) := by
  induction s generalizing body with
  | nil => rfl
  | cons c s ih => simpa [keepAll, keep] using ih (c :: body)

end TagPhase

/-- The tag scanner passes over what it does not wait for. -/
theorem scanTagsFrom_keeping {p : TagPhase} {s : Text} {escaped : Bool}
    (h : Free p.awaited escaped s) (filter : Option Text) (offset : Nat) (rest : Text) :
    scanTagsFrom filter escaped offset p (s ++ rest) =
      scanTagsFrom filter (pending escaped s) (offset + Text.byteLength s) (p.keepAll s) rest := by
  induction s generalizing escaped offset p with
  | nil => rfl
  | cons c s ih =>
      obtain ⟨hc, hs⟩ := free_cons.1 h
      have hstep : (if escaped then (p.keep c, none)
          else p.step filter offset c (s ++ rest)) = (p.keep c, none) := by
        cases escaped with
        | true => rfl
        | false => exact TagPhase.step_of_ne (fun heq => Bool.noConfusion (hc heq)) ..
      rw [← TagPhase.awaited_keep c p] at hs
      have hrest := ih hs (offset + c.utf8Size)
      rw [List.cons_append, scanTagsFrom, hstep]
      simpa [Scan.consOption, pending, TagPhase.keepAll, Nat.add_assoc] using hrest

/-- No unescaped `<` of the text starts an opening tag that passes the filter. -/
def Untagged (filter : Option Text) (escaped : Bool) (t : Text) : Prop :=
  ∀ before after, t = before ++ '<' :: after → pending escaped before = false →
    tagKind? filter after ≠ some .opening

theorem untagged_cons {filter : Option Text} {escaped : Bool} {c : Char} {t : Text} :
    Untagged filter escaped (c :: t) ↔
      (c = '<' → escaped = false → tagKind? filter t ≠ some .opening) ∧
        Untagged filter (pendingAfter escaped c) t :=
  forall_split_cons

/-- A text without an unescaped `<` has no tags, whatever comes after it. -/
theorem untagged_append_of_free {filter : Option Text} {escaped : Bool} {s t : Text}
    (h : Free '<' escaped s) (ht : Untagged filter (pending escaped s) t) :
    Untagged filter escaped (s ++ t) := by
  induction s generalizing escaped with
  | nil => exact ht
  | cons c s ih =>
      obtain ⟨hc, hs⟩ := free_cons.1 h
      rw [List.cons_append, untagged_cons]
      refine ⟨?_, ih hs ht⟩
      rintro rfl rfl
      exact absurd (hc rfl) (by simp)

theorem untagged_of_free {filter : Option Text} {escaped : Bool} {t : Text}
    (h : Free '<' escaped t) : Untagged filter escaped t := by
  intro before after heq hp
  rw [h before after heq] at hp
  exact Bool.noConfusion hp

theorem scanTagsFrom_of_untagged {filter : Option Text} {escaped : Bool} {t : Text}
    (h : Untagged filter escaped t) (offset : Nat) (gap : Text) :
    scanTagsFrom filter escaped offset (.outside gap) t = ⟨[], gap.reverse ++ t, none⟩ := by
  induction t generalizing escaped offset gap with
  | nil => simp [scanTagsFrom, TagPhase.finish]
  | cons c t ih =>
      obtain ⟨hc, ht⟩ := untagged_cons.1 h
      have hstep : (if escaped then ((TagPhase.outside gap).keep c, none)
          else (TagPhase.outside gap).step filter offset c t) =
          (TagPhase.outside (c :: gap), none) := by
        cases escaped with
        | true => rfl
        | false =>
            have hno : ¬ (c = '<' ∧ tagKind? filter t = some .opening) := by
              rintro ⟨rfl, hk⟩
              exact hc rfl rfl hk
            simp only [Bool.false_eq_true, if_false, TagPhase.step, Bool.and_eq_true,
              decide_eq_true_eq]
            rw [if_neg hno]
      rw [scanTagsFrom, hstep]
      simpa [Scan.consOption] using ih ht (offset + c.utf8Size) (c :: gap)

/-- A text without an opening tag that passes the filter has no fragments. -/
theorem scanTags_of_untagged {filter : Option Text} {t : Text} (h : Untagged filter false t) :
    scanTags filter t = ⟨[], t, none⟩ :=
  scanTagsFrom_of_untagged h 0 []

/-! ## Cutting at a delimiter -/

theorem splitFirst?_of_free {d : Char} {escaped : Bool} {s : Text} (h : Free d escaped s)
    (hp : pending escaped s = false) (t : Text) :
    splitFirst? d escaped (s ++ d :: t) = some (s, t) := by
  induction s generalizing escaped with
  | nil =>
      obtain rfl : escaped = false := hp
      simp [splitFirst?]
  | cons c s ih =>
      obtain ⟨hc, hs⟩ := free_cons.1 h
      have hno : ¬ (c = d ∧ escaped = false) := by
        rintro ⟨heq, rfl⟩
        exact Bool.noConfusion (hc heq)
      simp [splitFirst?, hno, ih hs hp]

theorem splitLast?_eq_none {d : Char} {escaped : Bool} {t : Text} (h : Free d escaped t) :
    splitLast? d escaped t = none := by
  induction t generalizing escaped with
  | nil => rfl
  | cons c t ih =>
      obtain ⟨hc, ht⟩ := free_cons.1 h
      have hno : ¬ (c = d ∧ escaped = false) := by
        rintro ⟨heq, rfl⟩
        exact Bool.noConfusion (hc heq)
      simp [splitLast?, ih ht, hno]

theorem splitLast?_append {d : Char} {escaped : Bool} {s t : Text}
    (hp : pending escaped s = false) (h : Free d (pendingAfter false d) t) :
    splitLast? d escaped (s ++ d :: t) = some (s, t) := by
  induction s generalizing escaped with
  | nil =>
      obtain rfl : escaped = false := hp
      simp [splitLast?, splitLast?_eq_none h]
  | cons c s ih => simp [splitLast?, ih hp]

end Stencil.Markup
