import Stencil.Markup.Escape

/-!
# Escapes across a seam

Where two texts meet, all that the second learns of the first is whether a
backslash is pending at its end. If none is, the flags of the characters of the
second and the resolution of its escapes are those it has by itself, so
`unescape` goes through the seam (`unescape_append`). If one is, it goes through too,
unless the second text starts with a character of a meaning, so that the seam makes an
escape sequence (`unescape_append_of_not_joins`).

A text that `escapeText` made never leaves a backslash pending. It can stand
between any two texts that meet without one: it resolves to what it was made of, and
nothing changes on either side (`escapeText_between`). So can a text that `escapeMarkup`
made, in which every character of a meaning is escaped.
-/

namespace Stencil.Markup

/-! ## Flags -/

theorem pending_append (escaped : Bool) (s t : Text) :
    pending escaped (s ++ t) = pending (pending escaped s) t := by
  induction s generalizing escaped with
  | nil => rfl
  | cons c s ih => exact ih (pendingAfter escaped c)

theorem marked_append (escaped : Bool) (s t : Text) :
    marked escaped (s ++ t) = marked escaped s ++ marked (pending escaped s) t := by
  induction s generalizing escaped with
  | nil => rfl
  | cons c s ih => exact congrArg ((c, escaped) :: ·) (ih (pendingAfter escaped c))

@[simp] theorem length_marked (escaped : Bool) (t : Text) :
    (marked escaped t).length = t.length := by
  induction t generalizing escaped with
  | nil => rfl
  | cons c t ih => exact congrArg (· + 1) (ih (pendingAfter escaped c))

/-- A text behind one that leaves nothing pending is flagged as it would be by itself. -/
theorem getElem?_marked_append {s : Text} (h : pending false s = false) (t : Text) (i : Nat) :
    (marked false (s ++ t))[s.length + i]? = (marked false t)[i]? := by
  rw [marked_append, h, List.getElem?_append_right (by simp), length_marked,
    Nat.add_sub_cancel_left]

@[simp] theorem pendingAfter_true (c : Char) : pendingAfter true c = false := rfl

@[simp] theorem pendingAfter_backslash : pendingAfter false '\\' = true := rfl

@[simp] theorem pendingAfter_of_ne {c : Char} (h : c ≠ '\\') (escaped : Bool) :
    pendingAfter escaped c = false := by
  simp [pendingAfter, h]

/-- A character of no meaning to escapes leaves nothing pending. -/
theorem pending_cons_of_ne {c : Char} (h : c ≠ '\\') (escaped : Bool) (t : Text) :
    pending escaped (c :: t) = pending false t := by
  rw [pending, pendingAfter_of_ne h]

theorem pending_snoc_of_ne {c : Char} (h : c ≠ '\\') (escaped : Bool) (t : Text) :
    pending escaped (t ++ [c]) = false := by
  rw [pending_append, pending_cons_of_ne h]
  rfl

theorem pending_of_no_backslash {t : Text} (h : '\\' ∉ t) : pending false t = false := by
  induction t with
  | nil => rfl
  | cons c t ih =>
      rw [List.mem_cons, not_or] at h
      rw [pending_cons_of_ne (Ne.symm h.1)]
      exact ih h.2

/-- Doubled backslashes pair up. -/
theorem pending_escapeText (t : Text) : pending false (escapeText t) = false := by
  induction t with
  | nil => rfl
  | cons c t ih =>
      rw [escapeText_cons, pending_append]
      by_cases h : c = '\\'
      · simpa [h, pending] using ih
      · simpa [h, pending] using ih

/-- Doubling backslashes brings in no other character. -/
theorem mem_escapeText {c : Char} {t : Text} : c ∈ escapeText t ↔ c ∈ t := by
  induction t with
  | nil => rfl
  | cons d t ih =>
      rw [escapeText_cons, List.mem_append, ih, List.mem_cons]
      by_cases h : d = '\\'
      · simp [h]
      · simp [h]

/-- Puts a backslash before every character that has a meaning in markup. -/
def escapeMarkup (t : Text) : Text :=
  t.flatMap fun c => if isEscapable c then ['\\', c] else [c]

theorem escapeMarkup_cons (c : Char) (t : Text) :
    escapeMarkup (c :: t) = (if isEscapable c then ['\\', c] else [c]) ++ escapeMarkup t := rfl

theorem ne_backslash_of_not_escapable {c : Char} (h : ¬ isEscapable c = true) : c ≠ '\\' := by
  rintro rfl
  exact h rfl

theorem pending_escapeMarkup (t : Text) : pending false (escapeMarkup t) = false := by
  induction t with
  | nil => rfl
  | cons c t ih =>
      rw [escapeMarkup_cons, pending_append]
      by_cases h : isEscapable c = true
      · simpa [h, pending] using ih
      · simpa [h, pending, ne_backslash_of_not_escapable h] using ih

/-! ## Resolution -/

/-- A seam at which an escape sequence comes about: a backslash is pending, and the second
text starts with a character of a meaning. -/
def Joins (s t : Text) : Prop :=
  pending false s = true ∧ t.head?.any isEscapable = true

instance (s t : Text) : Decidable (Joins s t) :=
  inferInstanceAs (Decidable (_ ∧ _))

theorem not_joins_of_closed {s : Text} (h : pending false s = false) (t : Text) :
    ¬ Joins s t := by
  rintro ⟨hpend, -⟩
  rw [h] at hpend
  exact Bool.noConfusion hpend

/-- `unescape` goes through a seam at which no escape sequence comes about. -/
theorem unescape_append_of_not_joins {s t : Text} (h : ¬ Joins s t) :
    unescape (s ++ t) = unescape s ++ unescape t := by
  fun_induction unescape s with
  | case1 => rfl
  | case2 c =>
      by_cases hc : c = '\\'
      · subst hc
        cases t with
        | nil => rfl
        | cons d t =>
            have hd : ¬ isEscapable d = true := fun hd => h ⟨rfl, hd⟩
            rw [List.singleton_append, unescape, if_neg (by simp [hd])]
            rfl
      · exact unescape_cons_of_ne hc t
  | case3 c d s hcd ih =>
      rw [Bool.and_eq_true, decide_eq_true_eq] at hcd
      obtain ⟨rfl, hd⟩ := hcd
      rw [List.cons_append, List.cons_append, unescape_backslash_pair hd, ih h]
      rfl
  | case4 c d s hcd ih =>
      -- the pair is no sequence, so `d` counts for itself; it is escaped only if it is no backslash
      have hds : ¬ Joins (d :: s) t := by
        rintro ⟨hpend, hhead⟩
        refine h ⟨?_, hhead⟩
        by_cases hc : c = '\\'
        · have hd : d ≠ '\\' := by
            rintro rfl
            exact hcd (by simp [hc, isEscapable])
          rw [pending_cons_of_ne hd] at hpend
          simpa [hc, pending, hd] using hpend
        · rwa [pending_cons_of_ne hc]
      have step : unescape (c :: d :: (s ++ t)) = c :: unescape (d :: (s ++ t)) := by
        rw [unescape, if_neg hcd]
      rw [List.cons_append, List.cons_append, step, ← List.cons_append, ih hds]
      rfl

/-- In particular it does at a seam at which no backslash is pending. -/
theorem unescape_append {s : Text} (h : pending false s = false) (t : Text) :
    unescape (s ++ t) = unescape s ++ unescape t :=
  unescape_append_of_not_joins (not_joins_of_closed h t)

/-- A value in its escaped form stands for itself before a text. -/
theorem unescape_escapeText_append (v t : Text) :
    unescape (escapeText v ++ t) = v ++ unescape t := by
  rw [unescape_append (pending_escapeText v), unescape_escapeText]

/-- **A value in its escaped form is neutral** between two texts of which the first leaves no
backslash pending: it stands for itself, the texts resolve as each does alone, and the
characters of the second are escaped where they are in it alone. -/
theorem escapeText_between {a : Text} (h : pending false a = false) (v b : Text) :
    unescape (a ++ escapeText v ++ b) = unescape a ++ v ++ unescape b ∧
      ∀ i, (marked false (a ++ escapeText v ++ b))[(a ++ escapeText v).length + i]? =
        (marked false b)[i]? := by
  have hseam : pending false (a ++ escapeText v) = false := by
    rw [pending_append, h, pending_escapeText]
  constructor
  · rw [unescape_append hseam, unescape_append h, unescape_escapeText]
  · intro i
    exact getElem?_marked_append hseam b i

/-- The runs of backslashes on both sides of a value that is a backslash do not mix with it. -/
theorem escapeText_between_backslashes :
    pending false "x\\\\".toList = false ∧
      unescape ("x\\\\".toList ++ escapeText ['\\'] ++ "\\\x7b".toList) = "x\\\\\x7b".toList ∧
      ∀ i, (marked false ("x\\\\".toList ++ escapeText ['\\'] ++ "\\\x7b".toList))[5 + i]? =
        [('\\', false), ('{', true)][i]? := by
  have hclosed : pending false "x\\\\".toList = false := by decide
  obtain ⟨htext, hflags⟩ := escapeText_between hclosed ['\\'] "\\\x7b".toList
  exact ⟨hclosed, htext, hflags⟩

theorem unescape_escapeMarkup (t : Text) : unescape (escapeMarkup t) = t := by
  induction t with
  | nil => rfl
  | cons c t ih =>
      rw [escapeMarkup_cons]
      by_cases h : isEscapable c = true
      · rw [if_pos h, List.cons_append, List.cons_append, unescape_backslash_pair h,
          List.nil_append, ih]
      · rw [if_neg h, List.cons_append, List.nil_append,
          unescape_cons_of_ne (ne_backslash_of_not_escapable h), ih]

end Stencil.Markup
