import Stencil.Text.Basic

/-!
# Texts at ranges of a source

A source that stands somewhere starts at some byte, its base. It holds a text at a range if
the text is what lies between the two offsets, counted from the base. Then the range starts
and stops between characters, and there is no other text at it (`Holds.unique`). A text at a
range of such a text is at that range of the source (`Holds.within`).
-/

namespace Stencil

namespace Text

theorem byteLength_pos {t : Text} (h : t ≠ []) : 0 < byteLength t := by
  cases t with
  | nil => exact absurd rfl h
  | cons c t =>
      have := c.utf8Size_pos
      rw [byteLength_cons]
      omega

theorem eq_nil_of_byteLength {t : Text} (h : byteLength t = 0) : t = [] := by
  cases t with
  | nil => rfl
  | cons c t => exact absurd h (Nat.ne_of_gt (byteLength_pos (List.cons_ne_nil c t)))

/-- A text has one beginning of each length in bytes. -/
theorem append_inj_of_byteLength {s t u v : Text} (h : s ++ t = u ++ v)
    (hlength : byteLength s = byteLength u) : s = u ∧ t = v := by
  rcases List.append_eq_append_iff.1 h with ⟨w, rfl, rfl⟩ | ⟨w, rfl, rfl⟩
  · rw [byteLength_append] at hlength
    obtain rfl := eq_nil_of_byteLength (t := w) (by omega)
    simp
  · rw [byteLength_append] at hlength
    obtain rfl := eq_nil_of_byteLength (t := w) (by omega)
    simp

/-- Of two beginnings of a text the shorter is one of the longer. -/
theorem append_cases_of_byteLength_le {s t u v : Text} (h : s ++ t = u ++ v)
    (hle : byteLength s ≤ byteLength u) : ∃ w, u = s ++ w ∧ t = w ++ v := by
  rcases List.append_eq_append_iff.1 h with ⟨w, hu, ht⟩ | ⟨w, rfl, rfl⟩
  · exact ⟨w, hu, ht⟩
  · rw [byteLength_append] at hle
    obtain rfl := eq_nil_of_byteLength (t := w) (by omega)
    exact ⟨[], by simp, rfl⟩

/-! ## Ranges -/

/-- A source that starts at byte `base` holds a text at a range. -/
def Holds (source : Text) (base : Nat) (span : Span) (t : Text) : Prop :=
  ∃ before after, source = before ++ t ++ after ∧
    span = ⟨base + byteLength before, base + byteLength before + byteLength t⟩

/-- An offset between two characters of a source, or at one of its ends. -/
def Boundary (source : Text) (base offset : Nat) : Prop :=
  ∃ before after, source = before ++ after ∧ offset = base + byteLength before

variable {source t u : Text} {base start stop : Nat} {span inner : Span}

theorem Holds.unique (ht : Holds source base span t) (hu : Holds source base span u) : t = u := by
  obtain ⟨before, after, hsource, rfl⟩ := ht
  obtain ⟨before', after', hsource', hspan⟩ := hu
  obtain ⟨hstart, hstop⟩ := Span.mk.inj hspan
  rw [hsource, List.append_assoc, List.append_assoc] at hsource'
  obtain ⟨-, hrest⟩ := append_inj_of_byteLength hsource' (by omega)
  exact (append_inj_of_byteLength hrest (by omega)).1

theorem Holds.stop_eq (h : Holds source base span t) : span.stop = span.start + byteLength t := by
  obtain ⟨before, after, -, rfl⟩ := h
  rfl

/-- What stands in a text stands in the source of the text. -/
theorem Holds.within (ht : Holds source base span t) (hu : Holds t span.start inner u) :
    Holds source base inner u := by
  obtain ⟨before, after, rfl, rfl⟩ := ht
  obtain ⟨before', after', rfl, rfl⟩ := hu
  refine ⟨before ++ before', after' ++ after, by simp, ?_⟩
  simp only [byteLength_append, Nat.add_assoc]

/-- And what stands inside the range of a text stands in the text. -/
theorem Holds.of_within (ht : Holds source base span t) (hu : Holds source base inner u)
    (hstart : span.start ≤ inner.start) (hstop : inner.stop ≤ span.stop) :
    Holds t span.start inner u := by
  obtain ⟨before, after, hsource, rfl⟩ := ht
  obtain ⟨before', after', rfl, rfl⟩ := hu
  dsimp only at hstart hstop
  rw [List.append_assoc, List.append_assoc] at hsource
  obtain ⟨w, rfl, hrest⟩ := append_cases_of_byteLength_le hsource.symm (by omega)
  rw [byteLength_append] at hstop
  rw [← List.append_assoc] at hrest
  obtain ⟨z, rfl, -⟩ := append_cases_of_byteLength_le hrest.symm
    (by rw [byteLength_append]; omega)
  refine ⟨w, z, rfl, ?_⟩
  simp only [byteLength_append, Nat.add_assoc]

/-- Where a source starts makes no difference but to the range. -/
theorem holds_shift_iff : Holds source base (span.shift base) t ↔ Holds source 0 span t := by
  obtain ⟨start, stop⟩ := span
  have hspan : ∀ before : Text,
      Span.shift base ⟨start, stop⟩ =
          ⟨base + byteLength before, base + byteLength before + byteLength t⟩ ↔
        (⟨start, stop⟩ : Span) = ⟨0 + byteLength before, 0 + byteLength before + byteLength t⟩ := by
    intro before
    simp only [Span.shift, Span.mk.injEq]
    omega
  simp only [Holds, hspan]

theorem Holds.left (h : Holds source base span (t ++ u)) :
    Holds source base ⟨span.start, span.start + byteLength t⟩ t :=
  h.within ⟨[], u, rfl, rfl⟩

theorem Holds.right (h : Holds source base span (t ++ u)) :
    Holds source base ⟨span.start + byteLength t, span.stop⟩ u := by
  refine h.within ⟨t, [], by simp, ?_⟩
  rw [h.stop_eq, byteLength_append, ← Nat.add_assoc]

theorem Holds.start_le (h : Holds source base span t) : span.start ≤ span.stop := by
  rw [h.stop_eq]
  exact Nat.le_add_right _ _

theorem Holds.lt (h : Holds source base span t) (hne : t ≠ []) : span.start < span.stop := by
  have := byteLength_pos hne
  rw [h.stop_eq]
  omega

theorem Holds.inside (h : Holds source base span t) :
    base ≤ span.start ∧ span.stop ≤ base + byteLength source := by
  obtain ⟨before, after, rfl, rfl⟩ := h
  simp only [byteLength_append]
  omega

theorem Holds.boundary_start (h : Holds source base span t) :
    Boundary source base span.start := by
  obtain ⟨before, after, rfl, rfl⟩ := h
  exact ⟨before, t ++ after, List.append_assoc before t after, rfl⟩

theorem Holds.boundary_stop (h : Holds source base span t) :
    Boundary source base span.stop := by
  obtain ⟨before, after, rfl, rfl⟩ := h
  refine ⟨before ++ t, after, rfl, ?_⟩
  rw [byteLength_append, Nat.add_assoc]

/-- Between two offsets between characters there is a text. -/
theorem Boundary.holds (hstart : Boundary source base start) (hstop : Boundary source base stop)
    (h : start < stop) : ∃ t, t ≠ [] ∧ Holds source base ⟨start, stop⟩ t := by
  obtain ⟨before, after, rfl, rfl⟩ := hstart
  obtain ⟨before', after', hsource, rfl⟩ := hstop
  rcases List.append_eq_append_iff.1 hsource with ⟨t, rfl, rfl⟩ | ⟨t, rfl, rfl⟩
  · rw [byteLength_append] at h ⊢
    refine ⟨t, ?_, before, after', by simp, by rw [Nat.add_assoc]⟩
    rintro rfl
    simp at h
  · rw [byteLength_append] at h
    omega

end Text

end Stencil
