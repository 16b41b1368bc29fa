import Stencil.Partial.Registry
import Stencil.Proofs.Bindings
import Stencil.Proofs.Failure

/-!
# Registries that can be

Names of partials are checked when a partial is added, and each stands once. Every
registry that is built from nothing is `Valid` in this sense: `register`, `put`
and `remove` keep it, and so does adding a whole list.
-/

namespace Stencil.Partial

/-- Names that partials can have, each of them once. -/
structure Registry.Valid (r : Registry) : Prop where
  distinct : Bindings.Distinct r
  named : ∀ name ∈ Bindings.names r, isValidName name = true

instance (r : Registry) : Decidable r.Valid :=
  decidable_of_iff
    (Bindings.Distinct r ∧ ∀ name ∈ Bindings.names r, isValidName name = true)
    ⟨fun h => ⟨h.1, h.2⟩, fun h => ⟨h.distinct, h.named⟩⟩

namespace Registry

variable {r r' : Registry} {name body : Text}

theorem valid_nil : Valid [] :=
  ⟨Bindings.distinct_nil, by simp⟩

theorem valid_insert (h : r.Valid) (hname : isValidName name = true) (body : Text) :
    Valid (Bindings.insert r name body) := by
  refine ⟨Bindings.distinct_insert h.distinct name body, ?_⟩
  intro other hother
  rw [Bindings.names_insert] at hother
  split at hother
  · exact h.named other hother
  · rcases List.mem_append.1 hother with hold | hnew
    · exact h.named other hold
    · rwa [List.mem_singleton.1 hnew]

theorem valid_register (h : r.Valid) (hr : r.register name body = .ok r') : r'.Valid := by
  unfold register at hr
  split at hr
  · exact absurd hr (by simp)
  · next hname =>
      split at hr
      · exact absurd hr (by simp)
      · obtain rfl := Except.ok.inj hr
        exact valid_insert h (by simpa using hname) body

theorem valid_put (h : r.Valid) {before : Option Text}
    (hr : r.put name body = .ok (r', before)) : r'.Valid := by
  unfold put at hr
  split at hr
  · exact absurd hr (by simp)
  · next hname =>
      obtain ⟨rfl, -⟩ := Prod.mk.inj (Except.ok.inj hr)
      exact valid_insert h (by simpa using hname) body

theorem valid_remove (h : r.Valid) (name : Text) : (r.remove name).1.Valid := by
  have kept : (Bindings.names (Bindings.erase r name)).Sublist (Bindings.names r) := by
    rw [Bindings.names_erase]
    exact List.filter_sublist
  exact ⟨List.Nodup.sublist kept h.distinct, fun other hother => h.named other (kept.subset hother)⟩

theorem valid_foldlM {partials : List (Text × Text)} (h : r.Valid)
    (hr : partials.foldlM (fun r p => r.register p.1 p.2) r = .ok r') : r'.Valid := by
  induction partials generalizing r with
  | nil =>
      obtain rfl := Except.ok.inj hr
      exact h
  | cons p partials ih =>
      rw [List.foldlM_cons, Except.bind_eq_ok_iff] at hr
      obtain ⟨next, hnext, hrest⟩ := hr
      exact ih (valid_register h hnext) hrest

theorem valid_ofList {partials : List (Text × Text)} (hr : ofList partials = .ok r) : r.Valid :=
  valid_foldlM valid_nil hr

/-! ## The places of a name -/

/-- A partial has one place among the others. -/
theorem Valid.split (h : r.Valid) (hget : Bindings.get? r name = some body) :
    ∃ before after, r = before ++ (name, body) :: after ∧
      name ∉ Bindings.names before ∧ name ∉ Bindings.names after := by
  obtain ⟨before, after, rfl⟩ := List.append_of_mem (Bindings.mem_of_get? hget)
  have hnames := h.distinct
  rw [Bindings.Distinct, Bindings.names, List.map_append, List.map_cons] at hnames
  have once := List.nodup_middle.1 hnames
  have hnot := (List.nodup_cons.1 once).1
  rw [List.mem_append, not_or] at hnot
  exact ⟨before, after, rfl, hnot.1, hnot.2⟩

end Registry

/-! ## Characters of names -/

theorem isNameChar_of_valid (h : isValidName name = true) {c : Char} (hc : c ∈ name) :
    Markup.isNameChar c = true := by
  cases name with
  | nil => exact absurd hc (by simp)
  | cons first rest =>
      rw [isValidName, Bool.and_eq_true] at h
      rcases List.mem_cons.1 hc with rfl | hrest
      · have hletter : c.isAlpha = true := h.1
        simp [Markup.isNameChar, Char.isAlphanum, hletter]
      · exact List.all_eq_true.1 h.2 c hrest

end Stencil.Partial
