import Stencil.Json.Printer
import Stencil.Json.Reader
import Mathlib.Tactic.IntervalCases

/-!
# Quoted texts read back

Every escape that is written is read as the character that it stands for, so a quoted
text reads back as the text, with nothing left before the closing quote
(`readString_quote`).
-/

namespace Stencil.Json

theorem readStringFrom_control {n : Nat} (hn : n < 32) (fuel : Nat) (seen rest : Text) (k : Nat) :
    readStringFrom (fuel + 1) seen ⟨controlEscape (Char.ofNat n) ++ rest, k⟩ =
      readStringFrom fuel (Char.ofNat n :: seen)
        ⟨rest, k + Text.byteLength (controlEscape (Char.ofNat n))⟩ := by
  interval_cases n <;> rfl

/-- One round reads one character, in whatever form it is written. -/
theorem readStringFrom_escapeChar (c : Char) (fuel : Nat) (seen rest : Text) (k : Nat) :
    readStringFrom (fuel + 1) seen ⟨escapeChar c ++ rest, k⟩ =
      readStringFrom fuel (c :: seen) ⟨rest, k + Text.byteLength (escapeChar c)⟩ := by
  unfold escapeChar
  split
  · next h => subst h; rfl
  next hquote =>
  split
  · next h => subst h; rfl
  next hslash =>
  -- the short escapes of control characters
  iterate 5
    split
    · next h => subst h; rfl
  split
  · next hcontrol =>
      have hn : c.toNat < 32 := hcontrol
      rw [← Char.ofNat_toNat c]
      exact readStringFrom_control hn fuel seen rest k
  · next hplain =>
      change readStringFrom (fuel + 1) seen ⟨c :: rest, k⟩ = _
      rw [readStringFrom]
      simp [hquote, hslash, hplain, Input.next]

theorem readStringFrom_flatMap (t : Text) {fuel : Nat} (hfuel : t.length < fuel)
    (seen rest : Text) (k : Nat) :
    ∃ k', readStringFrom fuel seen ⟨t.flatMap escapeChar ++ '"' :: rest, k⟩ =
      .ok (seen.reverse ++ t, ⟨rest, k'⟩) := by
  induction t generalizing fuel seen k with
  | nil =>
      obtain ⟨fuel, rfl⟩ := Nat.exists_eq_add_of_lt hfuel
      rw [List.append_nil]
      exact ⟨_, rfl⟩
  | cons c t ih =>
      obtain ⟨fuel, rfl⟩ := Nat.exists_eq_add_of_lt hfuel
      rw [List.flatMap_cons, List.append_assoc, readStringFrom_escapeChar]
      have hmore : t.length < (c :: t).length + fuel := by
        rw [List.length_cons]
        omega
      obtain ⟨k', hk⟩ := ih hmore (c :: seen) (k + Text.byteLength (escapeChar c))
      refine ⟨k', hk.trans ?_⟩
      rw [List.reverse_cons, List.append_assoc]
      rfl

theorem one_le_length_escapeChar (c : Char) : 1 ≤ (escapeChar c).length := by
  unfold escapeChar
  iterate 7
    split
    · exact Nat.le_add_left 1 1
  split
  · exact Nat.le_add_left 1 _
  · exact Nat.le_refl 1

theorem length_le_flatMap (t : Text) : t.length ≤ (t.flatMap escapeChar).length := by
  induction t with
  | nil => exact Nat.le_refl 0
  | cons c t ih =>
      have hc := one_le_length_escapeChar c
      rw [List.flatMap_cons, List.length_append, List.length_cons]
      omega

/-- **A quoted text reads back**, and reading stops after its closing quote. -/
theorem readString_quote (t rest : Text) (k : Nat) :
    ∃ k', readString ⟨t.flatMap escapeChar ++ '"' :: rest, k⟩ = .ok (t, ⟨rest, k'⟩) := by
  refine readStringFrom_flatMap t ?_ [] rest k
  have ht := length_le_flatMap t
  rw [List.length_append]
  omega

theorem quote_append_inj {s t rest rest' : Text} (h : quote s ++ rest = quote t ++ rest') :
    s = t ∧ rest = rest' := by
  have hquote : ∀ t rest : Text,
      quote t ++ rest = '"' :: (t.flatMap escapeChar ++ '"' :: rest) := by
    intro t rest
    simp [quote]
  rw [hquote, hquote] at h
  have hinside := (List.cons.inj h).2
  obtain ⟨k, hs⟩ := readString_quote s rest 0
  obtain ⟨k', ht⟩ := readString_quote t rest' 0
  rw [hinside, ht] at hs
  obtain ⟨rfl, hrest⟩ := Prod.mk.inj (Except.ok.inj hs)
  exact ⟨rfl, (Input.mk.inj hrest).1.symm⟩

end Stencil.Json
