import Stencil.Expr.Helper
import Stencil.Proofs.Number.Numeral

/-!
# Numbers in a base

`toString` in a base writes the digits of a whole number, but a magnitude beyond 128 bits as
the greatest of 128 bits (`toText_whole`). Up to `2 ^ 53` nothing is lost: `parseInt` reads
the number back, and no product or sum is rounded on the way (`leadingInteger_toText`).
-/

namespace Stencil.Expr

open Stencil.Number (HasValue Spells accumulate digitChar digits greatestBase greatestWhole
  numeral ofDigits ofInt ofNat roundToPrecision signed)

/-- An argument asks for the base that it is. -/
theorem baseArgument_ofNat (default : Nat) {base : Nat} (hbase : base ≤ greatestBase) :
    baseArgument default (.number (ofNat base)) = base := by
  have hwhole : base ≤ greatestWhole := Nat.le_trans hbase (by decide)
  change Number.toNatWithin greatestBaseArgument (ofNat base) = base
  rw [Number.toNatWithin_ofNat hwhole]
  exact Nat.min_eq_right (Nat.le_trans hbase (by decide))

section Base

variable {base : Nat} {x : Float} {n : ℤ}

theorem toText_apply (htwo : 2 ≤ base) (hbase : base ≤ greatestBase) (x : Float) (span : Span)
    (p : Progress) :
    NumberMethod.toText.apply x [.number (ofNat base)] span p =
      .ok (.string (baseText base x), p) := by
  have harg : argument [.number (ofNat base)] 0 = .number (ofNat base) := rfl
  have hvalid : (decide (2 ≤ base) && decide (base ≤ greatestBase)) = true := by
    rw [Bool.and_eq_true, decide_eq_true_iff, decide_eq_true_iff]
    exact ⟨htwo, hbase⟩
  unfold NumberMethod.apply
  dsimp only
  rw [harg, baseArgument_ofNat 10 hbase, if_pos hvalid]
  rfl

/-- In a base other than ten a whole number is written with the digits of its magnitude, or of
the greatest magnitude that the digits are taken from. -/
theorem baseText_whole (h : HasValue x n) (hten : base ≠ 10) :
    baseText base x = signed (decide (n < 0)) (numeral base (min greatestInBase n.natAbs)) := by
  obtain ⟨d, hparts, hvalue, hsign⟩ := h.parts
  obtain ⟨hintegral, hwhole⟩ := (d.magnitude_eq_iff _).1 hvalue
  have hbase : (decide (base ≠ 10) && d.isIntegral) = true := by
    rw [Bool.and_eq_true, decide_eq_true_iff]
    exact ⟨hten, hintegral⟩
  rw [baseText, hparts]
  dsimp only
  rw [if_pos hbase, Number.inBase, hwhole, ← hsign]

/-- A whole number that is exact in a double is written with its digits, in base ten too. -/
theorem baseText_exact (h : HasValue x n) (hn : n.natAbs ≤ greatestWhole) :
    baseText base x = signed (decide (n < 0)) (numeral base n.natAbs) := by
  by_cases hten : base = 10
  · subst hten
    obtain ⟨d, hparts, -⟩ := h.parts
    rw [baseText, hparts]
    exact Number.format_whole h hn
  · have hword : n.natAbs ≤ greatestInBase := Nat.le_trans hn (by decide)
    rw [baseText_whole h hten, Nat.min_eq_right hword]

theorem leadingInteger_apply (hbase : base ≤ greatestBase) (t : Text) (span : Span)
    (p : Progress) :
    Helper.leadingInteger.apply [.string t, .number (ofNat base)] span p =
      .ok (.number (Number.leadingInteger base t), p) := by
  have hbaseArgument := baseArgument_ofNat 0 hbase
  unfold Helper.apply
  dsimp only
  have harg : argument [.string t, .number (ofNat base)] 1 = .number (ofNat base) := rfl
  rw [harg, hbaseArgument]
  rfl

/-- **A whole number in a base other than ten** is an optional sign and digits of the base
without leading zeros. Their positional value is the magnitude if it is below `2 ^ 128`; the
digits of every greater magnitude are those of `2 ^ 128 - 1`. -/
theorem toText_whole (h : HasValue x n) (htwo : 2 ≤ base) (hbase : base ≤ 36) (hten : base ≠ 10)
    (span : Span) (p : Progress) :
    ∃ ds : List Nat,
      NumberMethod.toText.apply x [.number (ofNat base)] span p =
        .ok (.string (signed (decide (n < 0)) (ds.map digitChar)), p) ∧
      Spells base ds (if n.natAbs < 2 ^ 128 then n.natAbs else 2 ^ 128 - 1) := by
  have hmin : (if n.natAbs < 2 ^ 128 then n.natAbs else 2 ^ 128 - 1) =
      min greatestInBase n.natAbs := by
    have hgreatest : greatestInBase = 2 ^ 128 - 1 := rfl
    split <;> omega
  refine ⟨digits base (min greatestInBase n.natAbs), ?_, ?_⟩
  · rw [toText_apply htwo hbase, baseText_whole h hten]
    rfl
  · rw [hmin]
    exact Number.spells_digits htwo _

theorem toText_whole_negative :
    HasValue (ofInt (-255)) (-255 : ℤ) ∧ ∃ ds : List Nat,
      NumberMethod.toText.apply (ofInt (-255)) [.number (ofNat 16)] ⟨0, 0⟩ ⟨0, 0⟩ =
        .ok (.string (signed true (ds.map digitChar)), ⟨0, 0⟩) ∧ Spells 16 ds 255 :=
  ⟨Number.hasValue_ofInt (by decide),
    toText_whole (Number.hasValue_ofInt (by decide)) (by decide) (by decide) (by decide) _ _⟩

/-- A magnitude beyond 128 bits is not written with its own digits. -/
theorem toText_not_exact :
    ¬ ∀ (x : Float) (n : ℤ) (base : Nat), HasValue x n → 2 ≤ base → base ≤ 36 → base ≠ 10 →
      ∀ (span : Span) (p : Progress), ∃ ds : List Nat,
        NumberMethod.toText.apply x [.number (ofNat base)] span p =
          .ok (.string (signed (decide (n < 0)) (ds.map digitChar)), p) ∧
        Spells base ds n.natAbs := by
  intro hclaim
  have hparts : Number.parts (ofInt (2 ^ 128)) = .finite ⟨false, 2 ^ 52, 76⟩ := by decide +kernel
  have hvalue : HasValue (ofInt (2 ^ 128)) ((2 ^ 128 : ℤ) : ℚ) := by
    refine ⟨_, hparts, ?_⟩
    rw [Number.Dyadic.value, if_neg Bool.false_ne_true, Number.Dyadic.magnitude]
    norm_num
  obtain ⟨ds, htext, hspells⟩ := hclaim _ _ 16 hvalue (by decide) (by decide) (by decide)
    ⟨0, 0⟩ ⟨0, 0⟩
  rw [toText_apply (by decide) (by decide), baseText_whole hvalue (by decide)] at htext
  have hchars : (digits 16 (2 ^ 128 - 1)).map digitChar = ds.map digitChar :=
    Value.string.inj (Prod.mk.inj (Except.ok.inj htext)).1
  -- the characters tell the digits, and these are of another number
  have hsame := Number.digitValues_digitChars hspells.lt_base (by decide)
  rw [← hchars, Number.digitValues_digitChars (fun _ => Number.digits_lt (by decide)) (by decide)]
    at hsame
  have hread := (Number.spells_digits (show 1 < 16 by decide) (2 ^ 128 - 1)).value
  rw [hsame, hspells.value] at hread
  exact absurd hread (by decide)

/-- **`parseInt` inverts `toString`.** A whole number up to `2 ^ 53` is read back from its text
in any base, and no intermediate value is rounded: each product and each sum, before and after
any digit, is a whole number up to `2 ^ 53`. -/
theorem leadingInteger_toText (h : HasValue x n) (hn : n.natAbs ≤ 2 ^ 53) (htwo : 2 ≤ base)
    (hbase : base ≤ 36) (span span' : Span) (p p' : Progress) :
    ∃ ds : List Nat, ∃ t : Text, t = signed (decide (n < 0)) (ds.map digitChar) ∧
      NumberMethod.toText.apply x [.number (ofNat base)] span p = .ok (.string t, p) ∧
      Helper.leadingInteger.apply [.string t, .number (ofNat base)] span' p' =
        .ok (.number (ofInt n), p') ∧
      HasValue (ofInt n) n ∧
      ∀ before d after, ds = before ++ d :: after →
        accumulate base before * base + d ≤ 2 ^ 53 ∧
        roundToPrecision (accumulate base before * base) = accumulate base before * base ∧
        roundToPrecision (accumulate base before * base + d) =
          accumulate base before * base + d := by
  have hpos : 0 < base := Nat.lt_of_lt_of_le Nat.two_pos htwo
  have hspells := Number.spells_digits htwo n.natAbs
  have hread : ofDigits base (digits base n.natAbs) = n.natAbs := Number.ofDigits_digits htwo _
  refine ⟨digits base n.natAbs, _, rfl, ?_, ?_, Number.hasValue_ofInt hn, ?_⟩
  · rw [toText_apply htwo hbase, baseText_exact h hn]
    rfl
  · have hexact : accumulate base (digits base n.natAbs) = n.natAbs := by
      rw [Number.accumulate_eq hpos (hread.trans_le hn), hread]
    rw [leadingInteger_apply hbase, Number.leadingInteger_signed htwo hbase hspells, hexact,
      Number.negateIf_ofNat hn]
  · intro before d after hsplit
    have hsum : ofDigits base before * base + d ≤ 2 ^ 53 := by
      have hle := Number.ofDigits_le_append base (before ++ [d]) after hpos
      rw [List.append_assoc, List.singleton_append, ← hsplit, hread,
        Number.ofDigits_append_singleton] at hle
      exact Nat.le_trans hle hn
    have hproduct : ofDigits base before * base ≤ 2 ^ 53 :=
      Nat.le_trans (Nat.le_add_right _ d) hsum
    have hbefore : ofDigits base before ≤ 2 ^ 53 :=
      Nat.le_trans (Nat.le_mul_of_pos_right _ hpos) hproduct
    rw [Number.accumulate_eq hpos hbefore]
    exact ⟨hsum, Number.roundToPrecision_of_le hproduct, Number.roundToPrecision_of_le hsum⟩

theorem leadingInteger_toText_least :
    HasValue (ofInt (-2 ^ 53)) (-2 ^ 53 : ℤ) ∧ ∃ ds : List Nat, ∃ t : Text,
      t = signed true (ds.map digitChar) ∧
      NumberMethod.toText.apply (ofInt (-2 ^ 53)) [.number (ofNat 36)] ⟨0, 0⟩ ⟨0, 0⟩ =
        .ok (.string t, ⟨0, 0⟩) ∧
      Helper.leadingInteger.apply [.string t, .number (ofNat 36)] ⟨0, 0⟩ ⟨0, 0⟩ =
        .ok (.number (ofInt (-2 ^ 53)), ⟨0, 0⟩) := by
  have hvalue : HasValue (ofInt (-2 ^ 53)) (-2 ^ 53 : ℤ) := Number.hasValue_ofInt (by decide)
  obtain ⟨ds, t, ht, hwritten, hread, -⟩ :=
    leadingInteger_toText hvalue (by decide) (show 2 ≤ 36 by decide) (by decide) ⟨0, 0⟩ ⟨0, 0⟩
      ⟨0, 0⟩ ⟨0, 0⟩
  exact ⟨hvalue, ds, t, ht, hwritten, hread⟩

end Base

end Stencil.Expr
