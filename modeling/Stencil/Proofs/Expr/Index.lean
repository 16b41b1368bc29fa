import Stencil.Expr.Property
import Stencil.Proofs.Number.Numeral

/-!
# Numbers as keys

A number as a key is its text. Up to `2 ^ 53` the text is a position just if the number is a
whole one, and then it is that position (`position?_format_iff`): what is written with digits
only is a decimal that rounds to the number, and whole numbers round to themselves. No number
is the name of a length or a method, because those start with small letters.
-/

namespace Stencil.Number

/-! ## Texts of digits only -/

/-- A text of digits only is a whole numeral. -/
theorem Writes.value_of_allDigits {t : Text} {n : Numeral} (h : Writes t n) (hdigits : AllDigits t)
    (hne : t ≠ []) : n.decimal.value = readDigits t := by
  have hread := h [] (by rintro c ⟨⟩)
  rw [takeNumeral?_whole hdigits hne (by rintro c ⟨⟩) (by rintro c ⟨⟩)] at hread
  obtain ⟨rfl, -⟩ := Prod.mk.inj (Option.some.inj hread)
  rw [Numeral.value_decimal, List.append_nil]
  exact mul_one _

theorem not_negative_of_allDigits {negative : Bool} {t : Text}
    (h : AllDigits (signed negative t)) : negative = false := by
  cases negative with
  | false => rfl
  | true => exact absurd (h '-' List.mem_cons_self) (by decide)

section Magnitude

variable {d : Dyadic} {l : Layout} (hdigits : AllDigits (l.writeMagnitude d))
  (hne : l.writeMagnitude d ≠ []) (hle : readDigits (l.writeMagnitude d) ≤ greatestWhole)
include hdigits hne hle

/-- A magnitude that is written with digits only is the number that they denote. -/
theorem magnitude_of_allDigits (h : d.Canonical) :
    d.magnitude = readDigits (l.writeMagnitude d) := by
  obtain ⟨n, hwrites, hvalue, -⟩ := writes_writeMagnitude l d
  rw [hwrites.value_of_allDigits hdigits hne] at hvalue
  by_cases hzero : d.mantissa = 0
  · rw [hvalue, if_pos hzero, Dyadic.magnitude, hzero, Nat.cast_zero, zero_mul]
  rw [if_neg hzero] at hvalue
  have hcovers := shortest_covers h (Nat.pos_of_ne_zero hzero) l.tie
  -- the whole number is a double, and no other double is written so
  obtain ⟨d', hcanonical, -, hwhole⟩ := exists_canonical hle
  rw [← hvalue, ← hwhole] at hcovers
  obtain ⟨hmantissa, hexponent⟩ := Dyadic.eq_of_covers h hcanonical hcovers d'.covers_magnitude
  rw [← hwhole, Dyadic.magnitude, hmantissa, hexponent, Dyadic.magnitude]

end Magnitude

/-- A number that is written with digits only has the value that they denote. -/
theorem hasValue_of_allDigits {x : Float} (hdigits : AllDigits (format x)) (hne : format x ≠ [])
    (hle : readDigits (format x) ≤ greatestWhole) :
    HasValue x ((readDigits (format x) : ℕ) : ℤ) := by
  unfold format Layout.write at hdigits hne hle ⊢
  cases hparts : parts x with
  | nan =>
      rw [hparts] at hdigits
      exact absurd (hdigits 'N' List.mem_cons_self) (by decide)
  | infinite negative =>
      rw [hparts] at hdigits
      obtain rfl := not_negative_of_allDigits hdigits
      exact absurd (hdigits 'I' List.mem_cons_self) (by decide)
  | finite d =>
      rw [hparts] at hdigits hne hle
      dsimp only at hdigits hne hle ⊢
      have hsign := not_negative_of_allDigits hdigits
      rw [hsign] at hdigits hne hle ⊢
      have hvalue : d.magnitude = _ :=
        magnitude_of_allDigits hdigits hne hle (parts_finite hparts).1
      refine ⟨d, hparts, ?_⟩
      rw [signed, if_neg Bool.false_ne_true, Int.cast_natCast, ← hvalue, Dyadic.value]
      split
      · next hnegative =>
          -- a sign that is not written is that of zero
          have hzero : d.mantissa = 0 := by
            change (d.negative && (false || decide (d.mantissa ≠ 0))) = false at hsign
            rw [hnegative, Bool.true_and, Bool.false_or, decide_eq_false_iff_not, not_not] at hsign
            exact hsign
          rw [Dyadic.magnitude, hzero, Nat.cast_zero, zero_mul, neg_zero]
      · rfl

/-- The text of a number starts with no small letter. -/
theorem head_format (x : Float) : (format x).head?.any Char.isLower = false := by
  unfold format Layout.write
  cases parts x with
  | nan => rfl
  | infinite negative => cases negative <;> rfl
  | finite d =>
      dsimp only
      cases d.negative && (Layout.standard.signedZero || decide (d.mantissa ≠ 0)) with
      | true => rfl
      | false =>
          obtain ⟨n, hwrites, -⟩ := writes_writeMagnitude Layout.standard d
          obtain ⟨c, rest, heq, hc⟩ := hwrites.head
          rw [signed, if_neg Bool.false_ne_true, heq]
          change Char.isLower c = false
          rcases hc with hc | rfl
          · rw [isDigit, Bool.and_eq_true, decide_eq_true_iff, decide_eq_true_iff] at hc
            have hless : ¬ 'a' ≤ c := fun hle => absurd (Char.le_trans hle hc.2) (by decide)
            exact Bool.and_eq_false_iff.2 (Or.inl (decide_eq_false hless))
          · rfl

end Stencil.Number

namespace Stencil.Expr

open Stencil.Number (AllDigits HasValue decimal digits digitChar format greatestWhole head_format
  isDigit readDigits)

/-! ## Positions -/

theorem position?_eq_some {key : Text} {i : Nat} (h : position? key = some i) :
    AllDigits key ∧ key ≠ [] ∧ readDigits key = i := by
  unfold position? at h
  split at h
  · next hkey =>
      rw [Bool.and_eq_true, Bool.and_eq_true, decide_eq_true_iff, List.all_eq_true] at hkey
      exact ⟨hkey.1.2, hkey.1.1, Option.some.inj h⟩
  · cases h

/-- A numeral has no needless zero. -/
theorem head_decimal (n : Nat) : decimal n = ['0'] ∨ (decimal n).head? ≠ some '0' := by
  have hspells := Number.spells_digits (show 1 < 10 by decide) n
  rw [decimal, Number.numeral]
  cases hdigits : digits 10 n with
  | nil => exact absurd hdigits hspells.nonempty
  | cons d ds =>
      by_cases hzero : digitChar d = '0'
      · left
        have hlt : d < 10 := hspells.lt_base d (hdigits ▸ List.mem_cons_self)
        obtain rfl := Number.digitChar_eq_zero (Nat.lt_trans hlt (by decide)) hzero
        cases ds with
        | nil => rfl
        | cons e ds =>
            have hlength : 1 < (digits 10 n).length := by
              rw [hdigits, List.length_cons, List.length_cons]
              omega
            exact absurd (congrArg List.head? hdigits) (hspells.no_leading_zero hlength)
      · right
        intro heq
        exact hzero (Option.some.inj heq)

/-- The numeral of a position denotes it. -/
theorem position?_decimal (n : Nat) : position? (decimal n) = some n := by
  have hkey : (decide (decimal n ≠ []) && (decimal n).all isDigit &&
      (decide (decimal n = ['0']) || decide ((decimal n).head? ≠ some '0'))) = true := by
    rw [Bool.and_eq_true, Bool.and_eq_true, decide_eq_true_iff, List.all_eq_true, Bool.or_eq_true,
      decide_eq_true_iff, decide_eq_true_iff]
    exact ⟨⟨Number.decimal_ne_nil n, Number.allDigits_decimal n⟩, head_decimal n⟩
  rw [position?, if_pos hkey, Number.readDigits_decimal]

/-- **A number is the key of a position just if it has its value.** Both zeros do. -/
theorem position?_format_iff {x : Float} {i : Nat} (hi : i ≤ greatestWhole) :
    position? (format x) = some i ↔ HasValue x (i : ℤ) := by
  constructor
  · intro h
    obtain ⟨hdigits, hne, rfl⟩ := position?_eq_some h
    exact Number.hasValue_of_allDigits hdigits hne hi
  · intro h
    have hnonneg : ¬ (i : ℤ) < 0 := Int.not_lt.2 (Int.natCast_nonneg i)
    rw [Number.format_whole h hi, decide_eq_false hnonneg, Int.natAbs_natCast]
    exact position?_decimal i

/-! ## Names -/

theorem withName?_eq_none {α : Type} {named : List (String × α)} {name : Text}
    (hnamed : ∀ entry ∈ named, entry.1.toList.head?.any Char.isLower = true)
    (hname : name.head?.any Char.isLower = false) : withName? named name = none := by
  rw [withName?, List.lookup_eq_none_iff]
  intro entry hmem
  rw [bne_iff_ne]
  intro heq
  have hlower := hnamed entry hmem
  rw [← heq, String.toList_ofList, hname] at hlower
  cases hlower

end Stencil.Expr
