import Stencil.Proofs.Number.Numeral

/-!
# Numerals are rounded correctly

The value of a decimal numeral is the double nearest to what it says (`roundsTo_value`). A
numeral so great that its exponent alone decides is beyond the finite doubles, and one so
small is nearest to zero.
-/

namespace Stencil.Number

theorem RoundsTo.not_nan {negative : Bool} {x : ℚ} {y : Float} (h : RoundsTo negative x y) :
    isNaN y = false := by
  cases h with
  | finite hparts => rw [isNaN, hparts]; rfl
  | infinite hparts => rw [isNaN, hparts]; rfl

theorem RoundsTo.negateIf {b : Bool} {x : ℚ} {y : Float} (h : RoundsTo b x y) (negative : Bool) :
    RoundsTo (negative ^^ b) x (negateIf negative y) := by
  cases negative with
  | true =>
      rw [Bool.true_xor]
      exact h.neg
  | false =>
      rw [Bool.false_xor]
      exact h

theorem roundsTo_ofNat (n : Nat) : RoundsTo false n (ofNat n) := by
  have h := roundsTo_ofRatio false n Nat.one_pos
  rw [Nat.cast_one, div_one] at h
  exact h

/-! ## Decimals whose exponent decides -/

theorem roundsTo_infinity {x : ℚ} (hx : overflow ≤ x) (negative : Bool) :
    RoundsTo negative x (infinity negative) :=
  .infinite (parts_infinity negative) hx

theorem overflow_le_pow {x : ℚ} (hx : 10 ^ exponentBound ≤ x) : overflow ≤ x := by
  have hbound : exponentBound = 400 := rfl
  have hpow : (2 : ℚ) ^ (1024 : ℤ) ≤ 10 ^ (400 : ℤ) := by
    calc (2 : ℚ) ^ (1024 : ℤ) ≤ 2 ^ ((3 : ℤ) * 400) :=
          zpow_le_zpow_right₀ (by norm_num) (by norm_num)
      _ = (2 ^ (3 : ℤ)) ^ (400 : ℤ) := zpow_mul 2 3 400
      _ ≤ 10 ^ (400 : ℤ) := zpow_le_zpow_left₀ (by norm_num) (by norm_num) (by norm_num)
  calc overflow ≤ 2 ^ (54 : ℤ) * 2 ^ (970 : ℤ) := by
        rw [overflow]
        apply mul_le_mul_of_nonneg_right _ (by positivity)
        norm_num
    _ = 2 ^ (1024 : ℤ) := by rw [← zpow_add₀ (by norm_num)]; rfl
    _ ≤ 10 ^ (400 : ℤ) := hpow
    _ ≤ x := hbound ▸ hx

theorem roundsTo_zero {x : ℚ} (hpos : 0 ≤ x) (hx : x ≤ 10 ^ (-exponentBound)) :
    RoundsTo false x (ofNat 0) := by
  have hbound : exponentBound = 400 := rfl
  have hleast : leastExponent = -1074 := rfl
  have hsmall : x ≤ 2 ^ leastExponent / 2 := by
    calc x ≤ (10⁻¹) ^ (400 : ℤ) := by rwa [inv_zpow, ← zpow_neg, ← hbound]
      _ ≤ (2 ^ (-3 : ℤ)) ^ (400 : ℤ) :=
          zpow_le_zpow_left₀ (by norm_num) (by norm_num) (by norm_num)
      _ = 2 ^ ((-3 : ℤ) * 400) := (zpow_mul 2 (-3) 400).symm
      _ ≤ 2 ^ (leastExponent - 1) := by
          rw [hleast]
          exact zpow_le_zpow_right₀ (by norm_num) (by norm_num)
      _ = 2 ^ leastExponent / 2 := by rw [zpow_sub_one₀ (by norm_num), div_eq_mul_inv]
  have hparts : parts (ofNat 0) = .finite (zeroParts.withSign false) := by decide +kernel
  have hcovers := covers_zeroParts hpos hsmall
  exact .finite hparts (hcovers.lt_overflow canonical_zeroParts (by decide))
    (hcovers.nearest canonical_zeroParts)

section Decimal

variable {length : Nat} {d : Decimal}
  (hlow : d.coefficient ≠ 0 → 10 ^ (length - 1) ≤ d.coefficient)
  (hhigh : d.coefficient < 10 ^ length)
include hhigh

theorem value_lt_pow : d.value < 10 ^ (length + d.exponent) := by
  have hcast : (d.coefficient : ℚ) < 10 ^ (length : ℤ) := by
    rw [zpow_natCast]
    exact_mod_cast hhigh
  rw [Decimal.value, zpow_add₀ (by norm_num)]
  exact mul_lt_mul_of_pos_right hcast (by positivity)

include hlow

theorem pow_le_value (hne : d.coefficient ≠ 0) : 10 ^ (length + d.exponent - 1) ≤ d.value := by
  have hlength : 0 < length := by
    apply Nat.pos_of_ne_zero
    rintro rfl
    omega
  have hexponent : length + d.exponent - 1 = (length - 1 : ℕ) + d.exponent := by omega
  have hcast : (10 : ℚ) ^ ((length - 1 : ℕ) : ℤ) ≤ d.coefficient := by
    rw [zpow_natCast]
    exact_mod_cast hlow hne
  rw [Decimal.value, hexponent, zpow_add₀ (by norm_num)]
  exact mul_le_mul_of_nonneg_right hcast (by positivity)

/-- **Decimals are rounded correctly**, however great or small. -/
theorem roundsTo_ofDecimal : RoundsTo false d.value (ofDecimal length d) := by
  have hpos : 0 ≤ d.value := by
    rw [Decimal.value]
    positivity
  unfold ofDecimal
  split
  · next hzero =>
      apply roundsTo_zero hpos
      rw [Decimal.value, hzero, Nat.cast_zero, zero_mul]
      positivity
  next hne =>
  split
  · next hgreat =>
      apply roundsTo_infinity
      apply overflow_le_pow
      calc (10 : ℚ) ^ exponentBound ≤ 10 ^ (length + d.exponent - 1) :=
            zpow_le_zpow_right₀ (by norm_num) (by omega)
        _ ≤ d.value := pow_le_value hlow hhigh hne
  split
  · next hsmall =>
      apply roundsTo_zero hpos
      calc d.value ≤ 10 ^ (length + d.exponent) := le_of_lt (value_lt_pow hhigh)
        _ ≤ 10 ^ (-exponentBound) := zpow_le_zpow_right₀ (by norm_num) (by omega)
  split
  · next hwhole =>
      have h := roundsTo_ofRatio false (d.coefficient * Nat.pow 10 d.exponent.toNat) Nat.one_pos
      have hvalue : ((d.coefficient * Nat.pow 10 d.exponent.toNat : ℕ) : ℚ) / (1 : ℕ) =
          d.value := by
        rw [Decimal.value, zpow_eq_div, Int.toNat_of_nonpos (show -d.exponent ≤ 0 by omega),
          Nat.pow_eq]
        push_cast
        ring
      rwa [hvalue] at h
  · next hfraction =>
      have hden : 0 < Nat.pow 10 (-d.exponent).toNat := Nat.pow_pos (by decide)
      have h := roundsTo_ofRatio false d.coefficient hden
      have hvalue : (d.coefficient : ℚ) / (Nat.pow 10 (-d.exponent).toNat : ℕ) = d.value := by
        rw [Decimal.value, zpow_eq_div, Int.toNat_of_nonpos (show d.exponent ≤ 0 by omega),
          Nat.pow_eq]
        push_cast
        ring
      rwa [hvalue] at h

end Decimal

/-! ## Digits of numerals -/

theorem digit_lt {c : Char} (h : isDigit c = true) : c.toNat - '0'.toNat < 10 := by
  rw [isDigit, Bool.and_eq_true, decide_eq_true_iff, decide_eq_true_iff] at h
  have hhigh : c.toNat ≤ '9'.toNat := h.2
  have hnine : '9'.toNat = 57 := rfl
  have hzero : '0'.toNat = 48 := rfl
  omega

theorem readDigits_lt {t : Text} (h : AllDigits t) : readDigits t < 10 ^ t.length := by
  rw [readDigits, ofDigits_eq]
  have hlt := Nat.ofDigits_lt_base_pow_length (b := 10)
    (l := (t.map fun c => c.toNat - '0'.toNat).reverse) (by decide) (by
      intro d hd
      rw [List.mem_reverse] at hd
      obtain ⟨c, hc, rfl⟩ := List.mem_map.1 hd
      exact digit_lt (h c hc))
  rwa [List.length_reverse, List.length_map] at hlt

/-- Digits after one that is not zero. -/
theorem pow_le_readDigits {c : Char} (t : Text) (hdigit : isDigit c = true) (hne : c ≠ '0') :
    10 ^ t.length ≤ readDigits (c :: t) := by
  have hpos : 1 ≤ readDigits [c] := by
    rw [isDigit, Bool.and_eq_true, decide_eq_true_iff, decide_eq_true_iff] at hdigit
    have hlow : '0'.toNat ≤ c.toNat := hdigit.1
    have hzero : c.toNat ≠ '0'.toNat := mt Char.toNat_inj.1 hne
    change 1 ≤ 0 * 10 + (c.toNat - '0'.toNat)
    omega
  have hcons : c :: t = [c] ++ t := rfl
  rw [hcons, readDigits_append]
  exact Nat.le_add_right_of_le (Nat.le_mul_of_pos_left _ hpos)

theorem readDigits_dropWhile (t : Text) :
    readDigits (t.dropWhile (· = '0')) = readDigits t := by
  induction t with
  | nil => rfl
  | cons c t ih =>
      rw [List.dropWhile_cons]
      split
      · next hzero =>
          have hcons : c :: t = ['0'] ++ t := by
            rw [of_decide_eq_true hzero]
            rfl
          have hdigit : readDigits ['0'] = 0 := rfl
          rw [ih, hcons, readDigits_append, hdigit, Nat.zero_mul, Nat.zero_add]
      · rfl

/-- **Numerals are rounded correctly.** -/
theorem roundsTo_value {n : Numeral} (hwhole : AllDigits n.whole)
    (hfraction : AllDigits n.fraction) : RoundsTo false n.decimal.value n.value := by
  have hall := hwhole.append hfraction
  unfold Numeral.value
  dsimp only
  have hdigits : AllDigits ((n.whole ++ n.fraction).dropWhile (· = '0')) :=
    fun c hc => hall c (List.dropWhile_subset _ hc)
  have hsame : n.decimal = ⟨readDigits ((n.whole ++ n.fraction).dropWhile (· = '0')),
      n.exponent - n.fraction.length⟩ := by
    rw [readDigits_dropWhile]
    rfl
  rw [hsame]
  apply roundsTo_ofDecimal
  · intro hne
    have hfirst := List.head?_dropWhile_not (· = '0') (n.whole ++ n.fraction)
    cases hcases : (n.whole ++ n.fraction).dropWhile (· = '0') with
    | nil =>
        rw [hcases] at hne
        exact absurd rfl hne
    | cons c t =>
        rw [hcases] at hfirst hdigits
        exact pow_le_readDigits t (hdigits c List.mem_cons_self) (of_decide_eq_false hfirst)
  · exact readDigits_lt hdigits

end Stencil.Number
