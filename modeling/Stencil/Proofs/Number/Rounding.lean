import Stencil.Proofs.Number.Bits
import Stencil.Proofs.Number.Nearest
import Stencil.Proofs.Number.Shortest

/-!
# Quotients are rounded correctly

`ofRatio` gives the double that a quotient of natural numbers is nearest to, an even one if
two are as near, and infinity if the quotient is beyond the greatest double by half a last
place (`roundsTo_ofRatio`). The mantissa is the nearest integer to the quotient in units of
the last place, so the parts that are rounded to cover the quotient in the sense of the
intervals; there are no other such parts.
-/

namespace Stencil.Number

/-! ## Nearest integers -/

/-- An integer that is nearest to a value, and even if another is as near. -/
structure NearestNat (q : Nat) (x : ℚ) : Prop where
  low : (q : ℚ) - 1 / 2 ≤ x
  high : x ≤ q + 1 / 2
  inside : q % 2 = 1 → (q : ℚ) - 1 / 2 < x ∧ x < q + 1 / 2

theorem nearestNat_roundDiv (num : Nat) {den : Nat} (hden : 0 < den) :
    NearestNat (roundDiv .toEven num den) (num / den) := by
  have hden' : (0 : ℚ) < den := by exact_mod_cast hden
  have hdiv : (num : ℚ) = den * (num / den : ℕ) + (num % den : ℕ) := by
    exact_mod_cast (Nat.div_add_mod num den).symm
  have hrest : ((num % den : ℕ) : ℚ) < den := by exact_mod_cast Nat.mod_lt num hden
  have hrest0 : (0 : ℚ) ≤ (num % den : ℕ) := by positivity
  -- the value lies where the remainder is below half of the divisor, or above, or just there
  have hof : ∀ q : Nat, den * (2 * (q : ℚ) - 1) ≤ 2 * num → 2 * (num : ℚ) ≤ den * (2 * q + 1) →
      (q % 2 = 1 → den * (2 * (q : ℚ) - 1) < 2 * num ∧ 2 * (num : ℚ) < den * (2 * q + 1)) →
      NearestNat q (num / den) := by
    intro q hlow hhigh hinside
    refine ⟨?_, ?_, fun hodd => ⟨?_, ?_⟩⟩
    · rw [le_div_iff₀ hden']
      linarith
    · rw [div_le_iff₀ hden']
      linarith
    · rw [lt_div_iff₀ hden']
      linarith [(hinside hodd).1]
    · rw [div_lt_iff₀ hden']
      linarith [(hinside hodd).2]
  unfold roundDiv
  dsimp only
  split
  · next hless =>
      have hless' : 2 * ((num % den : ℕ) : ℚ) < den := by exact_mod_cast hless
      apply hof
      · linarith
      · linarith
      · intro _
        constructor <;> linarith
  split
  · next hmore =>
      have hmore' : (den : ℚ) < 2 * ((num % den : ℕ) : ℚ) := by exact_mod_cast hmore
      apply hof
      · push_cast
        linarith
      · push_cast
        linarith
      · intro _
        push_cast
        constructor <;> linarith
  · next hless hmore =>
      have htie : 2 * ((num % den : ℕ) : ℚ) = den := by
        have : 2 * (num % den) = den := by omega
        exact_mod_cast this
      rcases Nat.mod_two_eq_zero_or_one (num / den) with heven | hodd
      · rw [heven, Nat.add_zero]
        apply hof
        · linarith
        · linarith
        · intro hodd
          omega
      · rw [hodd]
        apply hof
        · push_cast
          linarith
        · push_cast
          linarith
        · intro hodd'
          omega

theorem nearestNat_roundScaled (num : Nat) {den : Nat} (hden : 0 < den) (e : ℤ) :
    NearestNat (roundScaled num den e) (num / den / 2 ^ e) := by
  have hden' : (den : ℚ) ≠ 0 := by exact_mod_cast Nat.ne_of_gt hden
  unfold roundScaled
  split
  · next he =>
      have hpow : 0 < den * Nat.pow 2 e.toNat := Nat.mul_pos hden (Nat.pow_pos (by decide))
      have hspec := nearestNat_roundDiv num hpow
      have hvalue : (num : ℚ) / (den * Nat.pow 2 e.toNat : ℕ) = num / den / 2 ^ e := by
        have hneg : (-e).toNat = 0 := by omega
        rw [zpow_eq_div, hneg, Nat.pow_eq]
        push_cast
        field_simp
      rwa [hvalue] at hspec
  · next he =>
      have hspec := nearestNat_roundDiv (num * Nat.pow 2 (-e).toNat) hden
      have hvalue : ((num * Nat.pow 2 (-e).toNat : ℕ) : ℚ) / den = num / den / 2 ^ e := by
        have hpos : e.toNat = 0 := by omega
        rw [zpow_eq_div, hpos, Nat.pow_eq]
        push_cast
        field_simp
      rwa [hvalue] at hspec

/-! ## The binary exponent of a quotient -/

section BinaryExponent

variable {num den : Nat} (hnum : 0 < num) (hden : 0 < den)
include hden

theorem two_zpow_le_iff (e : ℤ) :
    (if 0 ≤ e then den * 2 ^ e.toNat ≤ num else den ≤ num * 2 ^ (-e).toNat) ↔
      (2 : ℚ) ^ e ≤ num / den := by
  have hden' : (0 : ℚ) < den := by exact_mod_cast hden
  rw [le_div_iff₀ hden', zpow_eq_div]
  split
  · next he =>
      have hneg : (-e).toNat = 0 := by omega
      rw [hneg, pow_zero, div_one, mul_comm]
      norm_cast
  · next he =>
      have hpos : e.toNat = 0 := by omega
      rw [hpos, pow_zero, one_div, inv_mul_le_iff₀ (by positivity), mul_comm _ (num : ℚ)]
      norm_cast

include hnum

/-- The binary exponent of a quotient is that of its first binary digit. -/
theorem binaryExponent_spec :
    (2 : ℚ) ^ binaryExponent num den ≤ num / den ∧
      (num : ℚ) / den < 2 ^ (binaryExponent num den + 1) := by
  have hden' : (0 : ℚ) < den := by exact_mod_cast hden
  have hnumLow : (2 : ℚ) ^ (num.log2 : ℤ) ≤ num := by
    rw [zpow_natCast]
    exact_mod_cast Nat.log2_self_le (Nat.ne_of_gt hnum)
  have hnumHigh : (num : ℚ) < 2 ^ ((num.log2 : ℤ) + 1) := by
    have := Nat.lt_log2_self (n := num)
    exact_mod_cast this
  have hdenLow : (2 : ℚ) ^ (den.log2 : ℤ) ≤ den := by
    rw [zpow_natCast]
    exact_mod_cast Nat.log2_self_le (Nat.ne_of_gt hden)
  have hdenHigh : (den : ℚ) < 2 ^ ((den.log2 : ℤ) + 1) := by
    have := Nat.lt_log2_self (n := den)
    exact_mod_cast this
  have hbelow : (2 : ℚ) ^ ((num.log2 : ℤ) - den.log2 - 1) ≤ num / den := by
    rw [le_div_iff₀ hden']
    calc (2 : ℚ) ^ ((num.log2 : ℤ) - den.log2 - 1) * den
        ≤ 2 ^ ((num.log2 : ℤ) - den.log2 - 1) * 2 ^ ((den.log2 : ℤ) + 1) := by
          apply mul_le_mul_of_nonneg_left (le_of_lt hdenHigh)
          positivity
      _ = 2 ^ (num.log2 : ℤ) := by
          rw [← zpow_add₀ (by norm_num)]
          congr 1
          ring
      _ ≤ num := hnumLow
  have habove : (num : ℚ) / den < 2 ^ ((num.log2 : ℤ) - den.log2 + 1) := by
    rw [div_lt_iff₀ hden']
    calc (num : ℚ) < 2 ^ ((num.log2 : ℤ) + 1) := hnumHigh
      _ = 2 ^ ((num.log2 : ℤ) - den.log2 + 1) * 2 ^ (den.log2 : ℤ) := by
          rw [← zpow_add₀ (by norm_num)]
          congr 1
          ring
      _ ≤ 2 ^ ((num.log2 : ℤ) - den.log2 + 1) * den := by
          apply mul_le_mul_of_nonneg_left hdenLow
          positivity
  have hreached := @two_zpow_le_iff num den hden ((num.log2 : ℤ) - den.log2)
  simp only [binaryExponent, Nat.pow_eq]
  by_cases hle : (2 : ℚ) ^ ((num.log2 : ℤ) - den.log2) ≤ num / den
  · rw [if_pos (hreached.2 hle)]
    exact ⟨hle, habove⟩
  · rw [if_neg (mt hreached.1 hle), sub_add_cancel]
    exact ⟨hbelow, not_le.1 hle⟩

end BinaryExponent

/-! ## The double of a quotient -/

namespace Dyadic

/-- A mantissa that is nearest to a value, in units of the last place, makes parts that
cover the value. -/
theorem covers_of_nearestNat {d : Dyadic} {x : ℚ} (hd : NearestNat d.mantissa (x / 2 ^ d.exponent))
    (hpower : d.below = 1 → d.magnitude ≤ x) : d.Covers x := by
  have hunit : (0 : ℚ) < 2 ^ d.exponent := by positivity
  have hlow : (d.mantissa : ℚ) * 2 ^ d.exponent - 2 ^ d.exponent / 2 ≤ x := by
    have := hd.low
    rw [le_div_iff₀ hunit] at this
    linarith
  have hhigh : x ≤ (d.mantissa : ℚ) * 2 ^ d.exponent + 2 ^ d.exponent / 2 := by
    have := hd.high
    rw [div_le_iff₀ hunit] at this
    linarith
  have hbelow : d.below = 1 ∨ d.below = 2 := by
    have := d.below_le
    have := d.one_le_below
    omega
  refine ⟨?_, ?_, fun hodd => ?_⟩
  · rw [lowEnd_eq_sub]
    rcases hbelow with hbelow | hbelow
    · have := hpower hbelow
      rw [hbelow]
      push_cast
      linarith
    · rw [hbelow, magnitude]
      push_cast
      linarith
  · rw [highEnd_eq_add, magnitude]
    exact hhigh
  · have hinside := hd.inside hodd
    rw [lt_div_iff₀ hunit, div_lt_iff₀ hunit] at hinside
    rw [lowEnd_eq_sub, highEnd_eq_add, magnitude]
    have heven : d.below = 2 := by
      unfold below
      apply if_neg
      rintro ⟨hpower, -⟩
      omega
    rw [heven]
    push_cast
    constructor <;> linarith

end Dyadic

section Rounded

variable {m : Nat} {e : ℤ} {x : ℚ} (hm : NearestNat m (x / 2 ^ e))
  (hnormal : e ≠ leastExponent → 2 ^ 52 ≤ x / 2 ^ e)
include hm hnormal

theorem le_of_nearestNat (hne : e ≠ leastExponent) : 2 ^ 52 ≤ m := by
  have hhigh := hm.high
  have hlow := hnormal hne
  have hcast : (2 ^ 52 : ℚ) < m + 1 := by linarith
  have hnat : 2 ^ 52 < m + 1 := by exact_mod_cast hcast
  omega

/-- Whether the mantissa is rounded up to the next power of two or not, there are canonical
parts that cover the value, and their bits are the mantissa and a multiple of the weight of
the exponent field. -/
theorem exists_covers_of_nearestNat (hleast : leastExponent ≤ e) (hbound : m ≤ 2 ^ 53) :
    ∃ d : Dyadic, d.Canonical ∧ d.Covers x ∧
      d.unsignedBits = m + (e - leastExponent).toNat * 2 ^ 52 := by
  have hunit : (0 : ℚ) < 2 ^ e := by positivity
  have hm52 := le_of_nearestNat hm hnormal
  rcases Nat.lt_or_eq_of_le hbound with hless | heq
  · refine ⟨⟨false, m, e⟩, ⟨hless, hleast, hm52⟩, Dyadic.covers_of_nearestNat hm ?_, ?_⟩
    · -- below a power of two the value has no less of a mantissa
      intro hbelow
      unfold Dyadic.below at hbelow
      split at hbelow
      · next hpower =>
          have hle := hnormal hpower.2
          rw [le_div_iff₀ hunit] at hle
          rw [Dyadic.magnitude, hpower.1]
          exact_mod_cast hle
      · cases hbelow
    · unfold Dyadic.unsignedBits
      dsimp only
      split
      · next hsubnormal =>
          have hzero : e = leastExponent := by
            by_contra hne
            exact absurd (hm52 hne) (Nat.not_le.2 hsubnormal)
          rw [hzero, sub_self, Int.toNat_zero, Nat.zero_mul, Nat.add_zero]
      · omega
  · have hnext : (2 : ℚ) ^ (e + 1) = 2 * 2 ^ e := by
      rw [zpow_add_one₀ (by norm_num), mul_comm]
    have hgreater : leastExponent < e + 1 := Int.lt_add_one_of_le hleast
    have hne : e + 1 ≠ leastExponent := ne_of_gt hgreater
    refine ⟨⟨false, 2 ^ 52, e + 1⟩, ⟨by norm_num, le_of_lt hgreater, fun _ => le_refl _⟩, ?_, ?_⟩
    · have hlow := hm.low
      have hhigh := hm.high
      rw [heq, le_div_iff₀ hunit] at hlow
      rw [heq, div_le_iff₀ hunit] at hhigh
      have hbelow : Dyadic.below ⟨false, 2 ^ 52, e + 1⟩ = 1 := if_pos ⟨rfl, hne⟩
      refine ⟨?_, ?_, ?_⟩
      · rw [Dyadic.lowEnd_eq_sub, Dyadic.magnitude, hbelow, hnext]
        push_cast at hlow ⊢
        linarith
      · rw [Dyadic.highEnd_eq_add, Dyadic.magnitude, hnext]
        push_cast at hhigh ⊢
        linarith
      · intro hodd
        norm_num at hodd
    · unfold Dyadic.unsignedBits
      dsimp only
      rw [if_neg (lt_irrefl _)]
      omega

end Rounded

theorem parts_infinity (negative : Bool) : parts (infinity negative) = .infinite negative := by
  cases negative <;> decide +kernel

/-- The bits of canonical parts reach those of infinity where the exponent is too great. -/
theorem min_infinityBits {d : Dyadic} (h : d.Canonical) :
    min infinityBits d.unsignedBits =
      if d.exponent ≤ greatestExponent then d.unsignedBits else infinityBits := by
  have hinfinity : infinityBits = 2047 * 2 ^ 52 := rfl
  have hgreatest : greatestExponent = 971 := rfl
  have hleast : leastExponent = -1074 := rfl
  have hnormal := h.le_mantissa
  split
  · next hle => exact Nat.min_eq_right (le_of_lt (h.unsignedBits_lt hle))
  · apply Nat.min_eq_left
    have hlarge : ¬ d.mantissa < 2 ^ 52 := Nat.not_lt.2 (hnormal (by omega))
    rw [Dyadic.unsignedBits, if_neg hlarge]
    omega

/-- The bits of a quotient are those of canonical parts that cover it, up to the bits of
infinity. -/
structure BitsCover (bits : Nat) (x : ℚ) (d : Dyadic) : Prop where
  canonical : d.Canonical
  covers : d.Covers x
  bits_eq : bits = min infinityBits d.unsignedBits

/-- The parts of zero. -/
def zeroParts : Dyadic := ⟨false, 0, leastExponent⟩

theorem canonical_zeroParts : zeroParts.Canonical :=
  ⟨by decide, le_refl _, fun h => absurd rfl h⟩

/-- Zero covers what is at most half of the least double. -/
theorem covers_zeroParts {x : ℚ} (hpos : 0 ≤ x) (hx : x ≤ 2 ^ leastExponent / 2) :
    zeroParts.Covers x := by
  have hunit : (0 : ℚ) < 2 ^ leastExponent := by positivity
  have hzero : zeroParts.magnitude = 0 := by
    rw [Dyadic.magnitude, zeroParts, Nat.cast_zero, zero_mul]
  have hexponent : zeroParts.exponent = leastExponent := rfl
  refine ⟨?_, ?_, fun hodd => absurd hodd (by decide)⟩
  · rw [Dyadic.lowEnd_eq_sub, hzero, hexponent, zero_sub]
    have hbelow : (0 : ℚ) ≤ zeroParts.below * 2 ^ leastExponent / 4 := by positivity
    linarith
  · rwa [Dyadic.highEnd_eq_add, hzero, hexponent, zero_add]

theorem bitsCover_zero (den : Nat) : BitsCover (magnitudeBits 0 den) ((0 : ℕ) / den) zeroParts := by
  have hunsigned : zeroParts.unsignedBits = 0 := if_pos (by decide)
  refine ⟨canonical_zeroParts, ?_, ?_⟩
  · rw [Nat.cast_zero, zero_div]
    exact covers_zeroParts (le_refl 0) (by positivity)
  · rw [magnitudeBits, if_pos rfl, hunsigned, Nat.min_zero]

section Positive

variable {num den : Nat} (hnum : 0 < num) (hden : 0 < den)
include hnum hden

theorem exists_bitsCover : ∃ d, BitsCover (magnitudeBits num den) (num / den) d := by
  obtain ⟨hlow, hhigh⟩ := binaryExponent_spec hnum hden
  have hfraction : (fractionBits : ℤ) = 52 := rfl
  have hbits : magnitudeBits num den =
      min infinityBits
        (roundScaled num den (max leastExponent (binaryExponent num den - fractionBits)) +
          (max leastExponent (binaryExponent num den - fractionBits) - leastExponent).toNat *
            2 ^ 52) := by
    rw [magnitudeBits, if_neg (Nat.ne_of_gt hnum)]
    rfl
  generalize binaryExponent num den = k at hlow hhigh hbits
  obtain ⟨e, he⟩ : ∃ e, e = max leastExponent (k - fractionBits) := ⟨_, rfl⟩
  rw [← he] at hbits
  have hleast : leastExponent ≤ e := he ▸ le_max_left _ _
  have hek : k - fractionBits ≤ e := he ▸ le_max_right _ _
  have hunit : (0 : ℚ) < 2 ^ e := by positivity
  have hm := nearestNat_roundScaled num hden e
  generalize roundScaled num den e = m at hm hbits
  have hnormal : e ≠ leastExponent → 2 ^ 52 ≤ (num : ℚ) / den / 2 ^ e := by
    intro hne
    have hexponent : (52 : ℤ) + e = k := by omega
    rw [le_div_iff₀ hunit]
    calc (2 : ℚ) ^ 52 * 2 ^ e = 2 ^ ((52 : ℤ) + e) := by
          rw [zpow_add₀ (by norm_num)]
          rfl
      _ = 2 ^ k := by rw [hexponent]
      _ ≤ num / den := hlow
  have hbound : m ≤ 2 ^ 53 := by
    have hless : (num : ℚ) / den / 2 ^ e < 2 ^ 53 := by
      rw [div_lt_iff₀ hunit]
      calc (num : ℚ) / den < 2 ^ (k + 1) := hhigh
        _ ≤ 2 ^ ((53 : ℤ) + e) := by
            apply zpow_le_zpow_right₀ (by norm_num)
            omega
        _ = 2 ^ 53 * 2 ^ e := by
            rw [zpow_add₀ (by norm_num)]
            rfl
    have hlow := hm.low
    have hcast : (m : ℚ) < 2 ^ 53 + 1 := by linarith
    have hnat : m < 2 ^ 53 + 1 := by exact_mod_cast hcast
    omega
  obtain ⟨d, hcanonical, hcovers, hunsigned⟩ :=
    exists_covers_of_nearestNat hm hnormal hleast hbound
  exact ⟨d, hcanonical, hcovers, hunsigned ▸ hbits⟩

end Positive

/-- **Rounding a quotient.** There are canonical parts that cover it, and the double has these
parts unless their exponent is too great. -/
theorem parts_ofRatio (num : Nat) {den : Nat} (hden : 0 < den) :
    ∃ d : Dyadic, d.Canonical ∧ d.Covers (num / den) ∧ ∀ negative,
      parts (ofRatio negative num den) =
        if d.exponent ≤ greatestExponent then .finite (d.withSign negative)
        else .infinite negative := by
  obtain ⟨d, hd⟩ : ∃ d, BitsCover (magnitudeBits num den) (num / den) d := by
    rcases Nat.eq_zero_or_pos num with rfl | hnum
    · exact ⟨_, bitsCover_zero den⟩
    · exact exists_bitsCover hnum hden
  have hcanonical := hd.canonical
  refine ⟨d, hcanonical, hd.covers, fun negative => ?_⟩
  rw [ofRatio, hd.bits_eq, min_infinityBits hcanonical]
  split
  · next hle =>
      rw [← Dyadic.bits_withSign]
      exact parts_ofBits_bits (hcanonical.withSign negative) hle
  · exact parts_infinity negative

/-! ## The value of a double -/

/-- Half a last place above the greatest double: from here on values round to infinity. -/
def overflow : ℚ :=
  (2 ^ 54 - 1) * 2 ^ (970 : ℤ)

namespace Dyadic

variable {d : Dyadic} {x : ℚ}

theorem Covers.lt_overflow (hx : d.Covers x) (h : d.Canonical)
    (hle : d.exponent ≤ greatestExponent) : x < overflow := by
  have hmantissa := h.mantissa_lt
  have hhigh := hx.high
  have hinside := hx.inside
  have hunit : (0 : ℚ) < 2 ^ d.exponent := by positivity
  rw [highEnd_eq_add, magnitude] at hhigh hinside
  have hless : x < (2 ^ 53 - 1 / 2) * 2 ^ d.exponent := by
    rcases Nat.lt_or_eq_of_le (Nat.le_of_lt_succ hmantissa) with hless | hlast
    · have hcast : (d.mantissa + 1 / 2 : ℚ) < 2 ^ 53 - 1 / 2 := by
        have : (d.mantissa + 1 : ℚ) < 2 ^ 53 := by exact_mod_cast Nat.add_lt_of_lt_sub hless
        linarith
      calc x ≤ (d.mantissa + 1 / 2) * 2 ^ d.exponent := by linarith
        _ < (2 ^ 53 - 1 / 2) * 2 ^ d.exponent := mul_lt_mul_of_pos_right hcast hunit
    -- the end of the interval of the greatest mantissa does not belong to it
    · have hcast : (d.mantissa : ℚ) = 2 ^ 53 - 1 := by
        rw [hlast]
        norm_num
      have hstrict := (hinside (by omega)).2
      rw [hcast] at hstrict
      linarith
  calc x < (2 ^ 53 - 1 / 2) * 2 ^ d.exponent := hless
    _ ≤ (2 ^ 53 - 1 / 2) * 2 ^ ((970 : ℤ) + 1) := by
        apply mul_le_mul_of_nonneg_left _ (by norm_num)
        exact zpow_le_zpow_right₀ (by norm_num) hle
    _ = overflow := by
        rw [overflow, zpow_add_one₀ (by norm_num)]
        ring

theorem Covers.overflow_le (hx : d.Covers x) (h : d.Canonical)
    (hlt : greatestExponent < d.exponent) : overflow ≤ x := by
  have hleast : leastExponent < d.exponent := lt_trans (by decide) hlt
  have hmantissa := h.le_mantissa (ne_of_gt hleast)
  have hunit : (0 : ℚ) < 2 ^ d.exponent := by positivity
  have hlow := hx.low
  rw [lowEnd_eq_sub, magnitude] at hlow
  have hquarters : (2 ^ 52 - 1 / 4 : ℚ) ≤ d.mantissa - d.below / 4 := by
    have hnat : 2 ^ 54 + d.below ≤ 4 * d.mantissa + 1 := by
      unfold below
      split <;> omega
    have hcast : (2 ^ 54 + d.below : ℚ) ≤ 4 * d.mantissa + 1 := by exact_mod_cast hnat
    linarith
  calc overflow = (2 ^ 52 - 1 / 4) * 2 ^ ((970 : ℤ) + 2) := by
        rw [overflow, zpow_add₀ (by norm_num)]
        ring
    _ ≤ (2 ^ 52 - 1 / 4) * 2 ^ d.exponent := by
        apply mul_le_mul_of_nonneg_left _ (by norm_num)
        exact zpow_le_zpow_right₀ (by norm_num) hlt
    _ ≤ (d.mantissa - d.below / 4) * 2 ^ d.exponent :=
        mul_le_mul_of_nonneg_right hquarters (le_of_lt hunit)
    _ ≤ x := by linarith

end Dyadic

/-- A double is the correctly rounded one of a value and a sign: the nearest of all, with an
even mantissa if another is as near, or infinity if the value is too great. -/
inductive RoundsTo (negative : Bool) (x : ℚ) (y : Float) : Prop
  | finite {d : Dyadic} (parts_eq : parts y = .finite (d.withSign negative))
      (lt_overflow : x < overflow) (nearest : d.Nearest x)
  | infinite (parts_eq : parts y = .infinite negative) (overflow_le : overflow ≤ x)

/-- **Quotients are rounded correctly.** -/
theorem roundsTo_ofRatio (negative : Bool) (num : Nat) {den : Nat} (hden : 0 < den) :
    RoundsTo negative (num / den) (ofRatio negative num den) := by
  obtain ⟨d, hcanonical, hcovers, hparts⟩ := parts_ofRatio num hden
  have hparts := hparts negative
  split at hparts
  · next hle =>
      exact .finite hparts (hcovers.lt_overflow hcanonical hle) (hcovers.nearest hcanonical)
  · next hgreater =>
      exact .infinite hparts (hcovers.overflow_le hcanonical (not_le.1 hgreater))

theorem RoundsTo.neg {negative : Bool} {x : ℚ} {y : Float} (h : RoundsTo negative x y) :
    RoundsTo (!negative) x (-y) := by
  cases h with
  | finite hparts hless hnearest =>
      refine .finite ?_ hless hnearest
      rw [parts_neg, hparts]
      rfl
  | infinite hparts hle =>
      refine .infinite ?_ hle
      rw [parts_neg, hparts]
      rfl

/-- A value that is a double's rounds to this double. -/
theorem parts_ofRatio_magnitude {d : Dyadic} (h : d.Canonical)
    (hle : d.exponent ≤ greatestExponent) {num den : Nat} (hden : 0 < den)
    (hvalue : (num : ℚ) / den = d.magnitude) (negative : Bool) :
    parts (ofRatio negative num den) = .finite (d.withSign negative) := by
  obtain ⟨d', hcanonical, hcovers, hparts⟩ := parts_ofRatio num hden
  have hexact : d.Covers (num / den) := hvalue ▸ d.covers_magnitude
  obtain ⟨hmantissa, hexponent⟩ := Dyadic.eq_of_covers hcanonical h hcovers hexact
  rw [hparts, hexponent, if_pos hle, Dyadic.withSign, hmantissa, hexponent]
  rfl

end Stencil.Number
