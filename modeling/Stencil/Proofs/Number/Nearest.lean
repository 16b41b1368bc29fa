import Stencil.Proofs.Number.Interval

/-!
# The nearest double

The interval around a double holds the values that the double is nearest to, an even one if
another is as near (`Covers.nearest`). So it does not matter whether rounding is said by
intervals or by distances.
-/

namespace Stencil.Number

namespace Dyadic

variable {d d' : Dyadic}

theorem highEnd_eq_add (d : Dyadic) : d.highEnd = d.magnitude + 2 ^ d.exponent / 2 := by
  rw [highEnd, magnitude, two_zpow_quarter d.exponent]
  ring

theorem lowEnd_eq_sub (d : Dyadic) : d.lowEnd = d.magnitude - d.below * 2 ^ d.exponent / 4 := by
  rw [lowEnd, magnitude, two_zpow_quarter d.exponent]
  ring

/-- A greater double is greater by a last place at least. -/
theorem magnitude_add_le (h : d.Canonical) (h' : d'.Canonical)
    (hlt : d.magnitude < d'.magnitude) : d.magnitude + 2 ^ d.exponent ≤ d'.magnitude := by
  obtain ⟨j, hj⟩ := Int.le.dest (exponent_le h h' (le_of_lt hlt))
  have hmantissas : d.mantissa + 1 ≤ d'.mantissa * 2 ^ j := mantissa_lt_of_le hj hlt
  have hcast : (d.mantissa + 1 : ℚ) ≤ d'.mantissa * 2 ^ j := by exact_mod_cast hmantissas
  have hunit : (0 : ℚ) < 2 ^ d.exponent := by positivity
  have hexponent : (2 : ℚ) ^ d'.exponent = 2 ^ j * 2 ^ d.exponent := by
    rw [← hj, zpow_add₀ (by norm_num), zpow_natCast, mul_comm]
  rw [magnitude, magnitude, hexponent]
  nlinarith

/-- A smaller double is smaller by a last place at least, or by half of one below a power
of two. -/
theorem magnitude_le_sub (h : d.Canonical) (h' : d'.Canonical)
    (hlt : d'.magnitude < d.magnitude) :
    d'.magnitude ≤ d.magnitude - d.below * 2 ^ d.exponent / 2 := by
  obtain ⟨j, hj⟩ := Int.le.dest (exponent_le h' h (le_of_lt hlt))
  have hmantissas := mantissa_lt_of_le hj hlt
  have hunit : (0 : ℚ) < 2 ^ d'.exponent := by positivity
  have hbound := h'.mantissa_lt
  have hpow : 0 < j → 2 ≤ 2 ^ j := fun hpos => Nat.le_self_pow (Nat.ne_of_gt hpos) 2
  -- twice the mantissas, in last places of the smaller double
  have hdouble : 2 * d'.mantissa + d.below * 2 ^ j ≤ 2 * (d.mantissa * 2 ^ j) := by
    rcases below_cases h' hj hmantissas with ⟨hbelow, hmantissa, hpos⟩ | ⟨hbelow, hcase⟩
    · rw [hbelow, hmantissa]
      have := hpow hpos
      omega
    · rw [hbelow]
      rcases Nat.eq_zero_or_pos j with rfl | hpos
      · omega
      · have hnormal : 2 ^ 52 ≤ d.mantissa := by
          apply h.le_mantissa
          have := h'.least_le
          omega
        have hmul : (2 ^ 52 + 1) * 2 ^ j ≤ d.mantissa * 2 ^ j := by
          apply Nat.mul_le_mul_right
          omega
        have := hpow hpos
        omega
  have hcast : (2 * d'.mantissa + d.below * 2 ^ j : ℚ) ≤ 2 * (d.mantissa * 2 ^ j) := by
    exact_mod_cast hdouble
  have hexponent : (2 : ℚ) ^ d.exponent = 2 ^ j * 2 ^ d'.exponent := by
    rw [← hj, zpow_add₀ (by norm_num), zpow_natCast, mul_comm]
  rw [magnitude, magnitude, hexponent]
  nlinarith

/-- A double that is nearest to a value among all of any size, and has an even mantissa if
another is as near. -/
structure Nearest (d : Dyadic) (x : ℚ) : Prop where
  le : ∀ d' : Dyadic, d'.Canonical → |x - d.magnitude| ≤ |x - d'.magnitude|
  even : ∀ d' : Dyadic, d'.Canonical → d'.magnitude ≠ d.magnitude →
    |x - d.magnitude| = |x - d'.magnitude| → d.mantissa % 2 = 0

/-- **The values in the interval of a double are those that it is nearest to.** -/
theorem Covers.nearest (h : d.Canonical) {x : ℚ} (hx : d.Covers x) : d.Nearest x := by
  have hunit : (0 : ℚ) < 2 ^ d.exponent := by positivity
  have hbelow : (0 : ℚ) < d.below := by exact_mod_cast d.one_le_below
  have hlow := hx.low
  have hhigh := hx.high
  have hinside := hx.inside
  rw [lowEnd_eq_sub] at hlow hinside
  rw [highEnd_eq_add] at hhigh hinside
  have hmain : ∀ d' : Dyadic, d'.Canonical → d'.magnitude ≠ d.magnitude →
      |x - d.magnitude| ≤ |x - d'.magnitude| ∧
        (d.mantissa % 2 = 1 → |x - d.magnitude| < |x - d'.magnitude|) := by
    intro d' h' hne
    rcases lt_or_gt_of_ne hne with hless | hgreater
    · have hgap := magnitude_le_sub h h' hless
      have hpos : 0 < x - d'.magnitude := by nlinarith
      rw [abs_of_pos hpos]
      constructor
      · apply abs_le.2
        constructor <;> nlinarith
      · intro hodd
        obtain ⟨hlow', hhigh'⟩ := hinside hodd
        apply abs_lt.2
        constructor <;> nlinarith
    · have hgap := magnitude_add_le h h' hgreater
      have hneg : x - d'.magnitude < 0 := by nlinarith
      rw [abs_of_neg hneg]
      constructor
      · apply abs_le.2
        constructor <;> nlinarith
      · intro hodd
        obtain ⟨hlow', hhigh'⟩ := hinside hodd
        apply abs_lt.2
        constructor <;> nlinarith
  constructor
  · intro d' h'
    by_cases heq : d'.magnitude = d.magnitude
    · rw [heq]
    · exact (hmain d' h' heq).1
  · intro d' h' hne htie
    rcases Nat.mod_two_eq_zero_or_one d.mantissa with heven | hodd
    · exact heven
    · exact absurd htie (ne_of_lt ((hmain d' h' hne).2 hodd))

end Dyadic

end Stencil.Number
