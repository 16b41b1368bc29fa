import Stencil.Number.Shortest
import Stencil.Proofs.Number.Binary
import Mathlib.Algebra.Order.Field.Power
import Mathlib.Data.Rat.Cast.Order
import Mathlib.Tactic.FieldSimp
import Mathlib.Tactic.Linarith
import Mathlib.Tactic.NormNum
import Mathlib.Tactic.Positivity
import Mathlib.Tactic.Ring

/-!
# Which decimals read back as which double

Around every positive double there is an interval of values that round to it; its ends
belong to it if the mantissa is even. The intervals of two doubles have no value in
common (`eq_of_covers`), so a decimal in the interval tells which double it stands for.
-/

namespace Stencil.Number

/-- The exact magnitude. -/
def Dyadic.magnitude (d : Dyadic) : ℚ :=
  d.mantissa * 2 ^ d.exponent

/-- The exact value of a decimal. -/
def Decimal.value (d : Decimal) : ℚ :=
  d.coefficient * 10 ^ d.exponent

namespace Dyadic

/-- How far the interval goes below a magnitude, in quarters of the last place. -/
def below (d : Dyadic) : Nat :=
  if d.mantissa = 2 ^ 52 ∧ d.exponent ≠ leastExponent then 1 else 2

/-- The low end of the interval of values that round to a magnitude. -/
def lowEnd (d : Dyadic) : ℚ :=
  (4 * d.mantissa - d.below) * 2 ^ (d.exponent - 2)

/-- The high end of the interval of values that round to a magnitude. -/
def highEnd (d : Dyadic) : ℚ :=
  (4 * d.mantissa + 2) * 2 ^ (d.exponent - 2)

/-- A value rounds to the magnitude. -/
structure Covers (d : Dyadic) (x : ℚ) : Prop where
  low : d.lowEnd ≤ x
  high : x ≤ d.highEnd
  inside : d.mantissa % 2 = 1 → d.lowEnd < x ∧ x < d.highEnd

theorem below_le (d : Dyadic) : d.below ≤ 2 := by
  unfold below
  split <;> omega

theorem one_le_below (d : Dyadic) : 1 ≤ d.below := by
  unfold below
  split <;> omega

/-! ## Intervals of different doubles -/

/-- The gap between two mantissas, in quarters of the last place of the first, where the
last place of the second is `2 ^ j` times that. -/
theorem gap {m m' below j : Nat} (hm : m < 2 ^ 53) (hm' : 0 < j → 2 ^ 52 ≤ m')
    (hbelow : below = 1 ∧ m' = 2 ^ 52 ∧ 0 < j ∨ below = 2 ∧ (m' ≠ 2 ^ 52 ∨ j = 0))
    (hlt : m < m' * 2 ^ j) :
    4 * m + 2 < (4 * m' - below) * 2 ^ j ∨
      4 * m + 2 = (4 * m' - below) * 2 ^ j ∧ (m % 2 = 1 ∨ m' % 2 = 1) := by
  rcases Nat.eq_zero_or_pos j with rfl | hj
  · rw [pow_zero] at hlt ⊢
    omega
  · have hpow : 2 ≤ 2 ^ j := Nat.le_self_pow (Nat.ne_of_gt hj) 2
    have hnormal := hm' hj
    rcases hbelow with ⟨rfl, rfl, -⟩ | ⟨rfl, hne⟩
    -- the interval of a power of two is narrower below
    · have hmul : (4 * 2 ^ 52 - 1) * 2 ≤ (4 * 2 ^ 52 - 1) * 2 ^ j := Nat.mul_le_mul_left _ hpow
      omega
    · have hmul : (4 * m' - 2) * 2 ≤ (4 * m' - 2) * 2 ^ j := Nat.mul_le_mul_left _ hpow
      omega

variable {d d' : Dyadic}

theorem two_zpow_quarter (e : ℤ) : (2 : ℚ) ^ e = 4 * 2 ^ (e - 2) := by
  rw [zpow_sub₀ (by norm_num)]
  norm_num
  ring

theorem two_zpow_of_add {e e' : ℤ} {j : Nat} (h : e + j = e') :
    (2 : ℚ) ^ (e' - 2) = 2 ^ j * 2 ^ (e - 2) := by
  rw [← h, add_sub_right_comm, zpow_add₀ (by norm_num), zpow_natCast, mul_comm]

/-- Magnitudes in units of the last place of the first. -/
theorem mantissa_lt_of_le {j : Nat} (hj : d.exponent + j = d'.exponent)
    (hlt : d.magnitude < d'.magnitude) : d.mantissa < d'.mantissa * 2 ^ j := by
  have hunit : (0 : ℚ) < 2 ^ (d.exponent - 2) := by positivity
  rw [magnitude, magnitude, two_zpow_quarter, two_zpow_quarter d'.exponent,
    two_zpow_of_add hj] at hlt
  have hcast : (d.mantissa : ℚ) < d'.mantissa * 2 ^ j := by nlinarith
  exact_mod_cast hcast

/-- A canonical double that is not greater has no greater exponent. -/
theorem exponent_le (h : d.Canonical) (h' : d'.Canonical) (hle : d.magnitude ≤ d'.magnitude) :
    d.exponent ≤ d'.exponent := by
  by_contra hgreater
  obtain ⟨j, hj⟩ := Int.le.dest (Int.lt_of_not_ge hgreater)
  have hj' : d'.exponent + (j + 1 : ℕ) = d.exponent := by
    push_cast
    omega
  have hunit : (0 : ℚ) < 2 ^ (d'.exponent - 2) := by positivity
  rw [magnitude, magnitude, two_zpow_quarter, two_zpow_quarter d'.exponent,
    two_zpow_of_add hj'] at hle
  have hcast : (d.mantissa : ℚ) * 2 ^ (j + 1) ≤ d'.mantissa := by nlinarith
  have hmantissas : d.mantissa * 2 ^ (j + 1) ≤ d'.mantissa := by exact_mod_cast hcast
  have hnormal : 2 ^ 52 ≤ d.mantissa := by
    apply h.le_mantissa
    have := h'.least_le
    omega
  have hpow : 2 ≤ 2 ^ (j + 1) := Nat.le_self_pow (Nat.succ_ne_zero j) 2
  have hmul : d.mantissa * 2 ≤ d.mantissa * 2 ^ (j + 1) := Nat.mul_le_mul_left _ hpow
  have := h'.mantissa_lt
  omega

/-- Canonical parts are determined by the magnitude. -/
theorem eq_of_magnitude (h : d.Canonical) (h' : d'.Canonical)
    (heq : d.magnitude = d'.magnitude) :
    d.mantissa = d'.mantissa ∧ d.exponent = d'.exponent := by
  have hexponent : d.exponent = d'.exponent :=
    Int.le_antisymm (exponent_le h h' (le_of_eq heq)) (exponent_le h' h (le_of_eq heq.symm))
  refine ⟨?_, hexponent⟩
  have hunit : (2 : ℚ) ^ d'.exponent ≠ 0 := by positivity
  rw [magnitude, magnitude, hexponent] at heq
  exact_mod_cast mul_right_cancel₀ hunit heq

theorem below_cases {j : Nat} (h : d.Canonical) (hj : d.exponent + j = d'.exponent)
    (hlt : d.mantissa < d'.mantissa * 2 ^ j) :
    d'.below = 1 ∧ d'.mantissa = 2 ^ 52 ∧ 0 < j ∨
      d'.below = 2 ∧ (d'.mantissa ≠ 2 ^ 52 ∨ j = 0) := by
  have hleast := h.least_le
  by_cases hpower : d'.mantissa = 2 ^ 52 ∧ d'.exponent ≠ leastExponent
  · refine Or.inl ⟨if_pos hpower, hpower.1, Nat.pos_of_ne_zero ?_⟩
    -- of one exponent, no normal mantissa is below the least
    rintro rfl
    have hnormal := h.le_mantissa (by omega)
    rw [hpower.1, pow_zero] at hlt
    omega
  · refine Or.inr ⟨if_neg hpower, ?_⟩
    by_cases hj0 : j = 0
    · exact Or.inr hj0
    · left
      intro heq
      exact hpower ⟨heq, by omega⟩

/-- The interval of a smaller double ends where that of a greater one starts, or before,
and an end of both belongs to one of them at most. -/
theorem highEnd_le_lowEnd (h : d.Canonical) (h' : d'.Canonical)
    (hlt : d.magnitude < d'.magnitude) :
    d.highEnd < d'.lowEnd ∨
      d.highEnd = d'.lowEnd ∧ (d.mantissa % 2 = 1 ∨ d'.mantissa % 2 = 1) := by
  obtain ⟨j, hj⟩ := Int.le.dest (exponent_le h h' (le_of_lt hlt))
  have hmantissas := mantissa_lt_of_le hj hlt
  have hunit : (0 : ℚ) < 2 ^ (d.exponent - 2) := by positivity
  have hnormal : 0 < j → 2 ^ 52 ≤ d'.mantissa := by
    intro hpos
    apply h'.le_mantissa
    have := h.least_le
    omega
  have hpos : d'.below ≤ 4 * d'.mantissa := by
    have := below_le d'
    have : d'.mantissa ≠ 0 := by
      intro hzero
      rw [hzero, Nat.zero_mul] at hmantissas
      exact Nat.not_lt_zero _ hmantissas
    omega
  -- both ends in quarters of the last place of the smaller double
  have hlow : d'.lowEnd = ((4 * d'.mantissa - d'.below) * 2 ^ j : ℕ) * 2 ^ (d.exponent - 2) := by
    rw [lowEnd, two_zpow_of_add hj]
    push_cast [hpos]
    ring
  have hhigh : d.highEnd = (4 * d.mantissa + 2 : ℕ) * 2 ^ (d.exponent - 2) := by
    rw [highEnd]
    push_cast
    ring
  rw [hlow, hhigh]
  rcases gap h.mantissa_lt hnormal (below_cases h hj hmantissas) hmantissas with
    hless | ⟨heq, hodd⟩
  · left
    apply mul_lt_mul_of_pos_right _ hunit
    exact_mod_cast hless
  · right
    exact ⟨by rw [heq], hodd⟩

theorem not_covers_both (h : d.Canonical) (h' : d'.Canonical) (hlt : d.magnitude < d'.magnitude)
    {x : ℚ} (hx : d.Covers x) : ¬ d'.Covers x := by
  intro hx'
  rcases highEnd_le_lowEnd h h' hlt with hless | ⟨heq, hodd | hodd⟩
  · exact absurd (hx'.low.trans hx.high) (not_le.2 hless)
  · have hinside := (hx.inside hodd).2
    rw [heq] at hinside
    exact absurd hx'.low (not_le.2 hinside)
  · have hinside := (hx'.inside hodd).1
    rw [← heq] at hinside
    exact absurd hx.high (not_le.2 hinside)

/-- **A value rounds to one double.** -/
theorem eq_of_covers (h : d.Canonical) (h' : d'.Canonical) {x : ℚ}
    (hx : d.Covers x) (hx' : d'.Covers x) :
    d.mantissa = d'.mantissa ∧ d.exponent = d'.exponent := by
  rcases lt_trichotomy d.magnitude d'.magnitude with hlt | heq | hgt
  · exact absurd hx' (not_covers_both h h' hlt hx)
  · exact eq_of_magnitude h h' heq
  · exact absurd hx (not_covers_both h' h hgt hx')

end Dyadic

end Stencil.Number
