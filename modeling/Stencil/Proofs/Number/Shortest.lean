import Stencil.Proofs.Number.Digits
import Stencil.Proofs.Number.Interval
import Mathlib.Data.Nat.Cast.Order.Field

/-!
# The shortest decimal stands for its double

The decimal that is found for a double lies in the interval of values that round to the
double (`shortest_covers`). A grid of 17 digits is finer than the interval is wide, so
the search ends there at the latest.
-/

namespace Stencil.Number

/-! ## Natural numbers over a common denominator -/

theorem zpow_eq_div (b : ℚ) (z : ℤ) : b ^ z = b ^ z.toNat / b ^ (-z).toNat := by
  rcases Int.le_total 0 z with hz | hz
  · obtain ⟨n, rfl⟩ := Int.eq_ofNat_of_zero_le hz
    rw [zpow_natCast, Int.toNat_natCast, Int.toNat_neg_natCast, pow_zero, div_one]
  · obtain ⟨n, hn⟩ := Int.eq_ofNat_of_zero_le (Int.neg_nonneg_of_nonpos hz)
    obtain rfl : z = -(n : ℤ) := by omega
    rw [zpow_neg, zpow_natCast, neg_neg, Int.toNat_natCast, Int.toNat_neg_natCast, pow_zero,
      one_div]

section Denominator

variable (k : ℤ) {den : Nat} (hden : 0 < den)
include hden

theorem point_eq_div (q : Nat) :
    (q : ℚ) * 10 ^ k = (q * 10 ^ k.toNat * den : ℕ) / (10 ^ (-k).toNat * den : ℕ) := by
  have hden' : (den : ℚ) ≠ 0 := by exact_mod_cast Nat.ne_of_gt hden
  rw [zpow_eq_div]
  push_cast
  field_simp

theorem end_eq_div (a : Nat) :
    (a : ℚ) / den = (a * 10 ^ (-k).toNat : ℕ) / (10 ^ (-k).toNat * den : ℕ) := by
  have hden' : (den : ℚ) ≠ 0 := by exact_mod_cast Nat.ne_of_gt hden
  push_cast
  field_simp

theorem denominator_pos : (0 : ℚ) < (10 ^ (-k).toNat * den : ℕ) := by
  have hpow : 0 < 10 ^ (-k).toNat := Nat.pow_pos (by decide)
  exact_mod_cast Nat.mul_pos hpow hden

end Denominator

/-! ## The interval -/

variable {d : Dyadic}

theorem neighbourhood_den_pos (d : Dyadic) : 0 < (neighbourhood d).den :=
  Nat.pow_pos (by decide)

theorem two_zpow_eq (d : Dyadic) :
    (2 : ℚ) ^ (d.exponent - 2) =
      (2 ^ (d.exponent - 2).toNat : ℕ) / ((neighbourhood d).den : ℕ) := by
  rw [zpow_eq_div]
  change _ = _ / ((2 ^ (-(d.exponent - 2)).toNat : ℕ) : ℚ)
  push_cast
  rfl

theorem highEnd_eq (d : Dyadic) :
    d.highEnd = ((neighbourhood d).high : ℚ) / (neighbourhood d).den := by
  have hhigh : (neighbourhood d).high = (4 * d.mantissa + 2) * 2 ^ (d.exponent - 2).toNat := rfl
  rw [Dyadic.highEnd, two_zpow_eq, hhigh]
  push_cast
  ring

theorem magnitude_eq (d : Dyadic) :
    d.magnitude = ((neighbourhood d).value : ℚ) / (neighbourhood d).den := by
  have hvalue : (neighbourhood d).value = 4 * d.mantissa * 2 ^ (d.exponent - 2).toNat := rfl
  rw [Dyadic.magnitude, Dyadic.two_zpow_quarter, two_zpow_eq, hvalue]
  push_cast
  ring

theorem lowEnd_eq (hpos : 0 < d.mantissa) :
    d.lowEnd = ((neighbourhood d).low : ℚ) / (neighbourhood d).den := by
  have hlow : (neighbourhood d).low =
      (4 * d.mantissa - d.below) * 2 ^ (d.exponent - 2).toNat := rfl
  have hbelow : d.below ≤ 4 * d.mantissa := by
    have := d.below_le
    omega
  rw [Dyadic.lowEnd, two_zpow_eq, hlow]
  push_cast [hbelow]
  ring

theorem lowEnd_pos (hpos : 0 < d.mantissa) : 0 < d.lowEnd := by
  have hunit : (0 : ℚ) < 2 ^ (d.exponent - 2) := by positivity
  have hbelow : (d.below : ℚ) ≤ 2 := by exact_mod_cast d.below_le
  have hmantissa : (1 : ℚ) ≤ d.mantissa := by exact_mod_cast hpos
  apply mul_pos _ hunit
  linarith

/-- What it takes for a point of a grid to be in the interval. -/
theorem contains_iff (hpos : 0 < d.mantissa) (k : ℤ) (q : Nat) :
    (neighbourhood d).contains k q = true ↔
      if d.mantissa % 2 = 0 then d.lowEnd ≤ q * 10 ^ k ∧ q * 10 ^ k ≤ d.highEnd
      else d.lowEnd < q * 10 ^ k ∧ q * 10 ^ k < d.highEnd := by
  have hden := neighbourhood_den_pos d
  have hcommon := denominator_pos k hden
  have hclosed : (neighbourhood d).closed = decide (d.mantissa % 2 = 0) := rfl
  rw [lowEnd_eq hpos, highEnd_eq, point_eq_div k hden, end_eq_div k hden, end_eq_div k hden,
    div_le_div_iff_of_pos_right hcommon, div_le_div_iff_of_pos_right hcommon,
    div_lt_div_iff_of_pos_right hcommon, div_lt_div_iff_of_pos_right hcommon]
  simp only [Nat.cast_le, Nat.cast_lt]
  unfold Neighbourhood.contains
  rw [hclosed]
  by_cases heven : d.mantissa % 2 = 0
  · simp only [heven, decide_true, if_true, decide_eq_true_eq, Nat.pow_eq, Bool.decide_and,
      Bool.and_eq_true]
  · simp only [heven, decide_false, if_false, decide_eq_true_eq, Nat.pow_eq, Bool.decide_and,
      Bool.and_eq_true, Bool.false_eq_true]

theorem covers_of_contains (hpos : 0 < d.mantissa) {k : ℤ} {q : Nat}
    (h : (neighbourhood d).contains k q = true) : d.Covers (q * 10 ^ k) := by
  rw [contains_iff hpos] at h
  split at h
  · next heven => exact ⟨h.1, h.2, fun hodd => by omega⟩
  · exact ⟨le_of_lt h.1, le_of_lt h.2, fun _ => h⟩

theorem contains_of_inside (hpos : 0 < d.mantissa) {k : ℤ} {q : Nat}
    (hlow : d.lowEnd < q * 10 ^ k) (hhigh : q * 10 ^ k < d.highEnd) :
    (neighbourhood d).contains k q = true := by
  rw [contains_iff hpos]
  split
  · exact ⟨le_of_lt hlow, le_of_lt hhigh⟩
  · exact ⟨hlow, hhigh⟩

/-! ## One grid -/

theorem roundDiv_cases (tie : Tie) (num den : Nat) :
    roundDiv tie num den = num / den ∨ roundDiv tie num den = num / den + 1 := by
  unfold roundDiv
  dsimp only
  split
  · exact Or.inl rfl
  · split
    · exact Or.inr rfl
    · cases tie with
      | toEven =>
          dsimp only
          omega
      | away => exact Or.inr rfl

/-- What is found on a grid lies in the interval. -/
theorem contains_of_nearest? {n : Neighbourhood} {tie : Tie} {k : ℤ} {q : Nat}
    (h : n.nearest? tie k = some q) : n.contains k q = true := by
  unfold Neighbourhood.nearest? at h
  dsimp only at h
  split at h
  · next hfloor hceil =>
      rcases roundDiv_cases tie (n.value * Nat.pow 10 (-k).toNat) (n.den * Nat.pow 10 k.toNat) with
        hq | hq
      · rw [← Option.some.inj h, hq, hfloor]
      · rw [← Option.some.inj h, hq, hceil]
  · next hfloor _ => rw [← Option.some.inj h, hfloor]
  · next _ hceil => rw [← Option.some.inj h, hceil]
  · cases h

/-- The two points of a grid next to the magnitude. -/
theorem neighbours (d : Dyadic) (k : ℤ) :
    let q := (neighbourhood d).value * 10 ^ (-k).toNat / ((neighbourhood d).den * 10 ^ k.toNat)
    (q : ℚ) * 10 ^ k ≤ d.magnitude ∧ d.magnitude < ((q + 1 : ℕ) : ℚ) * 10 ^ k := by
  intro q
  have hden := neighbourhood_den_pos d
  have hcommon := denominator_pos k hden
  have hstep : 0 < (neighbourhood d).den * 10 ^ k.toNat :=
    Nat.mul_pos hden (Nat.pow_pos (by decide))
  rw [magnitude_eq, end_eq_div k hden, point_eq_div k hden, point_eq_div k hden,
    div_le_div_iff_of_pos_right hcommon, div_lt_div_iff_of_pos_right hcommon, Nat.cast_le,
    Nat.cast_lt]
  constructor
  · have hle := Nat.div_mul_le_self ((neighbourhood d).value * 10 ^ (-k).toNat)
      ((neighbourhood d).den * 10 ^ k.toNat)
    calc q * 10 ^ k.toNat * (neighbourhood d).den
        = q * ((neighbourhood d).den * 10 ^ k.toNat) := by ring
      _ ≤ (neighbourhood d).value * 10 ^ (-k).toNat := hle
  · have hlt := Nat.lt_div_mul_add (a := (neighbourhood d).value * 10 ^ (-k).toNat) hstep
    calc (neighbourhood d).value * 10 ^ (-k).toNat
        < q * ((neighbourhood d).den * 10 ^ k.toNat) + (neighbourhood d).den * 10 ^ k.toNat := hlt
      _ = (q + 1) * 10 ^ k.toNat * (neighbourhood d).den := by ring

theorem lowEnd_lt (d : Dyadic) : d.lowEnd < d.magnitude := by
  have hunit : (0 : ℚ) < 2 ^ (d.exponent - 2) := by positivity
  have hbelow : (1 : ℚ) ≤ d.below := by exact_mod_cast d.one_le_below
  rw [Dyadic.lowEnd, Dyadic.magnitude, Dyadic.two_zpow_quarter d.exponent]
  nlinarith

theorem lt_highEnd (d : Dyadic) : d.magnitude < d.highEnd := by
  have hunit : (0 : ℚ) < 2 ^ (d.exponent - 2) := by positivity
  rw [Dyadic.highEnd, Dyadic.magnitude, Dyadic.two_zpow_quarter d.exponent]
  nlinarith

/-- A magnitude rounds to itself. -/
theorem Dyadic.covers_magnitude (d : Dyadic) : d.Covers d.magnitude :=
  ⟨le_of_lt (lowEnd_lt d), le_of_lt (lt_highEnd d), fun _ => ⟨lowEnd_lt d, lt_highEnd d⟩⟩

/-- A grid that is finer than the interval is wide has a point in it. -/
theorem exists_nearest? (hpos : 0 < d.mantissa) (tie : Tie) {k : ℤ}
    (hwidth : (10 : ℚ) ^ k < d.highEnd - d.lowEnd) :
    ∃ q, (neighbourhood d).nearest? tie k = some q := by
  obtain ⟨hfloor, hceil⟩ := neighbours d k
  unfold Neighbourhood.nearest?
  dsimp only
  simp only [Nat.pow_eq]
  set q := (neighbourhood d).value * 10 ^ (-k).toNat / ((neighbourhood d).den * 10 ^ k.toNat)
  split
  · exact ⟨_, rfl⟩
  · exact ⟨_, rfl⟩
  · exact ⟨_, rfl⟩
  · next hno hno' =>
      -- the interval would lie between two points of the grid
      exfalso
      have hlow : (q : ℚ) * 10 ^ k ≤ d.lowEnd := by
        by_contra hlt
        have hin := contains_of_inside hpos (not_le.1 hlt) (lt_of_le_of_lt hfloor (lt_highEnd d))
        rw [hin] at hno
        cases hno
      have hhigh : d.highEnd ≤ ((q + 1 : ℕ) : ℚ) * 10 ^ k := by
        by_contra hlt
        have hin := contains_of_inside hpos (lt_trans (lowEnd_lt d) hceil) (not_le.1 hlt)
        rw [hin] at hno'
        cases hno'
      push_cast at hhigh
      linarith

/-! ## Seventeen digits -/

theorem leadingZeros_spec {fuel num den : Nat} (h : den ≤ num * 10 ^ (fuel + 1)) :
    den ≤ num * 10 ^ (leadingZeros fuel num den + 1) := by
  induction fuel generalizing num with
  | zero => exact h
  | succ fuel ih =>
      rw [leadingZeros]
      by_cases hfirst : den ≤ num * 10
      · rw [if_pos hfirst]
        exact hfirst
      · rw [if_neg hfirst, pow_succ', ← Nat.mul_assoc]
        apply ih
        rwa [Nat.mul_assoc, ← pow_succ']

/-- The first digit of a quotient stands where `decimalPosition` says, or before. -/
theorem pow_decimalPosition_le {num den : Nat} (hden : 0 < den)
    (hfuel : den ≤ num * 10 ^ (400 + 1)) : (10 : ℚ) ^ (decimalPosition num den - 1) ≤ num / den := by
  have hden' : (0 : ℚ) < den := by exact_mod_cast hden
  unfold decimalPosition
  split
  · next hle =>
      have hwhole : 0 < num / den := Nat.div_pos hle hden
      have hlength : 0 < (digits 10 (num / den)).length :=
        List.length_pos_of_ne_nil (digits_ne_nil (by decide) _)
      have hfirst : 10 ^ ((digits 10 (num / den)).length - 1) ≤ num / den :=
        pow_length_digits_le (by decide) hwhole
      have hexponent : ((digits 10 (num / den)).length : ℤ) - 1 =
          ((digits 10 (num / den)).length - 1 : ℕ) := by omega
      rw [hexponent, zpow_natCast]
      calc (10 : ℚ) ^ ((digits 10 (num / den)).length - 1)
          ≤ ((num / den : ℕ) : ℚ) := by exact_mod_cast hfirst
        _ ≤ num / den := Nat.cast_div_le
  · next hlt =>
      have hzeros : den ≤ num * 10 ^ (leadingZeros 400 num den + 1) := leadingZeros_spec hfuel
      have hexponent : -(leadingZeros 400 num den : ℤ) - 1 =
          -((leadingZeros 400 num den + 1 : ℕ) : ℤ) := by
        push_cast
        ring
      rw [hexponent, zpow_neg, zpow_natCast, inv_eq_one_div, div_le_div_iff₀ (by positivity) hden',
        one_mul]
      exact_mod_cast hzeros

/-- Three binary places are less than one decimal place. -/
theorem den_le (hpos : 0 < d.mantissa) {n : Nat} (hn : -(d.exponent - 2) ≤ 3 * n) :
    (neighbourhood d).den ≤ (neighbourhood d).value * 10 ^ n := by
  have hexponent : (-(d.exponent - 2)).toNat ≤ 3 * n := by omega
  have hvalue : 0 < (neighbourhood d).value :=
    Nat.mul_pos (Nat.mul_pos (by decide) hpos) (Nat.pow_pos (by decide))
  calc (neighbourhood d).den = 2 ^ (-(d.exponent - 2)).toNat := rfl
    _ ≤ 2 ^ (3 * n) := Nat.pow_le_pow_right (by decide) hexponent
    _ = (2 ^ 3) ^ n := Nat.pow_mul 2 3 n
    _ ≤ 10 ^ n := Nat.pow_le_pow_left (by decide) n
    _ ≤ (neighbourhood d).value * 10 ^ n := Nat.le_mul_of_pos_left _ hvalue

/-- The interval is wider than the step of the grid of 17 digits. -/
theorem seventeen_digits (h : d.Canonical) (hpos : 0 < d.mantissa) :
    (10 : ℚ) ^ (decimalPosition (neighbourhood d).value (neighbourhood d).den - 17) <
      d.highEnd - d.lowEnd := by
  have hunit : (0 : ℚ) < 2 ^ (d.exponent - 2) := by positivity
  have hleast : -1074 ≤ d.exponent := h.least_le
  have hposition := pow_decimalPosition_le (neighbourhood_den_pos d) (den_le hpos (by omega))
  rw [← magnitude_eq, Dyadic.magnitude, Dyadic.two_zpow_quarter] at hposition
  set p := decimalPosition (neighbourhood d).value (neighbourhood d).den
  have hstep : (10 : ℚ) ^ (p - 17) * 10 ^ 16 = 10 ^ (p - 1) := by
    have hsplit : p - 1 = p - 17 + (16 : ℕ) := by
      push_cast
      ring
    rw [hsplit, zpow_add₀ (by norm_num), zpow_natCast]
  have hwidth : d.highEnd - d.lowEnd = (2 + d.below) * 2 ^ (d.exponent - 2) := by
    rw [Dyadic.highEnd, Dyadic.lowEnd]
    ring
  -- 53 bits are less than 16 digits for a whole interval, and 52 bits for a power of two
  have hmantissa : (4 : ℚ) * d.mantissa < (2 + d.below) * 10 ^ 16 := by
    have hlt := h.mantissa_lt
    have hnat : 4 * d.mantissa < (2 + d.below) * 10 ^ 16 := by
      unfold Dyadic.below
      split
      · next hpower => rw [hpower.1]; decide
      · omega
    exact_mod_cast hnat
  rw [hwidth]
  nlinarith

/-! ## The search -/

/-- The search ends with a decimal in the interval, with a grid of 17 digits at the
latest. -/
theorem contains_firstGrid {n : Neighbourhood} {tie : Tie} {position : ℤ}
    (hlast : ∃ q, n.nearest? tie (position - 17) = some q) {fuel count : Nat}
    (hcount : count + fuel = 18) (hfuel : 0 < fuel) :
    n.contains (n.firstGrid tie position fuel count).exponent
      (n.firstGrid tie position fuel count).coefficient = true := by
  induction fuel generalizing count with
  | zero => exact absurd hfuel (Nat.lt_irrefl 0)
  | succ fuel ih =>
      rw [Neighbourhood.firstGrid]
      cases hnearest : n.nearest? tie (position - count) with
      | some q => exact contains_of_nearest? hnearest
      | none =>
          rcases Nat.eq_zero_or_pos fuel with rfl | hmore
          -- the last grid has a point
          · obtain ⟨q, hq⟩ := hlast
            obtain rfl : count = 17 := by omega
            exact absurd (hnearest.symm.trans hq) (by simp)
          · exact ih (by omega) hmore

/-- Zeros at the end move into the exponent. -/
theorem value_stripZeros (fuel : Nat) (d : Decimal) : (d.stripZeros fuel).value = d.value := by
  induction fuel generalizing d with
  | zero => rfl
  | succ fuel ih =>
      rw [Decimal.stripZeros]
      split
      · next hzero =>
          obtain ⟨q, hq⟩ := Nat.dvd_of_mod_eq_zero hzero.2
          rw [ih, Decimal.value, Decimal.value, hq, Nat.mul_div_cancel_left q (by decide),
            zpow_add_one₀ (by norm_num)]
          push_cast
          ring
      · rfl

/-- **The shortest decimal rounds to its double.** -/
theorem shortest_covers (h : d.Canonical) (hpos : 0 < d.mantissa) (tie : Tie) :
    d.Covers (shortest tie d).value := by
  have hlast := exists_nearest? hpos tie (seventeen_digits h hpos)
  rw [shortest, value_stripZeros]
  exact covers_of_contains hpos (contains_firstGrid hlast rfl (by decide))

/-- **Different doubles have different shortest decimals.** -/
theorem eq_of_shortest {d' : Dyadic} {tie : Tie} (h : d.Canonical) (h' : d'.Canonical)
    (hpos : 0 < d.mantissa) (hpos' : 0 < d'.mantissa)
    (heq : (shortest tie d).value = (shortest tie d').value) :
    d.mantissa = d'.mantissa ∧ d.exponent = d'.exponent := by
  have hcovers' := shortest_covers h' hpos' tie
  rw [← heq] at hcovers'
  exact Dyadic.eq_of_covers h h' (shortest_covers h hpos tie) hcovers'

end Stencil.Number
