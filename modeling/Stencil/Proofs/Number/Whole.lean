import Stencil.Number.Integral
import Stencil.Proofs.Number.Layout
import Stencil.Proofs.Number.Rounding

/-!
# Whole numbers

Up to `2 ^ 53` every whole number is a double (`parts_ofInt`), and its text is its decimal
numeral (`writeMagnitude_whole`): its decimals are on the grid of step one, and that grid and
the coarser ones have no point in the interval around it that is nearer.
-/

namespace Stencil.Number

/-- The greatest number up to which every whole number is a double. -/
def greatestWhole : Nat := 2 ^ 53

/-! ## Integral values -/

/-- The exact value. -/
def Dyadic.value (d : Dyadic) : ℚ :=
  if d.negative then -d.magnitude else d.magnitude

/-- A double is finite and has a value. Both zeros have the value zero. -/
def HasValue (x : Float) (q : ℚ) : Prop :=
  ∃ d, parts x = .finite d ∧ d.value = q

theorem Dyadic.magnitude_nonneg (d : Dyadic) : 0 ≤ d.magnitude := by
  rw [magnitude]
  positivity

theorem Dyadic.magnitude_pos_iff {d : Dyadic} : 0 < d.magnitude ↔ d.mantissa ≠ 0 := by
  have hunit : (0 : ℚ) < 2 ^ d.exponent := by positivity
  rw [magnitude, mul_pos_iff_of_pos_right hunit, Nat.cast_pos, Nat.pos_iff_ne_zero]

/-- A zero is not below zero, whatever its sign. -/
theorem Dyadic.value_neg_iff {d : Dyadic} :
    d.value < 0 ↔ d.negative = true ∧ d.mantissa ≠ 0 := by
  rw [value, ← magnitude_pos_iff]
  cases d.negative with
  | true => simp
  | false => simpa using d.magnitude_nonneg

/-- The magnitude as a quotient of natural numbers. -/
theorem Dyadic.magnitude_eq_div (d : Dyadic) :
    d.magnitude = (d.mantissa * 2 ^ d.exponent.toNat : ℕ) / d.unit := by
  have hcast : ((d.unit : ℕ) : ℚ) = 2 ^ (-d.exponent).toNat := by
    rw [Dyadic.unit, Nat.pow_eq]
    push_cast
    rfl
  rw [Dyadic.magnitude, zpow_eq_div, hcast]
  push_cast
  ring

/-- A magnitude is a whole number if it has no fraction. -/
theorem Dyadic.magnitude_eq_iff (d : Dyadic) (n : Nat) :
    d.magnitude = n ↔ d.isIntegral = true ∧ d.wholePart = n := by
  have hunit : 0 < d.unit := Nat.pow_pos (by decide)
  have hunit' : (d.unit : ℚ) ≠ 0 := by exact_mod_cast Nat.ne_of_gt hunit
  have hmantissa : d.mantissa % d.unit = 0 ↔
      d.unit ∣ d.mantissa * 2 ^ d.exponent.toNat := by
    rcases Int.le_total 0 d.exponent with he | he
    · have hone : d.unit = 1 := by
        rw [Dyadic.unit, Int.toNat_of_nonpos (by omega)]
      rw [hone, Nat.mod_one]
      exact iff_of_true rfl (Nat.one_dvd _)
    · rw [Int.toNat_of_nonpos he, pow_zero, Nat.mul_one]
      exact Nat.dvd_iff_mod_eq_zero.symm
  rw [d.magnitude_eq_div, div_eq_iff hunit', isIntegral, decide_eq_true_iff, hmantissa, wholePart,
    Nat.pow_eq]
  constructor
  · intro heq
    have hnat : d.mantissa * 2 ^ d.exponent.toNat = n * d.unit := by exact_mod_cast heq
    rw [hnat]
    exact ⟨Nat.dvd_mul_left _ _, Nat.mul_div_cancel n hunit⟩
  · rintro ⟨hdvd, hquotient⟩
    have hnat := Nat.div_mul_cancel hdvd
    rw [hquotient] at hnat
    exact_mod_cast hnat.symm

theorem mantissa_pos {d : Dyadic} {n : Nat} (hvalue : d.magnitude = n) (hpos : 0 < n) :
    0 < d.mantissa := by
  apply Nat.pos_of_ne_zero
  intro hzero
  rw [Dyadic.magnitude, hzero, Nat.cast_zero, zero_mul] at hvalue
  exact absurd hvalue.symm (by exact_mod_cast Nat.ne_of_gt hpos)

/-- Whole numbers with at most 53 digits are doubles. -/
theorem exists_canonical {n : Nat} (hn : n ≤ greatestWhole) :
    ∃ d : Dyadic, d.Canonical ∧ d.exponent ≤ greatestExponent ∧ d.magnitude = n := by
  have hgreatest : greatestWhole = 2 ^ 53 := rfl
  have hgreatestExponent : greatestExponent = 971 := rfl
  have hleast : leastExponent = -1074 := rfl
  rcases Nat.lt_or_eq_of_le hn with hless | rfl
  · rcases Nat.eq_zero_or_pos n with rfl | hpos
    · refine ⟨zeroParts, canonical_zeroParts, by decide, ?_⟩
      rw [Dyadic.magnitude, zeroParts, Nat.cast_zero, zero_mul]
    · have hlog : n.log2 < 53 := (Nat.log2_lt (Nat.ne_of_gt hpos)).2 hless
      have hlow : 2 ^ n.log2 ≤ n := Nat.log2_self_le (Nat.ne_of_gt hpos)
      have hhigh : n < 2 ^ (n.log2 + 1) := Nat.lt_log2_self
      have hscale : 0 < 2 ^ (52 - n.log2) := Nat.pow_pos (by decide)
      refine ⟨⟨false, n * 2 ^ (52 - n.log2), n.log2 - 52⟩, ⟨?_, ?_, fun _ => ?_⟩, ?_, ?_⟩
      · calc n * 2 ^ (52 - n.log2) < 2 ^ (n.log2 + 1) * 2 ^ (52 - n.log2) :=
              Nat.mul_lt_mul_of_pos_right hhigh hscale
          _ = 2 ^ (n.log2 + 1 + (52 - n.log2)) := (pow_add 2 _ _).symm
          _ = 2 ^ 53 := by
              congr 1
              omega
      · dsimp only
        omega
      · calc 2 ^ 52 = 2 ^ (n.log2 + (52 - n.log2)) := by
              congr 1
              omega
          _ = 2 ^ n.log2 * 2 ^ (52 - n.log2) := pow_add 2 _ _
          _ ≤ n * 2 ^ (52 - n.log2) := Nat.mul_le_mul_right _ hlow
      · dsimp only
        omega
      · rw [Dyadic.magnitude]
        dsimp only
        have hexponent : (n.log2 : ℤ) - 52 = -((52 - n.log2 : ℕ) : ℤ) := by omega
        rw [hexponent, zpow_neg, zpow_natCast]
        push_cast
        field_simp
  · refine ⟨⟨false, 2 ^ 52, 1⟩, ⟨by norm_num, by decide, fun _ => le_refl _⟩, by decide, ?_⟩
    rw [Dyadic.magnitude, greatestWhole]
    norm_num

/-- **Whole numbers up to `2 ^ 53` are doubles.** -/
theorem parts_ofInt {n : ℤ} (hn : n.natAbs ≤ greatestWhole) :
    ∃ d : Dyadic, parts (ofInt n) = .finite d ∧ d.negative = decide (n < 0) ∧
      d.magnitude = n.natAbs := by
  obtain ⟨d, hcanonical, hle, hvalue⟩ := exists_canonical hn
  refine ⟨d.withSign (n < 0), ?_, rfl, hvalue⟩
  apply parts_ofRatio_magnitude hcanonical hle (by decide)
  rw [hvalue, Nat.cast_one, div_one]

theorem ofInt_natCast (n : Nat) : ofInt n = ofNat n := by
  have hsign : ¬ (n : ℤ) < 0 := Int.not_lt.2 (Int.natCast_nonneg n)
  rw [ofInt, ofNat, decide_eq_false hsign, Int.natAbs_natCast]

theorem parts_ofNat {n : Nat} (hn : n ≤ greatestWhole) :
    ∃ d : Dyadic, parts (ofNat n) = .finite d ∧ d.negative = false ∧ d.magnitude = n := by
  rw [← ofInt_natCast]
  exact parts_ofInt hn

theorem toNatWithin_ofNat {n : Nat} (hn : n ≤ greatestWhole) (limit : Nat) :
    toNatWithin limit (ofNat n) = min limit n := by
  obtain ⟨d, hparts, hsign, hvalue⟩ := parts_ofNat hn
  rw [toNatWithin, hparts]
  dsimp only
  rw [hsign, if_neg Bool.false_ne_true, ((d.magnitude_eq_iff n).1 hvalue).2]

theorem cast_natAbs (n : ℤ) : (n.natAbs : ℚ) = |(n : ℚ)| :=
  (Nat.cast_natAbs n).trans Int.cast_abs

theorem Dyadic.value_of_sign {d : Dyadic} {n : ℤ} (hsign : d.negative = decide (n < 0))
    (hvalue : d.magnitude = n.natAbs) : d.value = n := by
  rw [Dyadic.value, hsign, hvalue, cast_natAbs]
  by_cases hn : n < 0
  · have hn' : (n : ℚ) < 0 := by exact_mod_cast hn
    rw [if_pos (decide_eq_true hn), abs_of_neg hn', neg_neg]
  · have hn' : (0 : ℚ) ≤ n := by exact_mod_cast not_lt.1 hn
    rw [if_neg (by simpa using hn), abs_of_nonneg hn']

theorem hasValue_ofInt {n : ℤ} (hn : n.natAbs ≤ greatestWhole) : HasValue (ofInt n) n := by
  obtain ⟨d, hparts, hsign, hvalue⟩ := parts_ofInt hn
  exact ⟨d, hparts, Dyadic.value_of_sign hsign hvalue⟩

/-- The parts of a double with the value of an integer. -/
theorem HasValue.parts {x : Float} {n : ℤ} (h : HasValue x n) :
    ∃ d, parts x = .finite d ∧ d.magnitude = n.natAbs ∧
      (d.negative && d.mantissa ≠ 0) = decide (n < 0) := by
  obtain ⟨d, hparts, hvalue⟩ := h
  have hmagnitude := d.magnitude_nonneg
  refine ⟨d, hparts, ?_, ?_⟩
  · rw [cast_natAbs, ← hvalue, Dyadic.value]
    split
    · rw [abs_neg, abs_of_nonneg hmagnitude]
    · rw [abs_of_nonneg hmagnitude]
  · have hnegative : n < 0 ↔ d.value < 0 := by
      rw [hvalue]
      exact_mod_cast Iff.rfl
    rw [Bool.eq_iff_iff, Bool.and_eq_true, decide_eq_true_iff, decide_eq_true_iff, hnegative,
      Dyadic.value_neg_iff]

/-- A double with the value of a whole number other than zero is the double of that number. -/
theorem HasValue.eq_ofInt {x : Float} {n : ℤ} (h : HasValue x n) (hne : n ≠ 0)
    (hn : n.natAbs ≤ greatestWhole) : x = ofInt n := by
  obtain ⟨d, hparts, hvalue, hsign⟩ := h.parts
  obtain ⟨d', hparts', hsign', hvalue'⟩ := parts_ofInt hn
  obtain ⟨hmantissa, hexponent⟩ := Dyadic.eq_of_magnitude (parts_finite hparts).1
    (parts_finite hparts').1 (hvalue.trans hvalue'.symm)
  have hpos : 0 < d.mantissa := mantissa_pos hvalue (Int.natAbs_pos.2 hne)
  rw [decide_eq_true (Nat.ne_of_gt hpos), Bool.and_true, ← hsign'] at hsign
  have hsame : d = d' := by
    cases d
    cases d'
    simp_all
  rw [hsame] at hparts
  exact eq_of_parts hparts hparts'

theorem HasValue.neg {x : Float} {q : ℚ} (h : HasValue x q) : HasValue (-x) (-q) := by
  obtain ⟨d, hparts, rfl⟩ := h
  refine ⟨d.withSign !d.negative, by rw [parts_neg, hparts]; rfl, ?_⟩
  rw [Dyadic.value, Dyadic.value, Dyadic.withSign_negative]
  cases d.negative with
  | true => exact (neg_neg _).symm
  | false => rfl

/-- The sign of a number other than zero can be put on after the digits are read. -/
theorem negateIf_ofNat {n : ℤ} (hn : n.natAbs ≤ greatestWhole) :
    negateIf (decide (n < 0)) (ofNat n.natAbs) = ofInt n := by
  rw [← ofInt_natCast]
  by_cases hneg : n < 0
  · have habs : (n.natAbs : ℤ) = -n := by omega
    have hvalue := (hasValue_ofInt (n := n.natAbs) hn).neg
    have hsame : -(((n.natAbs : ℤ) : ℤ) : ℚ) = n := by
      rw [habs]
      push_cast
      ring
    rw [hsame] at hvalue
    rw [decide_eq_true hneg]
    exact hvalue.eq_ofInt (ne_of_lt hneg) hn
  · rw [decide_eq_false hneg, Int.natAbs_of_nonneg (not_lt.1 hneg)]
    rfl

/-! ## Decimals of whole numbers -/

/-- Zeros at the end are a power of ten. -/
theorem decimal_mul_pow {n : Nat} (hn : 0 < n) (k : Nat) :
    decimal (n * 10 ^ k) = decimal n ++ zeros k := by
  have hpos : 0 < n * 10 ^ k := Nat.mul_pos hn (Nat.pow_pos (by decide))
  have hdigits : Nat.digits 10 (n * 10 ^ k) = List.replicate k 0 ++ Nat.digits 10 n := by
    rw [Nat.mul_comm]
    exact Nat.digits_base_pow_mul (by decide) hn
  rw [decimal, decimal, numeral, numeral, digits_eq (by decide) hpos, digits_eq (by decide) hn,
    hdigits, List.reverse_append, List.reverse_replicate, List.map_append, List.map_replicate]
  rfl

/-- A quotient without a remainder is not rounded. -/
theorem roundDiv_mul (tie : Tie) (q : Nat) {den : Nat} (hden : 0 < den) :
    roundDiv tie (q * den) den = q := by
  unfold roundDiv
  dsimp only
  rw [Nat.mul_div_cancel q hden, Nat.mul_mod_left]
  exact if_pos hden

/-- The grid with a double on it gives the double. -/
theorem nearest?_exact {d : Dyadic} (hpos : 0 < d.mantissa) (tie : Tie) {k : ℤ} {q : Nat}
    (hq : d.magnitude = q * 10 ^ k) : (neighbourhood d).nearest? tie k = some q := by
  have hden := neighbourhood_den_pos d
  have hcommon := denominator_pos k hden
  have hstep : 0 < (neighbourhood d).den * 10 ^ k.toNat :=
    Nat.mul_pos hden (Nat.pow_pos (by decide))
  have hcontains : (neighbourhood d).contains k q = true :=
    contains_of_inside hpos (hq ▸ lowEnd_lt d) (hq ▸ lt_highEnd d)
  have hexact : (neighbourhood d).value * 10 ^ (-k).toNat =
      q * ((neighbourhood d).den * 10 ^ k.toNat) := by
    rw [magnitude_eq, end_eq_div k hden, point_eq_div k hden,
      div_left_inj' (ne_of_gt hcommon), Nat.cast_inj] at hq
    rw [hq]
    ring
  have hquotient : (neighbourhood d).value * 10 ^ (-k).toNat /
      ((neighbourhood d).den * 10 ^ k.toNat) = q := by
    rw [hexact, Nat.mul_div_cancel _ hstep]
  have hrounded : roundDiv tie ((neighbourhood d).value * 10 ^ (-k).toNat)
      ((neighbourhood d).den * 10 ^ k.toNat) = q := by
    rw [hexact, roundDiv_mul tie q hstep]
  unfold Neighbourhood.nearest?
  simp only [Nat.pow_eq, hquotient, hrounded, hcontains]
  cases (neighbourhood d).contains k (q + 1) <;> rfl

theorem stripZeros_whole (fuel q k : Nat) : ∃ k' q' : Nat,
    (Decimal.mk q k).stripZeros fuel = ⟨q', k'⟩ ∧ q' * 10 ^ k' = q * 10 ^ k := by
  induction fuel generalizing q k with
  | zero => exact ⟨k, q, rfl, rfl⟩
  | succ fuel ih =>
      rw [Decimal.stripZeros]
      split
      · next hzero =>
          obtain ⟨k', q', hstrip, hsame⟩ := ih (q / 10) (k + 1)
          refine ⟨k', q', hstrip, ?_⟩
          obtain ⟨p, hp⟩ := Nat.dvd_of_mod_eq_zero hzero.2
          dsimp only at hp
          rw [hsame, hp, Nat.mul_div_cancel_left p (by decide), pow_succ]
          ring
      · exact ⟨k, q, rfl, rfl⟩

theorem length_decimal_le {n : Nat} (hn : n ≤ greatestWhole) : (decimal n).length ≤ 16 := by
  rw [decimal, numeral, List.length_map]
  rcases Nat.eq_zero_or_pos n with rfl | hpos
  · rw [digits_zero]
    decide
  · have hfirst := pow_length_digits_le (show 1 < 10 by decide) hpos
    have hless : 10 ^ ((digits 10 n).length - 1) < 10 ^ 16 := by
      rw [greatestWhole] at hn
      omega
    have hlength := (Nat.pow_lt_pow_iff_right (by decide)).1 hless
    omega

theorem decimalPosition_whole {d : Dyadic} {n : Nat} (hvalue : d.magnitude = n) (hpos : 0 < n) :
    decimalPosition (neighbourhood d).value (neighbourhood d).den = (decimal n).length := by
  have hden := neighbourhood_den_pos d
  have hden' : ((neighbourhood d).den : ℚ) ≠ 0 := by exact_mod_cast Nat.ne_of_gt hden
  have hproduct : (neighbourhood d).value = n * (neighbourhood d).den := by
    rw [magnitude_eq, div_eq_iff hden'] at hvalue
    exact_mod_cast hvalue
  rw [decimalPosition, hproduct, if_pos (Nat.le_mul_of_pos_left _ hpos),
    Nat.mul_div_cancel n hden, decimal, numeral, List.length_map]

section Whole

variable {d : Dyadic} {n : Nat} (h : d.Canonical) (hn : n ≤ greatestWhole)
  (hvalue : d.magnitude = n)
include h hn hvalue

theorem exponent_le_one : d.exponent ≤ 1 := by
  have hgreatest : Dyadic.Canonical ⟨false, 2 ^ 52, 1⟩ :=
    ⟨by norm_num, by decide, fun _ => le_refl _⟩
  apply Dyadic.exponent_le h hgreatest
  have hcast : (n : ℚ) ≤ 2 ^ 53 := by exact_mod_cast hn
  rw [hvalue, Dyadic.magnitude]
  calc (n : ℚ) ≤ 2 ^ 53 := hcast
    _ = ((2 ^ 52 : ℕ) : ℚ) * 2 ^ (1 : ℤ) := by norm_num

/-- No other whole number rounds to a whole number, but the one after the greatest. -/
theorem eq_of_covers_natCast {p : Nat} (hp : d.Covers p) : p = n ∨ p = greatestWhole + 1 := by
  have hlow := hp.low
  have hhigh := hp.high
  rw [Dyadic.lowEnd_eq_sub, hvalue] at hlow
  rw [Dyadic.highEnd_eq_add, hvalue] at hhigh
  have hunit : (0 : ℚ) < 2 ^ d.exponent := by positivity
  have hbelow : (d.below : ℚ) ≤ 2 := by exact_mod_cast d.below_le
  rcases Int.lt_or_eq_of_le (exponent_le_one h hn hvalue) with hless | hone
  -- the last place is one or less
  · have hsmall : (2 : ℚ) ^ d.exponent ≤ 1 := zpow_le_one_of_nonpos₀ (by norm_num) (by omega)
    left
    have hfloor : (n : ℚ) < p + 1 := by nlinarith
    have hceil : (p : ℚ) < n + 1 := by linarith
    have hfloor' : n < p + 1 := by exact_mod_cast hfloor
    have hceil' : p < n + 1 := by exact_mod_cast hceil
    omega
  -- the last place is two, as that of the greatest only
  · have hnormal := h.le_mantissa (by rw [hone]; decide)
    have hmantissa : d.mantissa * 2 = n := by
      rw [Dyadic.magnitude, hone, zpow_one] at hvalue
      exact_mod_cast hvalue
    have hpower : d.mantissa = 2 ^ 52 := by
      rw [greatestWhole] at hn
      omega
    have hone' : d.below = 1 := if_pos ⟨hpower, by rw [hone]; decide⟩
    rw [hone, zpow_one] at hhigh
    rw [hone, zpow_one, hone'] at hlow
    push_cast at hlow
    have hfloor : (n : ℚ) < p + 1 := by linarith
    have hceil : (p : ℚ) ≤ n + 1 := by linarith
    have hfloor' : n < p + 1 := by exact_mod_cast hfloor
    have hceil' : p ≤ n + 1 := by exact_mod_cast hceil
    rw [greatestWhole]
    omega

/-- What is found on a grid of steps of one or more is the whole number. -/
theorem nearest?_whole (hpos : 0 < n) {tie : Tie} {k q : Nat}
    (hq : (neighbourhood d).nearest? tie k = some q) : q * 10 ^ k = n := by
  have hmantissa := mantissa_pos hvalue hpos
  have hcovers := covers_of_contains hmantissa (contains_of_nearest? hq)
  rw [zpow_natCast] at hcovers
  rcases eq_of_covers_natCast h hn hvalue (p := q * 10 ^ k) (by exact_mod_cast hcovers) with
    heq | hnext
  · exact heq
  · -- the number after the greatest is on the grid of step one only
    have hk : k = 0 := by
      by_contra hne
      obtain ⟨j, rfl⟩ := Nat.exists_eq_succ_of_ne_zero hne
      rw [greatestWhole, pow_succ, ← Nat.mul_assoc] at hnext
      omega
    subst hk
    have hexact : d.magnitude = n * 10 ^ ((0 : ℕ) : ℤ) := by
      rw [hvalue, Nat.cast_zero, zpow_zero, mul_one]
    rw [nearest?_exact hmantissa tie hexact] at hq
    rw [pow_zero, Nat.mul_one, Option.some.inj hq]

/-- The search for the shortest decimal ends at the grid of step one at the latest. -/
theorem firstGrid_whole (hpos : 0 < n) (tie : Tie) {position fuel count : Nat}
    (hcount : count ≤ position) (hfuel : position < count + fuel) :
    ∃ k q : Nat, (neighbourhood d).firstGrid tie position fuel count = ⟨q, k⟩ ∧
      q * 10 ^ k = n := by
  induction fuel generalizing count with
  | zero => omega
  | succ fuel ih =>
      obtain ⟨k, hk⟩ := Int.eq_ofNat_of_zero_le (Int.sub_nonneg_of_le (Int.ofNat_le.2 hcount))
      rw [Neighbourhood.firstGrid]
      cases hnearest : (neighbourhood d).nearest? tie (position - count) with
      | some q =>
          rw [hk] at hnearest
          exact ⟨k, q, by rw [hk], nearest?_whole h hn hvalue hpos hnearest⟩
      | none =>
          apply ih _ (by omega)
          apply Nat.lt_of_le_of_ne hcount
          -- the number itself is on the grid of step one
          rintro rfl
          have hexact : d.magnitude = n * 10 ^ ((count : ℤ) - count) := by
            rw [hvalue, sub_self, zpow_zero, mul_one]
          rw [nearest?_exact (mantissa_pos hvalue hpos) tie hexact] at hnearest
          cases hnearest

/-- **The shortest decimal of a whole number is the number.** -/
theorem shortest_whole (hpos : 0 < n) (tie : Tie) :
    ∃ k q : Nat, shortest tie d = ⟨q, k⟩ ∧ q * 10 ^ k = n := by
  have hlength := length_decimal_le hn
  have hfirst : 1 ≤ (decimal n).length := List.length_pos_of_ne_nil (decimal_ne_nil n)
  have hfuel : (decimal n).length < 1 + 17 := by omega
  obtain ⟨k, q, hgrid, hq⟩ := firstGrid_whole h hn hvalue hpos tie hfirst hfuel
  obtain ⟨k', q', hstrip, hq'⟩ := stripZeros_whole 18 q k
  refine ⟨k', q', ?_, hq'.trans hq⟩
  rw [shortest, decimalPosition_whole hvalue hpos, hgrid, hstrip]

/-- **A whole number is written as its decimal numeral.** -/
theorem writeMagnitude_whole : Layout.standard.writeMagnitude d = decimal n := by
  rcases Nat.eq_zero_or_pos n with rfl | hpos
  · have hunit : (2 : ℚ) ^ d.exponent ≠ 0 := by positivity
    have hzero : d.mantissa = 0 := by
      rw [Dyadic.magnitude, Nat.cast_zero, mul_eq_zero] at hvalue
      exact_mod_cast hvalue.resolve_right hunit
    rw [Layout.writeMagnitude, if_pos hzero]
    rfl
  obtain ⟨k, q, hshortest, hq⟩ := shortest_whole h hn hvalue hpos .away
  have hqpos : 0 < q := by
    apply Nat.pos_of_ne_zero
    rintro rfl
    omega
  have hdecimal : decimal q ++ zeros k = decimal n := by rw [← hq, decimal_mul_pow hqpos]
  have hlength : (decimal q).length + k = (decimal n).length := by
    rw [← hdecimal, List.length_append, length_zeros]
  have hbound := length_decimal_le hn
  have hfirst : 0 < (decimal q).length := List.length_pos_of_ne_nil (decimal_ne_nil q)
  have hpositional : Layout.standard.isPositional ((decimal q).length + k - 1) = true := by
    change (decide _ && decide _) = true
    rw [Bool.and_eq_true, decide_eq_true_iff, decide_eq_true_iff]
    omega
  have htie : Layout.standard.tie = .away := rfl
  have hpoint : Layout.standard.keepsPoint = false := rfl
  rw [Layout.writeMagnitude, if_neg (Nat.ne_of_gt (mantissa_pos hvalue hpos)), htie, hshortest]
  dsimp only
  rw [if_pos hpositional, hpoint, positional, if_neg (by omega), if_pos (by omega)]
  have hrest : ((decimal q).length + k : ℤ).toNat - (decimal q).length = k := by omega
  rw [hrest, hdecimal]
  exact List.append_nil _

end Whole

/-- **The text of a whole number** is its decimal numeral after its sign; zero has none. -/
theorem format_whole {x : Float} {n : ℤ} (h : HasValue x n) (hn : n.natAbs ≤ greatestWhole) :
    format x = signed (decide (n < 0)) (decimal n.natAbs) := by
  obtain ⟨d, hparts, hvalue, hsign⟩ := h.parts
  rw [format, Layout.write, hparts]
  dsimp only
  rw [writeMagnitude_whole (parts_finite hparts).1 hn hvalue, ← hsign]
  rfl

end Stencil.Number
