import Stencil.Proofs.Number.Whole
import Mathlib.Data.Rat.Floor

/-!
# Integer parts

The integer part of a double is its exact value rounded toward zero (`Dyadic.toInt_eq`), and
`toIntWithin` and `toNatWithin` bring it back between two bounds.
-/

namespace Stencil.Number

/-- The integer next to a value on the side of zero. -/
def truncate (q : ℚ) : ℤ :=
  if q < 0 then ⌈q⌉ else ⌊q⌋

theorem truncate_intCast (n : ℤ) : truncate n = n := by
  rw [truncate, Int.ceil_intCast, Int.floor_intCast, ite_self]

namespace Dyadic

variable (d : Dyadic)

theorem floor_magnitude : ⌊d.magnitude⌋ = d.wholePart := by
  rw [magnitude_eq_div, Rat.floor_natCast_div_natCast]
  rfl

/-- **The integer part is the exact value rounded toward zero.** -/
theorem toInt_eq : d.toInt = truncate d.value := by
  have hnonneg := d.magnitude_nonneg
  rw [toInt, value, truncate, ← floor_magnitude]
  cases d.negative with
  | false => rw [if_neg Bool.false_ne_true, if_neg Bool.false_ne_true, if_neg (not_lt.2 hnonneg)]
  | true =>
      rw [if_pos rfl, if_pos rfl, Int.ceil_neg]
      split
      · rfl
      · next hneg =>
          -- a magnitude whose negative is not below zero
          have hzero : d.magnitude = 0 := by linarith
          rw [hzero, neg_zero, Int.floor_zero, neg_zero]

theorem natAbs_toInt : d.toInt.natAbs = d.wholePart := by
  rw [toInt]
  split <;> omega

/-- An integral value is its integer part. -/
theorem value_eq_toInt (h : d.isIntegral = true) : d.value = d.toInt := by
  have hmagnitude : d.magnitude = d.wholePart := (d.magnitude_eq_iff _).2 ⟨h, rfl⟩
  rw [value, toInt, hmagnitude]
  split
  · push_cast
    rfl
  · rfl

end Dyadic

/-- An integral value that is small enough is that of the double of its integer part. -/
theorem hasValue_ofInt_toInt {d : Dyadic} (h : d.isIntegral = true)
    (hle : d.wholePart ≤ greatestWhole) : HasValue (ofInt d.toInt) d.value := by
  rw [d.value_eq_toInt h]
  apply hasValue_ofInt
  rwa [d.natAbs_toInt]

theorem toIntWithin_finite {x : Float} {d : Dyadic} (h : parts x = .finite d) (limit : Nat) :
    toIntWithin limit x = max (-(limit : ℤ)) (min limit (truncate d.value)) := by
  rw [← d.toInt_eq, toIntWithin, h, Dyadic.toInt]
  dsimp only
  split <;> omega

theorem HasValue.toIntWithin {x : Float} {n : ℤ} (h : HasValue x n) (limit : Nat) :
    toIntWithin limit x = max (-(limit : ℤ)) (min limit n) := by
  obtain ⟨d, hparts, hvalue⟩ := h
  rw [toIntWithin_finite hparts, hvalue, truncate_intCast]

theorem toNatWithin_finite {x : Float} {d : Dyadic} (h : parts x = .finite d) (limit : Nat) :
    toNatWithin limit x = (max 0 (min (limit : ℤ) (truncate d.value))).toNat := by
  rw [← d.toInt_eq, toNatWithin, h, Dyadic.toInt]
  dsimp only
  split <;> omega

theorem HasValue.toNatWithin {x : Float} {n : ℤ} (h : HasValue x n) (limit : Nat) :
    toNatWithin limit x = (max 0 (min (limit : ℤ) n)).toNat := by
  obtain ⟨d, hparts, hvalue⟩ := h
  rw [toNatWithin_finite hparts, hvalue, truncate_intCast]

theorem toNatWithin_le (limit : Nat) (x : Float) : toNatWithin limit x ≤ limit := by
  unfold toNatWithin
  split
  · exact Nat.zero_le limit
  · split <;> omega
  · split <;> omega

end Stencil.Number
