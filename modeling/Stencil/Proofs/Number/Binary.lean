import Stencil.Number.Binary
import Mathlib.Algebra.Group.Nat.Defs

/-!
# Doubles and their parts

The parts of a finite double are canonical: the mantissa has at most 53 bits, and
exactly so many unless the exponent is the least. They determine the double
(`eq_of_parts`).
-/

namespace Stencil.Number

/-- The exact values that the parts of finite doubles have. -/
structure Dyadic.Canonical (d : Dyadic) : Prop where
  mantissa_lt : d.mantissa < 2 ^ 53
  least_le : leastExponent ≤ d.exponent
  le_mantissa : d.exponent ≠ leastExponent → 2 ^ 52 ≤ d.mantissa

/-- The bits of a double with these parts. -/
def Dyadic.bits (d : Dyadic) : Nat :=
  signBits d.negative +
    if d.mantissa < 2 ^ 52 then d.mantissa
    else d.mantissa - 2 ^ 52 + ((d.exponent - leastExponent).toNat + 1) * 2 ^ 52

theorem signBits_decide (bits : Nat) :
    signBits (decide (2 ^ 63 ≤ bits)) = if 2 ^ 63 ≤ bits then 2 ^ 63 else 0 := by
  rw [signBits]
  by_cases h : 2 ^ 63 ≤ bits
  · rw [decide_eq_true h, if_pos rfl, if_pos h]
    rfl
  · rw [decide_eq_false h, if_neg h]
    rfl

/-- The parts of a finite double are canonical, and its bits are theirs. -/
theorem parts_finite {x : Float} {d : Dyadic} (h : parts x = .finite d) :
    d.Canonical ∧ x.toBits.toNat = d.bits := by
  have hlt : x.toBits.toNat < 2 ^ 64 := UInt64.toNat_lt x.toBits
  have hfraction : Nat.pow 2 fractionBits = 2 ^ 52 := rfl
  have hexponent : Nat.pow 2 11 = 2 ^ 11 := rfl
  have hsign : Nat.pow 2 63 = 2 ^ 63 := rfl
  have hleast : leastExponent = -1074 := rfl
  unfold parts at h
  simp only [hfraction, hexponent, hsign] at h
  split at h
  · split at h <;> cases h
  · split at h
    -- a subnormal number: the mantissa is the fraction
    · obtain rfl := Parts.finite.inj h
      refine ⟨⟨?_, Int.le_refl _, fun hne => absurd rfl hne⟩, ?_⟩
      · dsimp only
        omega
      · rw [Dyadic.bits, signBits_decide]
        dsimp only
        split <;> split <;> omega
    -- a normal number: the first bit of the mantissa is not written
    · obtain rfl := Parts.finite.inj h
      refine ⟨⟨?_, ?_, fun _ => ?_⟩, ?_⟩
      · dsimp only
        omega
      · dsimp only
        omega
      · dsimp only
        omega
      · rw [Dyadic.bits, signBits_decide]
        dsimp only
        split <;> split <;> omega

theorem toBits_injective {x y : Float} (h : x.toBits = y.toBits) : x = y := by
  obtain ⟨⟨bits, hx⟩⟩ := x
  obtain ⟨⟨bits', hy⟩⟩ := y
  change bits = bits' at h
  subst h
  rfl

/-- **The parts of a finite double determine it.** -/
theorem eq_of_parts {x y : Float} {d : Dyadic} (hx : parts x = .finite d)
    (hy : parts y = .finite d) : x = y := by
  apply toBits_injective
  apply UInt64.toNat_inj.1
  rw [(parts_finite hx).2, (parts_finite hy).2]

end Stencil.Number
