import Stencil.Proofs.Number.Whole

/-!
# Equality of numbers

Two doubles are equal if they have the same exact value or are the same infinity
(`beq_iff`). Both zeros are equal, and what is not a number equals nothing. A finite double other
than zero has one mantissa and one exponent, so the comparison of these is one of values.
-/

namespace Stencil.Number

open Float.Model (Format UnpackedFloat)
open Float.Model.UnpackedFloat (Sign unpackSign unpackExponent unpackMantissa)

/-- What two equal doubles are: finite with one value, or one infinity. -/
def Parts.Equal : Parts → Parts → Prop
  | .finite d, .finite d' => d.value = d'.value
  | .infinite negative, .infinite negative' => negative = negative'
  | _, _ => False

/-! ## Values -/

namespace Dyadic

variable {d d' : Dyadic}

theorem value_eq_zero_iff : d.value = 0 ↔ d.mantissa = 0 := by
  have hmagnitude : d.magnitude = 0 ↔ d.mantissa = 0 := by
    rw [← not_iff_not, ← ne_eq d.mantissa, ← magnitude_pos_iff, d.magnitude_nonneg.lt_iff_ne']
  rw [← hmagnitude, value]
  split
  · exact neg_eq_zero
  · exact Iff.rfl

/-- The value of canonical parts tells them, but for the sign of zero. -/
theorem Canonical.value_eq_iff (h : d.Canonical) (h' : d'.Canonical) (hne : d.mantissa ≠ 0)
    (hne' : d'.mantissa ≠ 0) :
    d.value = d'.value ↔
      d.negative = d'.negative ∧ d.mantissa = d'.mantissa ∧ d.exponent = d'.exponent := by
  constructor
  · intro heq
    have hsign : d.negative = d'.negative := by
      have hneg := d.value_neg_iff
      rw [heq, value_neg_iff, and_iff_left hne, and_iff_left hne'] at hneg
      exact Bool.eq_iff_iff.2 hneg.symm
    rw [value, value, hsign] at heq
    have hmagnitude : d.magnitude = d'.magnitude := by
      split at heq
      · exact neg_inj.1 heq
      · exact heq
    exact ⟨hsign, eq_of_magnitude h h' hmagnitude⟩
  · rintro ⟨hsign, hmantissa, hexponent⟩
    rw [value, value, magnitude, magnitude, hsign, hmantissa, hexponent]

end Dyadic

/-! ## The built-in model -/

/-- A sign of the built-in model. -/
def signOf (negative : Bool) : Sign :=
  if negative then .negative else .positive

theorem signOf_inj {a b : Bool} : signOf a = signOf b ↔ a = b := by
  cases a <;> cases b <;> simp [signOf]

/-- The number of the built-in model that the parts of a double are. -/
def Parts.unpacked : Parts → UnpackedFloat
  | .nan => .notANumber
  | .infinite negative => .infinity (signOf negative)
  | .finite d =>
      if h : d.mantissa = 0 then .zero (signOf d.negative)
      else .finite (signOf d.negative) d.mantissa d.exponent (Nat.pos_of_ne_zero h)

theorem ofBitVec_unpackSign (b : BitVec 64) :
    Sign.ofBitVec (@unpackSign Format.binary64 b) = signOf (2 ^ 63 ≤ b.toNat) := by
  have hlt := b.isLt
  have hbit : @unpackSign Format.binary64 b = 0#1 ↔ b.toNat < 2 ^ 63 := by
    rw [← BitVec.toNat_inj, toNat_unpackSign]
    change b.toNat / 2 ^ 63 = 0 ↔ _
    omega
  rw [Sign.ofBitVec, signOf]
  by_cases hsmall : b.toNat < 2 ^ 63
  · rw [if_pos (hbit.2 hsmall), if_neg]
    exact fun h => Nat.not_lt.2 (of_decide_eq_true h) hsmall
  · rw [if_neg (mt hbit.1 hsmall), if_pos (decide_eq_true (Nat.not_lt.1 hsmall))]

theorem unpack_toBits (x : Float) :
    UnpackedFloat.unpack Format.binary64 x.toBits.toBitVec = (parts x).unpacked := by
  have hsign := ofBitVec_unpackSign x.toBits.toBitVec
  have hexponent := toNat_unpackExponent x.toBits.toBitVec
  have hmantissa := toNat_unpackMantissa x.toBits.toBitVec
  have hnat : x.toBits.toBitVec.toNat = x.toBits.toNat := rfl
  have hall := unpackExponent_eq_iff x.toBits.toBitVec
  have hnone := unpackMantissa_eq_iff x.toBits.toBitVec
  rw [hnat] at hsign hexponent hmantissa hall hnone
  have hzero : @unpackExponent Format.binary64 x.toBits.toBitVec = 0#11 ↔
      x.toBits.toNat / 2 ^ 52 % 2 ^ 11 = 0 := by
    rw [← BitVec.toNat_inj, hexponent]
    rfl
  rw [unpack_eq, hsign, parts_eq, ofFields]
  by_cases hspecial : x.toBits.toNat / 2 ^ 52 % 2 ^ 11 = 2047
  · rw [if_pos (hall.2 hspecial), if_pos hspecial]
    by_cases hm : x.toBits.toNat % 2 ^ 52 = 0
    · rw [if_pos (hnone.2 hm), if_pos hm]
      rfl
    · rw [if_neg (mt hnone.1 hm), if_neg hm]
      rfl
  rw [if_neg (mt hall.1 hspecial), if_neg hspecial]
  by_cases hsubnormal : x.toBits.toNat / 2 ^ 52 % 2 ^ 11 = 0
  · rw [if_pos (hzero.2 hsubnormal), if_pos hsubnormal, Parts.unpacked]
    by_cases hm : x.toBits.toNat % 2 ^ 52 = 0
    · rw [dif_pos (hnone.2 hm), dif_pos hm]
    · rw [dif_neg (mt hnone.1 hm), dif_neg hm]
      rw [UnpackedFloat.finite.injEq]
      refine ⟨rfl, hmantissa, ?_⟩
      rw [hexponent, hsubnormal]
      rfl
  · rw [if_neg (mt hzero.1 hsubnormal), if_neg hsubnormal, Parts.unpacked,
      dif_neg (by dsimp only; omega), UnpackedFloat.finite.injEq]
    refine ⟨rfl, ?_, ?_⟩
    · rw [toNat_significand, hmantissa]
    · rw [hexponent]
      dsimp only
      rw [leastExponent]
      omega

theorem beq_finite_iff {s s' : Sign} {m m' : Nat} {e e' : Int} (h : 0 < m) (h' : 0 < m') :
    (UnpackedFloat.finite s m e h).beq (.finite s' m' e' h') = true ↔
      s = s' ∧ m = m' ∧ e = e' := by
  have hfields : (compare e e').then (compare m m') = .eq ↔ m = m' ∧ e = e' := by
    rw [Ordering.then_eq_eq, compare_eq_iff_eq, compare_eq_iff_eq, and_comm]
  cases s with
  | negative =>
      cases s' with
      | negative =>
          change (some ((compare e e').then (compare m m')).swap == some .eq) = true ↔ _
          rw [beq_iff_eq, Option.some_inj, Ordering.swap_eq_eq, hfields, and_iff_right rfl]
      | positive => exact iff_of_false Bool.false_ne_true fun h => by cases h.1
  | positive =>
      cases s' with
      | negative => exact iff_of_false Bool.false_ne_true fun h => by cases h.1
      | positive =>
          change (some ((compare e e').then (compare m m')) == some .eq) = true ↔ _
          rw [beq_iff_eq, Option.some_inj, hfields, and_iff_right rfl]

theorem beq_infinity_iff {a b : Bool} :
    (UnpackedFloat.infinity (signOf a)).beq (.infinity (signOf b)) = true ↔ a = b := by
  cases a <;> cases b <;> decide

theorem beq_unpacked (x y : Float) : (x == y) = (parts x).unpacked.beq (parts y).unpacked := by
  rw [← unpack_toBits, ← unpack_toBits]
  rfl

theorem beq_unpacked_finite {d d' : Dyadic} (h : d.Canonical) (h' : d'.Canonical) :
    (Parts.finite d).unpacked.beq (Parts.finite d').unpacked = true ↔ d.value = d'.value := by
  rw [Parts.unpacked, Parts.unpacked]
  by_cases hzero : d.mantissa = 0
  · rw [dif_pos hzero, Dyadic.value_eq_zero_iff.2 hzero, eq_comm (a := (0 : ℚ)),
      Dyadic.value_eq_zero_iff]
    by_cases hzero' : d'.mantissa = 0
    · rw [dif_pos hzero']
      exact iff_of_true rfl hzero'
    · rw [dif_neg hzero']
      refine iff_of_false ?_ hzero'
      cases d'.negative <;> exact Bool.false_ne_true
  · rw [dif_neg hzero]
    by_cases hzero' : d'.mantissa = 0
    · rw [dif_pos hzero', Dyadic.value_eq_zero_iff.2 hzero', Dyadic.value_eq_zero_iff]
      refine iff_of_false ?_ hzero
      cases d.negative <;> exact Bool.false_ne_true
    · rw [dif_neg hzero', beq_finite_iff, signOf_inj, h.value_eq_iff h' hzero hzero']

theorem unpacked_finite_cases (d : Dyadic) :
    (∃ s, (Parts.finite d).unpacked = .zero s) ∨
      ∃ s m e h, (Parts.finite d).unpacked = .finite s m e h := by
  rw [Parts.unpacked]
  by_cases hzero : d.mantissa = 0
  · exact Or.inl ⟨_, dif_pos hzero⟩
  · exact Or.inr ⟨_, _, _, _, dif_neg hzero⟩

/-- **Doubles are equal by their values.** -/
theorem beq_iff (x y : Float) : (x == y) = true ↔ (parts x).Equal (parts y) := by
  rw [beq_unpacked]
  cases hx : parts x with
  | nan => exact iff_of_false Bool.false_ne_true id
  | infinite negative =>
      cases hy : parts y with
      | nan => exact iff_of_false Bool.false_ne_true id
      | infinite negative' => exact beq_infinity_iff
      | finite d' =>
          refine iff_of_false ?_ id
          rcases unpacked_finite_cases d' with ⟨s, h⟩ | ⟨s, m, e, hpos, h⟩ <;> rw [h] <;>
            cases negative <;> exact Bool.false_ne_true
  | finite d =>
      cases hy : parts y with
      | nan =>
          refine iff_of_false ?_ id
          rcases unpacked_finite_cases d with ⟨s, h⟩ | ⟨s, m, e, hpos, h⟩ <;> rw [h] <;>
            exact Bool.false_ne_true
      | infinite negative' =>
          refine iff_of_false ?_ id
          rcases unpacked_finite_cases d with ⟨s, h⟩ | ⟨s, m, e, hpos, h⟩ <;> rw [h] <;>
            cases negative' <;> exact Bool.false_ne_true
      | finite d' => exact beq_unpacked_finite (parts_finite hx).1 (parts_finite hy).1

theorem HasValue.beq {x y : Float} {q : ℚ} (h : HasValue x q) (h' : HasValue y q) :
    (x == y) = true := by
  obtain ⟨d, hparts, hvalue⟩ := h
  obtain ⟨d', hparts', hvalue'⟩ := h'
  rw [beq_iff, hparts, hparts']
  exact hvalue.trans hvalue'.symm

/-! ## Laws -/

theorem Parts.Equal.symm {a b : Parts} (h : a.Equal b) : b.Equal a := by
  cases a with
  | nan => exact h.elim
  | infinite negative =>
      cases b with
      | infinite negative' => exact Eq.symm h
      | nan | finite => exact h.elim
  | finite d =>
      cases b with
      | finite d' => exact Eq.symm h
      | nan | infinite => exact h.elim

theorem Parts.Equal.trans {a b c : Parts} (h : a.Equal b) (h' : b.Equal c) : a.Equal c := by
  cases b with
  | nan => exact h'.elim
  | infinite negative =>
      cases a with
      | infinite negative' =>
          cases c with
          | infinite negative'' => exact Eq.trans h h'
          | nan | finite => exact h'.elim
      | nan | finite => exact h.elim
  | finite d =>
      cases a with
      | finite d' =>
          cases c with
          | finite d'' => exact Eq.trans h h'
          | nan | infinite => exact h'.elim
      | nan | infinite => exact h.elim

theorem beq_comm (x y : Float) : (x == y) = (y == x) := by
  rw [Bool.eq_iff_iff, beq_iff, beq_iff]
  exact ⟨Parts.Equal.symm, Parts.Equal.symm⟩

theorem beq_trans {x y z : Float} (h : (x == y) = true) (h' : (y == z) = true) :
    (x == z) = true :=
  (beq_iff x z).2 (((beq_iff x y).1 h).trans ((beq_iff y z).1 h'))

/-- What is not a number equals nothing. -/
theorem beq_of_isNaN {x : Float} (h : isNaN x = true) (y : Float) : (x == y) = false := by
  have hnan : parts x = .nan := of_decide_eq_true h
  rw [Bool.eq_false_iff, ne_eq, beq_iff, hnan]
  exact id

/-- No natural number, however it rounds, equals a negative one. -/
theorem ofNat_beq_ofInt_neg (i : Nat) {n : ℤ} (hneg : n < 0) (hn : n.natAbs ≤ greatestWhole) :
    (ofNat i == ofInt n) = false := by
  obtain ⟨d, hparts, hvalue⟩ := hasValue_ofInt hn
  obtain ⟨d', -, -, hround⟩ := parts_ofRatio i Nat.one_pos
  rw [Bool.eq_false_iff, ne_eq, beq_iff, hparts, ofNat, hround false]
  split
  · intro heq
    have hless : (d'.withSign false).value < 0 := by
      rw [show (d'.withSign false).value = n from Eq.trans heq hvalue]
      exact_mod_cast hneg
    exact Bool.false_ne_true (Dyadic.value_neg_iff.1 hless).1
  · exact id

end Stencil.Number
