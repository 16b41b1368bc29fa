import Stencil.Number.Numeral
import Stencil.Proofs.Number.Binary

/-!
# Doubles made of bits

A double that is made of the bits of canonical parts has these parts (`parts_ofBits_bits`),
and a negated double has the parts of the double with the other sign (`parts_neg`). Both
come down to the three fields of the built-in model of doubles: fields that say a number are
packed as they are, and negation leaves two of them alone.
-/

namespace Stencil.Number

open Float.Model (Format UnpackedFloat)
open Float.Model.UnpackedFloat (Sign unpackSign unpackExponent unpackMantissa packComponents)

/-! ## Fields -/

theorem toNat_unpackExponent (b : BitVec 64) :
    (@unpackExponent Format.binary64 b).toNat = b.toNat / 2 ^ 52 % 2 ^ 11 := by
  simp [unpackExponent, Nat.shiftRight_eq_div_pow]

theorem toNat_unpackMantissa (b : BitVec 64) :
    (@unpackMantissa Format.binary64 b).toNat = b.toNat % 2 ^ 52 := by
  simp [unpackMantissa]

theorem toNat_unpackSign (b : BitVec 64) :
    (@unpackSign Format.binary64 b).toNat = b.toNat / 2 ^ 63 := by
  have h := b.isLt
  unfold unpackSign
  simp [Nat.shiftRight_eq_div_pow]
  omega

theorem toNat_packComponents (s : Sign) (e : BitVec 11) (m : BitVec 52) :
    (packComponents Format.binary64 s e m).toNat =
      s.toBitVec.toNat * 2 ^ 63 + e.toNat * 2 ^ 52 + m.toNat := by
  have he := e.isLt
  have hm := m.isLt
  unfold packComponents
  rw [BitVec.toNat_append, BitVec.toNat_append, ← Nat.shiftLeft_add_eq_or_of_lt he,
    ← Nat.shiftLeft_add_eq_or_of_lt hm]
  simp only [Nat.shiftLeft_eq]
  omega

theorem toNat_significand (m : BitVec 52) : (1#1 ++ m).toNat = 2 ^ 52 + m.toNat := by
  rw [BitVec.toNat_append, ← Nat.shiftLeft_add_eq_or_of_lt m.isLt]
  rfl

/-- The number that three fields say. -/
def ofFields (s : Sign) (e : BitVec 11) (m : BitVec 52) : UnpackedFloat :=
  if e = -1#11 then if m = 0#52 then .infinity s else .notANumber
  else if e = 0#11 then
    if h : m = 0#52 then .zero s
    else
      .finite s m.toNat ((e.toNat : Int) - (1023 + 52 : Nat) + 1)
        (by simpa [BitVec.toNat_pos, BitVec.pos_iff_ne_zero])
  else .finite s (1#1 ++ m).toNat ((e.toNat : Int) - (1023 + 52 : Nat))
      (by rw [toNat_significand]; omega)

theorem unpack_eq (b : BitVec 64) :
    UnpackedFloat.unpack Format.binary64 b =
      ofFields (Sign.ofBitVec (@unpackSign Format.binary64 b)) (@unpackExponent Format.binary64 b)
        (@unpackMantissa Format.binary64 b) := rfl

/-- Fields that are a number are packed as they are. -/
theorem pack_ofFields (s : Sign) {e : BitVec 11} {m : BitVec 52} (h : e = -1#11 → m = 0#52) :
    (ofFields s e m).pack Format.binary64 = packComponents Format.binary64 s e m := by
  have hm := m.isLt
  unfold ofFields
  by_cases hall : e = -1#11
  · rw [if_pos hall, if_pos (h hall), hall, h hall]
    rfl
  rw [if_neg hall]
  have he : e.toNat + 1 < 2 ^ 11 := by
    have hlt := e.isLt
    have hne : e.toNat ≠ (-1#11).toNat := fun heq => hall (BitVec.eq_of_toNat_eq heq)
    change _ ≠ 2047 at hne
    omega
  by_cases hzero : e = 0#11
  · subst hzero
    rw [if_pos rfl]
    by_cases hm0 : m = 0#52
    · rw [dif_pos hm0, hm0]
      rfl
    -- a subnormal number
    · have hpos : m.toNat ≠ 0 := fun heq => hm0 (BitVec.eq_of_toNat_eq heq)
      have hlog : m.toNat.log2 < 52 := (Nat.log2_lt hpos).2 hm
      have hbits : ¬ m.toNat.log2 + 1 = Format.binary64.mantissaBits := by
        change ¬ _ = 53
        omega
      rw [dif_neg hm0]
      unfold UnpackedFloat.pack
      dsimp only
      rw [if_neg (by decide), if_neg hbits, BitVec.ofNat_toNat, BitVec.setWidth_eq]
  -- a normal number
  · have hlog : (1#1 ++ m).toNat.log2 + 1 = Format.binary64.mantissaBits := by
      have : (1#1 ++ m).toNat.log2 = 52 := by
        rw [toNat_significand, Nat.log2_eq_iff (by omega)]
        omega
      rw [this]
      rfl
    have hbias : ((e.toNat : Int) - (1023 + 52 : Nat) + (Format.binary64.exponentBias : Int) +
        (Format.binary64.mantissaBitsWithoutImplicit : Int)).toNat = e.toNat := by
      change ((e.toNat : Int) - (1023 + 52 : Nat) + (1023 : Nat) + (52 : Nat)).toNat = _
      omega
    rw [if_neg hzero]
    unfold UnpackedFloat.pack
    dsimp only
    rw [hbias, if_neg (Nat.not_le.2 he), if_pos hlog, BitVec.ofNat_toNat, BitVec.setWidth_eq,
      toNat_significand]
    congr 1
    apply BitVec.eq_of_toNat_eq
    rw [BitVec.toNat_ofNat, Nat.add_mod_left, Nat.mod_eq_of_lt hm]

theorem neg_ofFields (s : Sign) (e : BitVec 11) (m : BitVec 52) :
    (ofFields s e m).neg = ofFields (-s) e m := by
  unfold ofFields
  by_cases hall : e = -1#11
  · rw [if_pos hall, if_pos hall]
    by_cases hm : m = 0#52
    · rw [if_pos hm, if_pos hm]
      rfl
    · rw [if_neg hm, if_neg hm]
      rfl
  rw [if_neg hall, if_neg hall]
  by_cases hzero : e = 0#11
  · rw [if_pos hzero, if_pos hzero]
    by_cases hm : m = 0#52
    · rw [dif_pos hm, dif_pos hm]
      rfl
    · rw [dif_neg hm, dif_neg hm]
      rfl
  · rw [if_neg hzero, if_neg hzero]
    rfl

theorem unpackExponent_eq_iff (b : BitVec 64) :
    @unpackExponent Format.binary64 b = -1#11 ↔ b.toNat / 2 ^ 52 % 2 ^ 11 = 2047 := by
  rw [← toNat_unpackExponent]
  constructor
  · intro h
    rw [h]
    rfl
  · intro h
    exact BitVec.eq_of_toNat_eq h

theorem unpackMantissa_eq_iff (b : BitVec 64) :
    @unpackMantissa Format.binary64 b = 0#52 ↔ b.toNat % 2 ^ 52 = 0 := by
  rw [← toNat_unpackMantissa]
  constructor
  · intro h
    rw [h]
    rfl
  · intro h
    exact BitVec.eq_of_toNat_eq h

/-- The bits of a number with a sign. -/
theorem toNat_pack_ofFields {b : BitVec 64} (hb : b.toNat % 2 ^ 63 ≤ infinityBits) (s : Sign) :
    ((ofFields s (@unpackExponent Format.binary64 b) (@unpackMantissa Format.binary64 b)).pack
      Format.binary64).toNat = s.toBitVec.toNat * 2 ^ 63 + b.toNat % 2 ^ 63 := by
  have hlt := b.isLt
  rw [pack_ofFields, toNat_packComponents, toNat_unpackExponent, toNat_unpackMantissa]
  · omega
  · rw [unpackExponent_eq_iff, unpackMantissa_eq_iff]
    change _ ≤ 2047 * 2 ^ 52 at hb
    omega

theorem toBits_ofBits {b : UInt64} (hb : b.toNat % 2 ^ 63 ≤ infinityBits) :
    (Float.ofBits b).toBits = b := by
  have hlt : b.toNat < 2 ^ 64 := b.toNat_lt
  have hsign : (Sign.ofBitVec (@unpackSign Format.binary64 b.toBitVec)).toBitVec.toNat =
      b.toNat / 2 ^ 63 := by
    have hbit : ∀ c : BitVec 1, (Sign.ofBitVec c).toBitVec = c := by decide
    rw [hbit, toNat_unpackSign]
    rfl
  apply UInt64.toNat_inj.1
  have hpack := toNat_pack_ofFields (b := b.toBitVec) hb
    (Sign.ofBitVec (@unpackSign Format.binary64 b.toBitVec))
  rw [← unpack_eq, hsign] at hpack
  change ((UnpackedFloat.unpack Format.binary64 b.toBitVec).pack Format.binary64).toNat = _
  rw [hpack]
  change b.toNat / 2 ^ 63 * 2 ^ 63 + b.toNat % 2 ^ 63 = _
  omega

/-! ## Signs -/

/-- The value with a sign. -/
def Dyadic.withSign (negative : Bool) (d : Dyadic) : Dyadic :=
  ⟨negative, d.mantissa, d.exponent⟩

@[simp] theorem Dyadic.withSign_negative (negative : Bool) (d : Dyadic) :
    (d.withSign negative).negative = negative := rfl

theorem Dyadic.Canonical.withSign {d : Dyadic} (h : d.Canonical) (negative : Bool) :
    (d.withSign negative).Canonical :=
  ⟨h.mantissa_lt, h.least_le, h.le_mantissa⟩

/-- The bits of parts without their sign. -/
def Dyadic.unsignedBits (d : Dyadic) : Nat :=
  if d.mantissa < 2 ^ 52 then d.mantissa
  else d.mantissa - 2 ^ 52 + ((d.exponent - leastExponent).toNat + 1) * 2 ^ 52

theorem Dyadic.bits_withSign (negative : Bool) (d : Dyadic) :
    (d.withSign negative).bits = signBits negative + d.unsignedBits := rfl

/-- What a number says with the other sign. -/
def Parts.negate : Parts → Parts
  | .nan => .nan
  | .infinite negative => .infinite !negative
  | .finite d => .finite (d.withSign !d.negative)

/-- What the bits say, field by field. -/
theorem parts_eq (x : Float) :
    parts x =
      if x.toBits.toNat / 2 ^ 52 % 2 ^ 11 = 2047 then
        if x.toBits.toNat % 2 ^ 52 = 0 then .infinite (2 ^ 63 ≤ x.toBits.toNat) else .nan
      else if x.toBits.toNat / 2 ^ 52 % 2 ^ 11 = 0 then
        .finite ⟨2 ^ 63 ≤ x.toBits.toNat, x.toBits.toNat % 2 ^ 52, leastExponent⟩
      else
        .finite ⟨2 ^ 63 ≤ x.toBits.toNat, 2 ^ 52 + x.toBits.toNat % 2 ^ 52,
          leastExponent + (x.toBits.toNat / 2 ^ 52 % 2 ^ 11 - 1 : ℕ)⟩ := rfl

theorem parts_eq_nan_iff (x : Float) :
    parts x = .nan ↔ infinityBits < x.toBits.toNat % 2 ^ 63 := by
  have hlt : x.toBits.toNat < 2 ^ 64 := x.toBits.toNat_lt
  have hinfinity : infinityBits = 2047 * 2 ^ 52 := rfl
  rw [parts_eq, hinfinity]
  split
  · split
    · simp
      omega
    · simp
      omega
  · split
    · simp
      omega
    · simp
      omega

/-- Negation changes the sign bit. -/
theorem toBits_neg {x : Float} (h : x.toBits.toNat % 2 ^ 63 ≤ infinityBits) :
    (-x).toBits.toNat = (1 - x.toBits.toNat / 2 ^ 63) * 2 ^ 63 + x.toBits.toNat % 2 ^ 63 := by
  have hsign : (-Sign.ofBitVec (@unpackSign Format.binary64 x.toBits.toBitVec)).toBitVec.toNat =
      1 - x.toBits.toNat / 2 ^ 63 := by
    have hbit : ∀ c : BitVec 1, (-Sign.ofBitVec c).toBitVec.toNat = 1 - c.toNat := by decide
    rw [hbit, toNat_unpackSign]
    rfl
  have hpack := toNat_pack_ofFields (b := x.toBits.toBitVec) h
    (-Sign.ofBitVec (@unpackSign Format.binary64 x.toBits.toBitVec))
  rw [← neg_ofFields, ← unpack_eq, hsign] at hpack
  exact hpack

theorem parts_neg_nan {x : Float} (h : parts x = .nan) : parts (-x) = .nan := by
  have hbits := (parts_eq_nan_iff x).1 h
  have hinfinity : infinityBits = 2047 * 2 ^ 52 := rfl
  have hlt : x.toBits.toNat < 2 ^ 64 := x.toBits.toNat_lt
  have hunpack : UnpackedFloat.unpack Format.binary64 x.toBits.toBitVec = .notANumber := by
    have hexponent : @unpackExponent Format.binary64 x.toBits.toBitVec = -1#11 := by
      rw [unpackExponent_eq_iff]
      change x.toBits.toNat / 2 ^ 52 % 2 ^ 11 = 2047
      omega
    have hmantissa : ¬ @unpackMantissa Format.binary64 x.toBits.toBitVec = 0#52 := by
      rw [unpackMantissa_eq_iff]
      change ¬ x.toBits.toNat % 2 ^ 52 = 0
      omega
    rw [unpack_eq, ofFields, if_pos hexponent, if_neg hmantissa]
  have hneg : (-x).toBits = UInt64.ofBitVec ((UnpackedFloat.notANumber).pack Format.binary64) := by
    change UInt64.ofBitVec
      ((UnpackedFloat.unpack Format.binary64 x.toBits.toBitVec).neg.pack Format.binary64) = _
    rw [hunpack]
    rfl
  rw [parts_eq_nan_iff, hneg]
  decide

theorem parts_neg (x : Float) : parts (-x) = (parts x).negate := by
  by_cases hnan : parts x = .nan
  · rw [parts_neg_nan hnan, hnan]
    rfl
  have hneg := toBits_neg (Nat.not_lt.1 (mt (parts_eq_nan_iff x).2 hnan))
  have hlt : x.toBits.toNat < 2 ^ 64 := x.toBits.toNat_lt
  have hfractions : (-x).toBits.toNat % 2 ^ 52 = x.toBits.toNat % 2 ^ 52 := by omega
  have hexponents :
      (-x).toBits.toNat / 2 ^ 52 % 2 ^ 11 = x.toBits.toNat / 2 ^ 52 % 2 ^ 11 := by omega
  have hsigns : decide (2 ^ 63 ≤ (-x).toBits.toNat) = !decide (2 ^ 63 ≤ x.toBits.toNat) := by
    rw [← decide_not]
    apply decide_eq_decide.2
    omega
  rw [parts_eq, parts_eq x, hfractions, hexponents, hsigns]
  split
  · split <;> rfl
  · split <;> rfl

/-! ## Doubles with given parts -/

/-- The greatest exponent of a finite double. -/
def greatestExponent : Int := 971

theorem signBits_eq (negative : Bool) : signBits negative = negative.toNat * 2 ^ 63 := by
  cases negative <;> rfl

theorem Dyadic.bits_eq (d : Dyadic) :
    d.bits = d.negative.toNat * 2 ^ 63 + d.unsignedBits := by
  rw [Dyadic.bits, signBits_eq]
  rfl

section Canonical

variable {d : Dyadic} (h : d.Canonical) (hle : d.exponent ≤ greatestExponent)
include h hle

theorem Dyadic.Canonical.unsignedBits_lt : d.unsignedBits < infinityBits := by
  have hinfinity : infinityBits = 2047 * 2 ^ 52 := rfl
  have hmantissa := h.mantissa_lt
  rw [greatestExponent] at hle
  rw [Dyadic.unsignedBits, leastExponent, hinfinity]
  split <;> omega

theorem toBits_ofBits_bits : (Float.ofBits (UInt64.ofNat d.bits)).toBits.toNat = d.bits := by
  have hinfinity : infinityBits = 2047 * 2 ^ 52 := rfl
  have hless := h.unsignedBits_lt hle
  have hbool := Bool.toNat_lt d.negative
  have hbits := d.bits_eq
  have hword : (UInt64.ofNat d.bits).toNat = d.bits := by
    rw [UInt64.toNat_ofNat']
    apply Nat.mod_eq_of_lt
    omega
  rw [toBits_ofBits, hword]
  rw [hword]
  omega

/-- **Canonical parts that are not too great are those of the double with their bits.** -/
theorem parts_ofBits_bits : parts (Float.ofBits (UInt64.ofNat d.bits)) = .finite d := by
  have hinfinity : infinityBits = 2047 * 2 ^ 52 := rfl
  have hleastExponent : leastExponent = -1074 := rfl
  have hmantissa := h.mantissa_lt
  have hleast := h.least_le
  have hnormal := h.le_mantissa
  have hless := h.unsignedBits_lt hle
  have hbits := d.bits_eq
  rw [parts_eq, toBits_ofBits_bits h hle]
  obtain ⟨negative, m, e⟩ := d
  dsimp only at hmantissa hleast hnormal hbits
  have hnegative : decide (2 ^ 63 ≤ Dyadic.bits ⟨negative, m, e⟩) = negative := by
    cases negative with
    | true =>
        rw [Bool.toNat_true] at hbits
        apply decide_eq_true
        omega
    | false =>
        rw [Bool.toNat_false] at hbits
        apply decide_eq_false
        omega
  rw [hnegative]
  have hunsigned : Dyadic.unsignedBits ⟨negative, m, e⟩ =
      if m < 2 ^ 52 then m else m - 2 ^ 52 + ((e - leastExponent).toNat + 1) * 2 ^ 52 := rfl
  generalize Dyadic.bits ⟨negative, m, e⟩ = bits at hbits ⊢
  by_cases hsubnormal : m < 2 ^ 52
  · rw [if_pos hsubnormal] at hunsigned
    have hfraction : bits % 2 ^ 52 = m := by omega
    have hexponent : bits / 2 ^ 52 % 2 ^ 11 = 0 := by omega
    have hsame : e = leastExponent := by omega
    rw [hfraction, hexponent, hsame]
    rfl
  · rw [if_neg hsubnormal] at hunsigned
    have hfraction : 2 ^ 52 + bits % 2 ^ 52 = m := by omega
    have hexponent : bits / 2 ^ 52 % 2 ^ 11 = (e - leastExponent).toNat + 1 := by omega
    have hsame : leastExponent + ((e - leastExponent).toNat + 1 - 1 : ℕ) = e := by omega
    rw [hfraction, hexponent, if_neg (by omega), if_neg (Nat.succ_ne_zero _), hsame]

end Canonical

end Stencil.Number
