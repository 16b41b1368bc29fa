import Stencil.Proofs.Number.Whole

/-!
# Numerals in any base

The numeral of a number consists of digits of the base without a zero before them
(`spells_digits`). Read from the left, with every product and sum rounded, they make the
number as long as it is exact in a double (`accumulate_eq`), and they are read to their end
(`leadingInteger_signed`): the mark of base sixteen is not taken for one of them, because it
starts with a zero before another character.
-/

namespace Stencil.Number

/-- Digits that spell a number in a base: their positional value is the number, and no zero
stands before another digit. -/
structure Spells (base : Nat) (ds : List Nat) (n : Nat) : Prop where
  nonempty : ds ≠ []
  lt_base : ∀ d ∈ ds, d < base
  no_leading_zero : 1 < ds.length → ds.head? ≠ some 0
  value : Nat.ofDigits base ds.reverse = n

theorem ofDigits_append_singleton (base : Nat) (ds : List Nat) (d : Nat) :
    ofDigits base (ds ++ [d]) = ofDigits base ds * base + d := by
  rw [ofDigits, List.foldl_append]
  rfl

/-- The number that digits denote is their positional value. -/
theorem ofDigits_eq (base : Nat) (ds : List Nat) :
    ofDigits base ds = Nat.ofDigits base ds.reverse := by
  induction ds using List.reverseRecOn with
  | nil => rfl
  | append_singleton ds d ih =>
      rw [ofDigits_append_singleton, ih, List.reverse_append, List.reverse_singleton,
        List.singleton_append, Nat.ofDigits_cons]
      ring

theorem spells_digits {base : Nat} (hbase : 1 < base) (n : Nat) :
    Spells base (digits base n) n where
  nonempty := digits_ne_nil hbase n
  lt_base := fun _ => digits_lt hbase
  no_leading_zero := by
    intro hlength
    rcases Nat.eq_zero_or_pos n with rfl | hn
    · rw [digits_zero] at hlength
      exact absurd hlength (by decide)
    · rw [digits_eq hbase hn, List.head?_reverse,
        List.getLast?_eq_some_getLast (Nat.digits_ne_nil_iff_ne_zero.2 (Nat.ne_of_gt hn))]
      intro hzero
      exact Nat.getLast_digit_ne_zero base (Nat.ne_of_gt hn) (Option.some.inj hzero)
  value := by rw [← ofDigits_eq, ofDigits_digits hbase]

/-! ## The characters of digits -/

theorem digitValue?_digitChar {base d : Nat} (hd : d < base) (hbase : base ≤ greatestBase) :
    digitValue? base (digitChar d) = some d := by
  have hlt : d < 36 := Nat.lt_of_lt_of_le hd hbase
  interval_cases d <;> exact if_pos hd

theorem isBlank_digitChar {d : Nat} (hd : d < greatestBase) :
    Text.isBlank (digitChar d) = false := by
  rw [greatestBase] at hd
  interval_cases d <;> rfl

theorem digitChar_ne_sign {d : Nat} (hd : d < greatestBase) :
    digitChar d ≠ '-' ∧ digitChar d ≠ '+' := by
  rw [greatestBase] at hd
  interval_cases d <;> decide

theorem digitChar_eq_zero {d : Nat} (hd : d < greatestBase) (h : digitChar d = '0') : d = 0 := by
  rw [greatestBase] at hd
  interval_cases d <;> first | rfl | exact absurd h (by decide)

/-! ## Exact accumulation -/

theorem roundToPrecision_of_le {n : Nat} (hn : n ≤ greatestWhole) : roundToPrecision n = n := by
  unfold roundToPrecision
  dsimp only
  rcases Nat.lt_or_eq_of_le hn with hless | rfl
  · have hexcess : n.log2 - fractionBits = 0 := by
      rcases Nat.eq_zero_or_pos n with rfl | hpos
      · rfl
      · exact Nat.sub_eq_zero_of_le
          (Nat.le_of_lt_succ ((Nat.log2_lt (Nat.ne_of_gt hpos)).2 hless))
    have hone : Nat.pow 2 0 = 1 := rfl
    have hexact := roundDiv_mul .toEven n Nat.one_pos
    rw [Nat.mul_one] at hexact
    rw [hexcess, hone, hexact, Nat.mul_one]
  · decide +kernel

theorem accumulate_append (base : Nat) (ds : List Nat) (d : Nat) :
    accumulate base (ds ++ [d]) =
      roundToPrecision (roundToPrecision (accumulate base ds * base) + d) := by
  rw [accumulate, List.foldl_append]
  rfl

/-- Digits read from the left before a digit are exact if they are with it. -/
theorem ofDigits_le_append (base : Nat) (ds rest : List Nat) (hbase : 0 < base) :
    ofDigits base ds ≤ ofDigits base (ds ++ rest) := by
  rw [ofDigits_append]
  exact Nat.le_add_right_of_le (Nat.le_mul_of_pos_right _ (Nat.pow_pos hbase))

/-- **Nothing is rounded** while the digits of a number that is exact in a double are read. -/
theorem accumulate_eq {base : Nat} (hbase : 0 < base) {ds : List Nat}
    (h : ofDigits base ds ≤ greatestWhole) : accumulate base ds = ofDigits base ds := by
  induction ds using List.reverseRecOn with
  | nil => rfl
  | append_singleton ds d ih =>
      have hbefore := ih (Nat.le_trans (ofDigits_le_append base ds [d] hbase) h)
      rw [ofDigits_append_singleton] at h
      have hproduct : ofDigits base ds * base ≤ greatestWhole :=
        Nat.le_trans (Nat.le_add_right _ d) h
      rw [accumulate_append, ofDigits_append_singleton, hbefore,
        roundToPrecision_of_le hproduct, roundToPrecision_of_le h]

/-! ## Numerals at the start of a text -/

/-- No base is named where no zero stands before another character. -/
theorem namedBase?_eq_none {t : Text} (h : 1 < t.length → t.head? ≠ some '0') :
    namedBase? t = none := by
  unfold namedBase?
  split <;> first | rfl | exact absurd rfl (h (by simp))

theorem trimStart_signed (negative : Bool) {t : Text}
    (h : ∀ c ∈ t.head?, Text.isBlank c = false) :
    Text.trimStart (signed negative t) = signed negative t := by
  cases negative with
  | true => rfl
  | false =>
      cases t with
      | nil => rfl
      | cons c t => exact List.dropWhile_cons_of_neg (by rw [h c rfl]; decide)

theorem takeSign_signed (negative : Bool) {t : Text}
    (h : ∀ c ∈ t.head?, c ≠ '-' ∧ c ≠ '+') : takeSign (signed negative t) = (negative, t) := by
  cases negative with
  | true => rfl
  | false =>
      change takeSign t = _
      unfold takeSign
      split
      · exact absurd rfl (h _ rfl).1
      · exact absurd rfl (h _ rfl).2
      · rfl

section Reading

variable {base : Nat} {ds : List Nat} (hds : ∀ d ∈ ds, d < base) (hbase : base ≤ greatestBase)
include hds hbase

theorem head_digitChars : ∀ c ∈ (ds.map digitChar).head?,
    Text.isBlank c = false ∧ c ≠ '-' ∧ c ≠ '+' := by
  intro c hc
  rw [List.head?_map, Option.mem_map] at hc
  obtain ⟨d, hd, rfl⟩ := hc
  have hlt := Nat.lt_of_lt_of_le (hds d (List.mem_of_mem_head? hd)) hbase
  exact ⟨isBlank_digitChar hlt, digitChar_ne_sign hlt⟩

theorem digitValues_digitChars :
    (((ds.map digitChar).map (digitValue? base)).takeWhile Option.isSome).filterMap id = ds := by
  induction ds with
  | nil => rfl
  | cons d ds ih =>
      have hrest := ih fun e he => hds e (List.mem_cons_of_mem d he)
      rw [List.map_cons, List.map_cons, digitValue?_digitChar (hds d List.mem_cons_self) hbase,
        List.takeWhile_cons_of_pos rfl, List.filterMap_cons_some (f := id) rfl, hrest]

end Reading

/-- **A numeral after a sign is read to its end.** -/
theorem leadingInteger_signed {base : Nat} (htwo : 2 ≤ base) (hbase : base ≤ greatestBase)
    {ds : List Nat} {n : Nat} (h : Spells base ds n) (negative : Bool) :
    leadingInteger base (signed negative (ds.map digitChar)) =
      negateIf negative (ofNat (accumulate base ds)) := by
  have hhead := head_digitChars h.lt_base hbase
  have hsign := takeSign_signed negative fun c hc => (hhead c hc).2
  have hnamed : namedBase? (ds.map digitChar) = none := by
    apply namedBase?_eq_none
    rw [List.length_map]
    intro hlength hzero
    rw [List.head?_map, Option.map_eq_some_iff] at hzero
    obtain ⟨d, hd, hchar⟩ := hzero
    have hlt := Nat.lt_of_lt_of_le (h.lt_base d (List.mem_of_mem_head? hd)) hbase
    rw [digitChar_eq_zero hlt hchar] at hd
    exact h.no_leading_zero hlength hd
  have hprefix : (if base = 0 || base = 16 then namedBase? (ds.map digitChar) else none) =
      none := by
    rw [hnamed, ite_self]
  have hbase0 : base ≠ 0 := by omega
  unfold leadingInteger
  dsimp only
  rw [trimStart_signed negative fun c hc => (hhead c hc).1, hsign, hprefix]
  dsimp only
  rw [if_neg hbase0, digitValues_digitChars h.lt_base hbase]
  have hvalid : ¬ (decide (base < 2) || decide (greatestBase < base)) = true := by
    rw [Bool.or_eq_true, decide_eq_true_iff, decide_eq_true_iff]
    omega
  rw [if_neg hvalid]
  cases hcases : ds with
  | nil => exact absurd hcases h.nonempty
  | cons d rest => rfl

end Stencil.Number
