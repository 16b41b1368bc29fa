import Stencil.Number.Layout
import Stencil.Number.Numeral
import Mathlib.Data.Nat.Digits.Lemmas
import Mathlib.Tactic.IntervalCases
import Mathlib.Tactic.Ring

/-!
# Numerals read back

The digits of a number in a base denote it (`ofDigits_digits`), a decimal numeral has
decimal digits only and reads back as its number (`readDigits_decimal`), and zeros
before the digits or after them do what they should.
-/

namespace Stencil.Number

/-! ## Digits -/

theorem ofDigits_append (base : Nat) (xs ys : List Nat) :
    ofDigits base (xs ++ ys) = ofDigits base xs * base ^ ys.length + ofDigits base ys := by
  induction ys using List.reverseRecOn with
  | nil => simp [ofDigits]
  | append_singleton ys d ih =>
      have last : ∀ zs : List Nat, ofDigits base (zs ++ [d]) = ofDigits base zs * base + d := by
        intro zs
        rw [ofDigits, List.foldl_append]
        rfl
      rw [← List.append_assoc, last, last, ih, List.length_append, List.length_singleton, pow_succ]
      ring

/-- The digits that the library of natural numbers lists, the other way round. -/
theorem digitsBefore_eq {base : Nat} (hbase : 1 < base) {fuel n : Nat} (hn : 0 < n)
    (hfuel : n < base ^ fuel) (acc : List Nat) :
    digitsBefore base fuel n acc = (Nat.digits base n).reverse ++ acc := by
  induction fuel generalizing n acc with
  | zero =>
      rw [pow_zero] at hfuel
      omega
  | succ fuel ih =>
      rw [Nat.digits_def' hbase hn, List.reverse_cons, List.append_assoc, digitsBefore]
      by_cases hlast : n / base = 0
      · rw [if_pos hlast, hlast, Nat.digits_zero]
        rfl
      · rw [if_neg hlast]
        have hsmaller : n / base < base ^ fuel := by
          apply Nat.div_lt_of_lt_mul
          rwa [← pow_succ']
        rw [ih (Nat.pos_of_ne_zero hlast) hsmaller]
        rfl

theorem digits_eq {base n : Nat} (hbase : 1 < base) (hn : 0 < n) :
    digits base n = (Nat.digits base n).reverse := by
  have hfuel : n < base ^ (n.log2 + 1) :=
    Nat.lt_of_lt_of_le Nat.lt_log2_self (Nat.pow_le_pow_left hbase _)
  rw [digits, digitsBefore_eq hbase hn hfuel, List.append_nil]

theorem digits_zero (base : Nat) : digits base 0 = [0] := by
  have hmod : 0 % base = 0 := Nat.zero_mod base
  have hdiv : 0 / base = 0 := Nat.zero_div base
  rw [digits, digitsBefore, hdiv, hmod, if_pos rfl]

theorem ofDigits_digits {base : Nat} (hbase : 1 < base) (n : Nat) :
    ofDigits base (digits base n) = n := by
  have reversed : ∀ ds : List Nat, ofDigits base ds.reverse = Nat.ofDigits base ds := by
    intro ds
    induction ds with
    | nil => rfl
    | cons d ds ih =>
        rw [List.reverse_cons, ofDigits_append, ih, Nat.ofDigits_cons, List.length_singleton,
          pow_one]
        change Nat.ofDigits base ds * base + (0 * base + d) = d + base * Nat.ofDigits base ds
        ring
  rcases Nat.eq_zero_or_pos n with rfl | hn
  · rw [digits_zero]
    change 0 * base + 0 = 0
    rw [Nat.zero_mul]
  · rw [digits_eq hbase hn, reversed, Nat.ofDigits_digits]

theorem digits_lt {base n d : Nat} (hbase : 1 < base) (hd : d ∈ digits base n) : d < base := by
  rcases Nat.eq_zero_or_pos n with rfl | hn
  · rw [digits_zero] at hd
    obtain rfl := List.mem_singleton.1 hd
    exact Nat.lt_of_succ_lt hbase
  · rw [digits_eq hbase hn, List.mem_reverse] at hd
    exact Nat.digits_lt_base hbase hd

theorem digits_ne_nil {base : Nat} (hbase : 1 < base) (n : Nat) : digits base n ≠ [] := by
  rcases Nat.eq_zero_or_pos n with rfl | hn
  · rw [digits_zero]
    exact List.cons_ne_nil 0 []
  · rw [digits_eq hbase hn, Ne, List.reverse_eq_nil_iff]
    exact Nat.digits_ne_nil_iff_ne_zero.2 (Nat.ne_of_gt hn)

/-- The first digit is not zero. -/
theorem pow_length_digits_le {base n : Nat} (hbase : 1 < base) (hn : 0 < n) :
    base ^ ((digits base n).length - 1) ≤ n := by
  have hlength : (digits base n).length = (Nat.digits base n).length := by
    rw [digits_eq hbase hn, List.length_reverse]
  rw [← Nat.lt_digits_length_iff hbase, ← hlength]
  exact Nat.sub_lt (List.length_pos_of_ne_nil (digits_ne_nil hbase n)) Nat.one_pos

/-! ## Decimal numerals -/

theorem digitChar_toNat {d : Nat} (h : d < 10) : (digitChar d).toNat - '0'.toNat = d := by
  interval_cases d <;> rfl

theorem isDigit_digitChar {d : Nat} (h : d < 10) : isDigit (digitChar d) = true := by
  interval_cases d <;> rfl

theorem isDigit_of_mem_decimal {n : Nat} {c : Char} (hc : c ∈ decimal n) : isDigit c = true := by
  obtain ⟨d, hd, rfl⟩ := List.mem_map.1 hc
  exact isDigit_digitChar (digits_lt (by decide) hd)

theorem decimal_ne_nil (n : Nat) : decimal n ≠ [] := by
  rw [decimal, numeral, Ne, List.map_eq_nil_iff]
  exact digits_ne_nil (by decide) n

theorem readDigits_append (s t : Text) :
    readDigits (s ++ t) = readDigits s * 10 ^ t.length + readDigits t := by
  rw [readDigits, List.map_append, ofDigits_append, List.length_map]
  rfl

/-- **A decimal numeral reads back as its number.** -/
theorem readDigits_decimal (n : Nat) : readDigits (decimal n) = n := by
  have hchars : (decimal n).map (fun c => c.toNat - '0'.toNat) = digits 10 n := by
    rw [decimal, numeral, List.map_map]
    calc (digits 10 n).map ((fun c => c.toNat - '0'.toNat) ∘ digitChar)
        = (digits 10 n).map id :=
          List.map_congr_left fun d hd => digitChar_toNat (digits_lt (by decide) hd)
      _ = digits 10 n := List.map_id _
  rw [readDigits, hchars, ofDigits_digits (by decide)]

theorem decimal_injective : Function.Injective decimal := by
  intro m n h
  rw [← readDigits_decimal m, h, readDigits_decimal]

/-! ## Zeros -/

theorem length_zeros (n : Nat) : (zeros n).length = n :=
  List.length_replicate

theorem isDigit_of_mem_zeros {n : Nat} {c : Char} (hc : c ∈ zeros n) : isDigit c = true := by
  obtain rfl := List.eq_of_mem_replicate hc
  rfl

theorem readDigits_zeros (n : Nat) : readDigits (zeros n) = 0 := by
  induction n with
  | zero => rfl
  | succ n ih =>
      have hcons : zeros (n + 1) = ['0'] ++ zeros n := rfl
      have hzero : readDigits ['0'] = 0 := rfl
      rw [hcons, readDigits_append, ih, hzero, Nat.zero_mul]

end Stencil.Number
