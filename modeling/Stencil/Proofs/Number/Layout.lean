import Stencil.Proofs.Number.Shortest

/-!
# Written numbers read back

Whatever form a finite number is written in, its text is a numeral, and the numeral
denotes the shortest decimal of the number (`writes_writeMagnitude`). So the text tells
which number it is, as far as the format tells zeros apart (`Layout.write_append_inj`).
-/

namespace Stencil.Number

/-! ## Numerals -/

/-- The decimal that a numeral denotes. -/
def Numeral.decimal (n : Numeral) : Decimal :=
  ⟨readDigits (n.whole ++ n.fraction), n.exponent - n.fraction.length⟩

/-- Decimal digits only. -/
def AllDigits (t : Text) : Prop :=
  ∀ c ∈ t, isDigit c = true

/-- A numeral ends before the text. -/
def Stops (rest : Text) : Prop :=
  ∀ c ∈ rest.head?, isDigit c = false ∧ c ≠ '.' ∧ c ≠ 'e' ∧ c ≠ 'E'

/-- The text is the numeral. -/
def Writes (t : Text) (n : Numeral) : Prop :=
  ∀ rest, Stops rest → takeNumeral? (t ++ rest) = some (n, rest)

/-- A numeral starts with a digit or a point. -/
theorem Writes.head {t : Text} {n : Numeral} (h : Writes t n) :
    ∃ c rest, t = c :: rest ∧ (isDigit c = true ∨ c = '.') := by
  have hread := h [] (by rintro c ⟨⟩)
  rw [List.append_nil] at hread
  cases t with
  | nil => cases hread
  | cons c rest =>
      refine ⟨c, rest, rfl, ?_⟩
      by_contra hno
      rw [not_or] at hno
      have hdigit : isDigit c = false := Bool.eq_false_iff.2 hno.1
      unfold takeNumeral? at hread
      rw [List.takeWhile_cons_of_neg hno.1, List.dropWhile_cons_of_neg hno.1] at hread
      split at hread
      · next heq => exact hno.2 (List.cons.inj heq).1
      · simp at hread

theorem AllDigits.append {s t : Text} (hs : AllDigits s) (ht : AllDigits t) :
    AllDigits (s ++ t) := by
  intro c hc
  rcases List.mem_append.1 hc with hc | hc
  · exact hs c hc
  · exact ht c hc

theorem allDigits_decimal (n : Nat) : AllDigits (decimal n) := fun _ => isDigit_of_mem_decimal

theorem allDigits_zeros (n : Nat) : AllDigits (zeros n) := fun _ => isDigit_of_mem_zeros

section TakeWhile

variable {digits rest : Text} (hdigits : AllDigits digits)
  (hrest : ∀ c ∈ rest.head?, isDigit c = false)
include hdigits hrest

theorem takeWhile_digits : (digits ++ rest).takeWhile isDigit = digits := by
  rw [List.takeWhile_append_of_pos hdigits]
  cases rest with
  | nil => rw [List.takeWhile_nil, List.append_nil]
  | cons c rest =>
      rw [List.takeWhile_cons_of_neg (by rw [hrest c rfl]; decide), List.append_nil]

theorem dropWhile_digits : (digits ++ rest).dropWhile isDigit = rest := by
  rw [List.dropWhile_append_of_pos hdigits]
  cases rest with
  | nil => rfl
  | cons c rest => rw [List.dropWhile_cons_of_neg (by rw [hrest c rfl]; decide)]

end TakeWhile

theorem takeExponent_of_stops {rest : Text} (h : Stops rest) : takeExponent rest = (0, rest) := by
  cases rest with
  | nil => rfl
  | cons c rest =>
      obtain ⟨-, -, he, hE⟩ := h c rfl
      simp [takeExponent, he, hE]

/-- The mark of an exponent and its sign. -/
def exponentText (e : ℤ) : Text :=
  'e' :: (if e < 0 then '-' else '+') :: decimal e.natAbs

theorem takeExponent_exponentText (e : ℤ) {rest : Text} (h : Stops rest) :
    takeExponent (exponentText e ++ rest) = (e, rest) := by
  have hstop : ∀ c ∈ rest.head?, isDigit c = false := fun c hc => (h c hc).1
  have htake := takeWhile_digits (allDigits_decimal e.natAbs) hstop
  have hdrop := dropWhile_digits (allDigits_decimal e.natAbs) hstop
  have hne := decimal_ne_nil e.natAbs
  by_cases hneg : e < 0
  · simp [exponentText, takeExponent, hneg, htake, hdrop, hne, readDigits_decimal, abs_of_neg hneg]
  · simp [exponentText, takeExponent, hneg, htake, hdrop, hne, readDigits_decimal,
      Int.le_of_not_gt hneg]

section Forms

variable {whole fraction rest : Text} (hwhole : AllDigits whole) (hne : whole ≠ [])
include hwhole hne

theorem takeNumeral?_whole (hdigit : ∀ c ∈ rest.head?, isDigit c = false)
    (hpoint : ∀ c ∈ rest.head?, c ≠ '.') :
    takeNumeral? (whole ++ rest) =
      some (⟨whole, [], (takeExponent rest).1⟩, (takeExponent rest).2) := by
  unfold takeNumeral?
  simp only [takeWhile_digits hwhole hdigit, dropWhile_digits hwhole hdigit]
  cases rest with
  | nil => simp [hne]
  | cons c rest =>
      have hc := hpoint c rfl
      split
      · next heq => exact absurd (List.cons.inj heq).1 hc
      · simp [hne]

theorem takeNumeral?_point (hfraction : AllDigits fraction)
    (hdigit : ∀ c ∈ rest.head?, isDigit c = false) :
    takeNumeral? (whole ++ '.' :: fraction ++ rest) =
      some (⟨whole, fraction, (takeExponent rest).1⟩, (takeExponent rest).2) := by
  have hstop : ∀ c ∈ ('.' :: (fraction ++ rest)).head?, isDigit c = false := by
    intro c hc
    obtain rfl := Option.some.inj hc
    rfl
  rw [List.append_assoc, List.cons_append]
  unfold takeNumeral?
  simp [takeWhile_digits hwhole hstop, dropWhile_digits hwhole hstop,
    takeWhile_digits hfraction hdigit, dropWhile_digits hfraction hdigit, hne]

end Forms

section Writes

variable {whole fraction : Text} (hwhole : AllDigits whole) (hne : whole ≠ [])
include hwhole hne

theorem writes_whole : Writes whole ⟨whole, [], 0⟩ := by
  intro rest h
  rw [takeNumeral?_whole hwhole hne (fun c hc => (h c hc).1) (fun c hc => (h c hc).2.1),
    takeExponent_of_stops h]

theorem writes_exponent (e : ℤ) : Writes (whole ++ exponentText e) ⟨whole, [], e⟩ := by
  intro rest h
  have hhead : (exponentText e ++ rest).head? = some 'e' := rfl
  have hdigit : ∀ c ∈ (exponentText e ++ rest).head?, isDigit c = false := by
    rw [hhead]
    rintro c ⟨⟩
    rfl
  have hpoint : ∀ c ∈ (exponentText e ++ rest).head?, c ≠ '.' := by
    rw [hhead]
    rintro c ⟨⟩
    decide
  rw [List.append_assoc, takeNumeral?_whole hwhole hne hdigit hpoint,
    takeExponent_exponentText e h]

theorem writes_point (hfraction : AllDigits fraction) :
    Writes (whole ++ '.' :: fraction) ⟨whole, fraction, 0⟩ := by
  intro rest h
  rw [takeNumeral?_point hwhole hne hfraction (fun c hc => (h c hc).1), takeExponent_of_stops h]

theorem writes_point_exponent (hfraction : AllDigits fraction) (e : ℤ) :
    Writes (whole ++ '.' :: fraction ++ exponentText e) ⟨whole, fraction, e⟩ := by
  intro rest h
  have hdigit : ∀ c ∈ (exponentText e ++ rest).head?, isDigit c = false := by
    rintro c ⟨⟩
    rfl
  rw [List.append_assoc, takeNumeral?_point hwhole hne hfraction hdigit,
    takeExponent_exponentText e h]

end Writes

/-! ## Digits in their forms -/

theorem Numeral.value_decimal (whole fraction : Text) (e : ℤ) :
    (Numeral.mk whole fraction e).decimal.value =
      readDigits (whole ++ fraction) * 10 ^ (e - fraction.length) := rfl

theorem allDigits_zero : AllDigits ['0'] := allDigits_zeros 1

section Digits

variable {ds : Text} (hds : AllDigits ds) (hne : ds ≠ [])
include hds hne

/-- Digits that start after the point. -/
theorem writes_below_one {position : ℤ} (h : position ≤ 0) :
    ∃ n, Writes ('0' :: '.' :: zeros (-position).toNat ++ ds) n ∧
      n.decimal.value = readDigits ds * 10 ^ (position - ds.length) ∧ n.fraction ≠ [] := by
  have hfraction := (allDigits_zeros (-position).toNat).append hds
  refine ⟨⟨['0'], zeros (-position).toNat ++ ds, 0⟩,
    writes_point allDigits_zero (by simp) hfraction, ?_, by simp [hne]⟩
  -- the zeros before the digits do not count
  have hdigits : readDigits (['0'] ++ (zeros (-position).toNat ++ ds)) = readDigits ds := by
    have hzeros : ['0'] ++ zeros (-position).toNat = zeros ((-position).toNat + 1) := rfl
    rw [← List.append_assoc, readDigits_append, hzeros, readDigits_zeros, Nat.zero_mul,
      Nat.zero_add]
  have hexponent : 0 - ((zeros (-position).toNat ++ ds).length : ℤ) = position - ds.length := by
    rw [List.length_append, length_zeros]
    omega
  rw [Numeral.value_decimal, hdigits, hexponent]

/-- Digits that end before the point, with or without it. -/
theorem writes_no_fraction (keepsPoint : Bool) {position : ℤ} (h : ds.length ≤ position.toNat) :
    ∃ n, Writes (ds ++ zeros (position.toNat - ds.length) ++
        if keepsPoint then ['.', '0'] else []) n ∧
      n.decimal.value = readDigits ds * 10 ^ (position - ds.length) ∧
      (keepsPoint = true → n.fraction ≠ []) := by
  have hwhole := hds.append (allDigits_zeros (position.toNat - ds.length))
  have hsome : ds ++ zeros (position.toNat - ds.length) ≠ [] := by simp [hne]
  have hlength := List.length_pos_of_ne_nil hne
  have hexponent : position - ds.length = (position.toNat - ds.length : ℕ) := by omega
  cases keepsPoint with
  | true =>
      refine ⟨⟨ds ++ zeros (position.toNat - ds.length), ['0'], 0⟩,
        writes_point hwhole hsome allDigits_zero, ?_, fun _ => by simp⟩
      have hone : 0 - ((['0'] : Text).length : ℤ) = -1 := rfl
      have hzero : readDigits ['0'] = 0 := rfl
      rw [Numeral.value_decimal, readDigits_append, readDigits_append, readDigits_zeros,
        length_zeros, hexponent, zpow_natCast, hone, hzero]
      push_cast
      rw [zpow_neg_one, List.length_singleton]
      ring
  | false =>
      refine ⟨⟨ds ++ zeros (position.toNat - ds.length), [], 0⟩, ?_, ?_, by simp⟩
      · change Writes (ds ++ zeros (position.toNat - ds.length) ++ []) _
        rw [List.append_nil]
        exact writes_whole hwhole hsome
      · rw [Numeral.value_decimal, List.append_nil, readDigits_append, readDigits_zeros,
          length_zeros, hexponent, zpow_natCast]
        push_cast
        simp

/-- Digits with the point among them. -/
theorem writes_split {position : ℤ} (hpos : 0 < position) (h : position.toNat < ds.length) :
    ∃ n, Writes (ds.take position.toNat ++ '.' :: ds.drop position.toNat) n ∧
      n.decimal.value = readDigits ds * 10 ^ (position - ds.length) ∧ n.fraction ≠ [] := by
  have hsplit : ds.take position.toNat ++ ds.drop position.toNat = ds :=
    List.take_append_drop position.toNat ds
  have hwhole : AllDigits (ds.take position.toNat) :=
    fun c hc => hds c (List.mem_of_mem_take hc)
  have hfraction : AllDigits (ds.drop position.toNat) :=
    fun c hc => hds c (List.mem_of_mem_drop hc)
  have hsome : ds.take position.toNat ≠ [] := by
    rw [Ne, List.take_eq_nil_iff]
    rintro (hzero | hnil)
    · omega
    · exact hne hnil
  refine ⟨⟨ds.take position.toNat, ds.drop position.toNat, 0⟩,
    writes_point hwhole hsome hfraction, ?_, ?_⟩
  · have hexponent : 0 - ((ds.drop position.toNat).length : ℤ) = position - ds.length := by
      rw [List.length_drop]
      omega
    rw [Numeral.value_decimal, hsplit, hexponent]
  · rw [Ne, List.drop_eq_nil_iff]
    exact Nat.not_le.2 h

theorem writes_positional (keepsPoint : Bool) (position : ℤ) :
    ∃ n, Writes (positional keepsPoint ds position) n ∧
      n.decimal.value = readDigits ds * 10 ^ (position - ds.length) ∧
      (keepsPoint = true → n.fraction ≠ []) := by
  unfold positional
  split
  · next hsmall =>
      obtain ⟨n, hn, hvalue, hfraction⟩ := writes_below_one hds hne hsmall
      exact ⟨n, hn, hvalue, fun _ => hfraction⟩
  next hlarge =>
  split
  · next hlong => exact writes_no_fraction hds hne keepsPoint hlong
  · next hshort =>
      obtain ⟨n, hn, hvalue, hfraction⟩ :=
        writes_split hds hne (Int.not_le.1 hlarge) (Nat.not_le.1 hshort)
      exact ⟨n, hn, hvalue, fun _ => hfraction⟩

theorem writes_scientific (exponent : ℤ) :
    ∃ n, Writes (scientific ds exponent) n ∧
      n.decimal.value = readDigits ds * 10 ^ (exponent + 1 - ds.length) ∧
      n.exponent = exponent := by
  cases ds with
  | nil => exact absurd rfl hne
  | cons d rest =>
      have hfirst : AllDigits [d] := by
        intro c hc
        obtain rfl := List.mem_singleton.1 hc
        exact hds c List.mem_cons_self
      have hrest : AllDigits rest := fun c hc => hds c (List.mem_cons_of_mem d hc)
      have hexponent : exponent - rest.length = exponent + 1 - (d :: rest).length := by
        rw [List.length_cons]
        omega
      refine ⟨⟨[d], rest, exponent⟩, ?_, ?_, rfl⟩
      · cases rest with
        | nil => exact writes_exponent hfirst (by simp) exponent
        | cons e rest => exact writes_point_exponent hfirst (by simp) hrest exponent
      · rw [Numeral.value_decimal, hexponent]
        rfl

end Digits

/-! ## The text of a magnitude -/

/-- **The text of a magnitude is a numeral** for the shortest decimal. Where whole
numbers keep a point, it is not the numeral of an integer. -/
theorem writes_writeMagnitude (l : Layout) (d : Dyadic) :
    ∃ n, Writes (l.writeMagnitude d) n ∧
      n.decimal.value = (if d.mantissa = 0 then 0 else (shortest l.tie d).value) ∧
      (l.keepsPoint = true → l.isPositional 0 = true → n.fraction ≠ [] ∨ n.exponent ≠ 0) := by
  unfold Layout.writeMagnitude
  split
  · next hzero =>
      cases l.keepsPoint with
      | true =>
          refine ⟨⟨['0'], ['0'], 0⟩, writes_point allDigits_zero (by simp) allDigits_zero, ?_, ?_⟩
          · rw [Numeral.value_decimal]
            have hdigits : readDigits (['0'] ++ ['0']) = 0 := rfl
            rw [hdigits, Nat.cast_zero, zero_mul]
          · intro _ _
            exact Or.inl (by simp)
      | false =>
          refine ⟨⟨['0'], [], 0⟩, writes_whole allDigits_zero (by simp), ?_, by simp⟩
          rw [Numeral.value_decimal]
          have hdigits : readDigits (['0'] ++ []) = 0 := rfl
          rw [hdigits, Nat.cast_zero, zero_mul]
  · next hsome =>
      have hds := allDigits_decimal (shortest l.tie d).coefficient
      have hne := decimal_ne_nil (shortest l.tie d).coefficient
      dsimp only
      split
      · obtain ⟨n, hn, hvalue, hpoint⟩ := writes_positional hds hne l.keepsPoint
          ((decimal (shortest l.tie d).coefficient).length + (shortest l.tie d).exponent)
        refine ⟨n, hn, ?_, fun hkeeps _ => Or.inl (hpoint hkeeps)⟩
        rw [hvalue, readDigits_decimal, add_sub_cancel_left]
        rfl
      · next hposition =>
        obtain ⟨n, hn, hvalue, hexponent⟩ := writes_scientific hds hne
          ((decimal (shortest l.tie d).coefficient).length + (shortest l.tie d).exponent - 1)
        refine ⟨n, hn, ?_, fun _ hpositional => Or.inr ?_⟩
        · rw [hvalue, readDigits_decimal, sub_add_cancel, add_sub_cancel_left]
          rfl
        · rw [hexponent]
          intro hzero
          rw [hzero] at hposition
          exact hposition hpositional

/-! ## The text of a number -/

theorem takeNumeral?_minus (t : Text) : takeNumeral? ('-' :: t) = none := rfl

theorem Layout.write_finite (l : Layout) {x : Float} (h : isFinite x = true) :
    ∃ d, parts x = .finite d ∧
      l.write x = signed (d.negative && (l.signedZero || d.mantissa ≠ 0)) (l.writeMagnitude d) := by
  unfold isFinite at h
  unfold Layout.write
  cases hparts : parts x with
  | finite d => exact ⟨d, rfl, rfl⟩
  | infinite negative =>
      rw [hparts] at h
      cases h
  | nan =>
      rw [hparts] at h
      cases h

/-- The sign, the numeral and what follows can be told from the text. -/
theorem signed_append_inj {negative negative' : Bool} {t t' rest rest' : Text} {n n' : Numeral}
    (hn : Writes t n) (hn' : Writes t' n') (hrest : Stops rest) (hrest' : Stops rest')
    (h : signed negative t ++ rest = signed negative' t' ++ rest') :
    negative = negative' ∧ n = n' ∧ rest = rest' := by
  have unsigned : t ++ rest = t' ++ rest' → n = n' ∧ rest = rest' := by
    intro heq
    have hread := hn rest hrest
    rw [heq, hn' rest' hrest'] at hread
    obtain ⟨rfl, rfl⟩ := Prod.mk.inj (Option.some.inj hread)
    exact ⟨rfl, rfl⟩
  cases negative with
  | true =>
      cases negative' with
      | true => exact ⟨rfl, unsigned (List.cons.inj h).2⟩
      | false =>
          have hread : takeNumeral? (t' ++ rest') = none := by
            change '-' :: (t ++ rest) = t' ++ rest' at h
            rw [← h, takeNumeral?_minus]
          rw [hn' rest' hrest'] at hread
          cases hread
  | false =>
      cases negative' with
      | true =>
          have hread : takeNumeral? (t ++ rest) = none := by
            change t ++ rest = '-' :: (t' ++ rest') at h
            rw [h, takeNumeral?_minus]
          rw [hn rest hrest] at hread
          cases hread
      | false => exact ⟨rfl, unsigned h⟩

theorem eq_of_mantissa_zero {d d' : Dyadic} (h : d.Canonical) (h' : d'.Canonical)
    (hzero : d.mantissa = 0) (hzero' : d'.mantissa = 0) : d.exponent = d'.exponent := by
  have least : ∀ {d : Dyadic}, d.Canonical → d.mantissa = 0 → d.exponent = leastExponent := by
    intro d h hzero
    by_contra hne
    have hnormal := h.le_mantissa hne
    rw [hzero] at hnormal
    exact absurd hnormal (by decide)
  rw [least h hzero, least h' hzero']

/-- Magnitudes of one value are the same. -/
theorem eq_of_written {d d' : Dyadic} (h : d.Canonical) (h' : d'.Canonical) (tie : Tie)
    (heq : (if d.mantissa = 0 then 0 else (shortest tie d).value) =
      if d'.mantissa = 0 then 0 else (shortest tie d').value) :
    d.mantissa = d'.mantissa ∧ d.exponent = d'.exponent := by
  have positive : ∀ {d : Dyadic}, d.Canonical → d.mantissa ≠ 0 → 0 < (shortest tie d).value :=
    fun h hne =>
      lt_of_lt_of_le (lowEnd_pos (Nat.pos_of_ne_zero hne))
        (shortest_covers h (Nat.pos_of_ne_zero hne) tie).low
  by_cases hzero : d.mantissa = 0
  · by_cases hzero' : d'.mantissa = 0
    · exact ⟨by rw [hzero, hzero'], eq_of_mantissa_zero h h' hzero hzero'⟩
    · rw [if_pos hzero, if_neg hzero'] at heq
      exact absurd heq (ne_of_lt (positive h' hzero'))
  · by_cases hzero' : d'.mantissa = 0
    · rw [if_neg hzero, if_pos hzero'] at heq
      exact absurd heq.symm (ne_of_lt (positive h hzero))
    · rw [if_neg hzero, if_neg hzero'] at heq
      exact eq_of_shortest h h' (Nat.pos_of_ne_zero hzero) (Nat.pos_of_ne_zero hzero') heq

/-- **A format that gives zero its sign tells finite doubles apart**, and where the text
of the number ends. -/
theorem Layout.write_append_inj {l : Layout} (hsign : l.signedZero = true) {x y : Float}
    (hx : isFinite x = true) (hy : isFinite y = true) {rest rest' : Text} (hrest : Stops rest)
    (hrest' : Stops rest') (h : l.write x ++ rest = l.write y ++ rest') :
    x = y ∧ rest = rest' := by
  obtain ⟨d, hd, hxd⟩ := l.write_finite hx
  obtain ⟨d', hd', hyd⟩ := l.write_finite hy
  obtain ⟨n, hn, hvalue, -⟩ := writes_writeMagnitude l d
  obtain ⟨n', hn', hvalue', -⟩ := writes_writeMagnitude l d'
  -- the sign is always written
  rw [hxd, hyd, hsign, Bool.true_or, Bool.and_true, Bool.true_or, Bool.and_true] at h
  obtain ⟨hnegative, rfl, hrests⟩ := signed_append_inj hn hn' hrest hrest' h
  refine ⟨?_, hrests⟩
  obtain ⟨hmantissa, hexponent⟩ := eq_of_written (parts_finite hd).1 (parts_finite hd').1 l.tie
    (hvalue.symm.trans hvalue')
  have hparts : d = d' := by
    cases d
    cases d'
    simp_all
  rw [hparts] at hd
  exact eq_of_parts hd hd'

end Stencil.Number
