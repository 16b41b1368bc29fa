import Stencil.Proofs.Number.Decimal
import Mathlib.Data.List.TakeWhile

/-!
# Which texts are numbers

A grammar of numeric literals, and what a conversion of a text accepts: every literal but one
with a named base that does not fit into a word, and besides them decimal literals with two
signs and a plus sign after the mark of a base (`ofText_not_nan_iff`). A decimal literal is
rounded correctly (`roundsTo_ofText`).

Each scanner takes exactly the text of its rule: what it takes is derived by the rule
(`..._spec`), and on what the rule derives it takes all.
-/

namespace Stencil.Number

/-! ## The grammar -/

/-- An optional sign. -/
inductive SignText : Bool → Text → Prop
  | none : SignText false []
  | plus : SignText false ['+']
  | minus : SignText true ['-']

/-- The number with a sign. -/
def signedInt (negative : Bool) (n : Nat) : ℤ :=
  if negative then -n else n

/-- An optional exponent with an optional sign. -/
inductive ExponentText : ℤ → Text → Prop
  | none : ExponentText 0 []
  | some {c : Char} {negative : Bool} {sign ds : Text} (hc : c = 'e' ∨ c = 'E')
      (hsign : SignText negative sign) (hds : AllDigits ds) (hne : ds ≠ []) :
      ExponentText (signedInt negative (readDigits ds)) (c :: (sign ++ ds))

/-- A decimal literal without a sign: there is a digit before the point or after it. -/
inductive DecimalText : Numeral → Text → Prop
  | whole {whole exponent : Text} {e : ℤ} (hwhole : AllDigits whole) (hne : whole ≠ [])
      (hexponent : ExponentText e exponent) : DecimalText ⟨whole, [], e⟩ (whole ++ exponent)
  | point {whole fraction exponent : Text} {e : ℤ} (hwhole : AllDigits whole)
      (hfraction : AllDigits fraction) (hne : whole ≠ [] ∨ fraction ≠ [])
      (hexponent : ExponentText e exponent) :
      DecimalText ⟨whole, fraction, e⟩ (whole ++ '.' :: fraction ++ exponent)

/-- The mark of a base. -/
inductive BaseMark : Nat → Text → Prop
  | sixteen {c : Char} (hc : c = 'x' ∨ c = 'X') : BaseMark 16 ['0', c]
  | eight {c : Char} (hc : c = 'o' ∨ c = 'O') : BaseMark 8 ['0', c]
  | two {c : Char} (hc : c = 'b' ∨ c = 'B') : BaseMark 2 ['0', c]

/-- One or more digits of a base, with their positional value. -/
inductive BaseDigits (base : Nat) : Nat → Text → Prop
  | digits {ds : Text} {values : List Nat} (hne : ds ≠ [])
      (hvalues : ds.mapM (digitValue? base) = some values) :
      BaseDigits base (Nat.ofDigits base values.reverse) ds

/-- A numeric literal, or nothing. -/
inductive NumericLiteral : Text → Prop
  | empty : NumericLiteral []
  | infinity {negative : Bool} {sign : Text} (hsign : SignText negative sign) :
      NumericLiteral (sign ++ infinityName)
  | decimal {negative : Bool} {sign t : Text} {n : Numeral} (hsign : SignText negative sign)
      (ht : DecimalText n t) : NumericLiteral (sign ++ t)
  | based {base n : Nat} {mark ds : Text} (hmark : BaseMark base mark)
      (hds : BaseDigits base n ds) : NumericLiteral (mark ++ ds)

/-- A literal with a named base that does not fit into a word of 64 bits. -/
inductive Overlong : Text → Prop
  | based {base n : Nat} {mark ds : Text} (hmark : BaseMark base mark)
      (hds : BaseDigits base n ds) (hn : 2 ^ 64 ≤ n) : Overlong (mark ++ ds)

/-- A text that is no literal but is accepted as one: a decimal literal with two signs, or a
sign after the mark of a base. -/
inductive Tolerated : Text → Prop
  | twoSigns {negative negative' : Bool} {sign sign' t : Text} {n : Numeral}
      (hsign : SignText negative sign) (hsome : sign ≠ []) (hsign' : SignText negative' sign')
      (hsome' : sign' ≠ []) (ht : DecimalText n t) : Tolerated (sign ++ (sign' ++ t))
  | plusAfterMark {base n : Nat} {mark ds : Text} (hmark : BaseMark base mark)
      (hds : BaseDigits base n ds) (hn : n < 2 ^ 64) : Tolerated (mark ++ '+' :: ds)

/-! ## Signs -/

theorem takeSign_spec (t : Text) : ∃ sign, SignText (takeSign t).1 sign ∧
    t = sign ++ (takeSign t).2 := by
  unfold takeSign
  split
  · exact ⟨['-'], .minus, rfl⟩
  · exact ⟨['+'], .plus, rfl⟩
  · exact ⟨[], .none, rfl⟩

/-- A sign before a text that does not start with one. -/
theorem SignText.takeSign {negative : Bool} {sign : Text} (h : SignText negative sign) {t : Text}
    (ht : ∀ c ∈ t.head?, c ≠ '-' ∧ c ≠ '+') : takeSign (sign ++ t) = (negative, t) := by
  cases h with
  | none => exact takeSign_signed false ht
  | plus => rfl
  | minus => rfl

/-- A sign before any text, where there is one. -/
theorem SignText.takeSign_some {negative : Bool} {sign : Text} (h : SignText negative sign)
    (hne : sign ≠ []) (t : Text) : Number.takeSign (sign ++ t) = (negative, t) := by
  cases h with
  | none => exact absurd rfl hne
  | plus => rfl
  | minus => rfl

/-! ## Exponents -/

theorem takeExponent_cons (c : Char) (t : Text) :
    takeExponent (c :: t) =
      if c = 'e' ∨ c = 'E' then
        if (takeSign t).2.takeWhile isDigit = [] then (0, c :: t)
        else
          (signedInt (takeSign t).1 (readDigits ((takeSign t).2.takeWhile isDigit)),
            (takeSign t).2.dropWhile isDigit)
      else (0, c :: t) := by
  unfold takeExponent
  simp only [Bool.or_eq_true, decide_eq_true_iff]
  split
  · split
    · rfl
    · rfl
    · next hminus hplus =>
        have hsign : takeSign t = (false, t) := by
          apply takeSign_signed false
          intro d hd
          cases t with
          | nil => cases hd
          | cons d' t =>
              obtain rfl := Option.some.inj hd
              exact ⟨fun heq => hminus t (heq ▸ rfl), fun heq => hplus t (heq ▸ rfl)⟩
        rw [hsign]
        rfl
  · rfl

theorem takeExponent_spec (t : Text) : ∃ u, ExponentText (takeExponent t).1 u ∧
    t = u ++ (takeExponent t).2 := by
  cases t with
  | nil => exact ⟨[], .none, rfl⟩
  | cons c t =>
      rw [takeExponent_cons]
      split
      · next hc =>
          split
          · exact ⟨[], .none, rfl⟩
          · next hne =>
              obtain ⟨sign, hsign, ht⟩ := takeSign_spec t
              have hdigits : AllDigits ((takeSign t).2.takeWhile isDigit) :=
                fun _ => List.mem_takeWhile_imp
              refine ⟨_, .some hc hsign hdigits hne, ?_⟩
              rw [List.cons_append, List.append_assoc, List.takeWhile_append_dropWhile, ← ht]
      · exact ⟨[], .none, rfl⟩

theorem AllDigits.head_ne_sign {t : Text} (h : AllDigits t) :
    ∀ c ∈ t.head?, c ≠ '-' ∧ c ≠ '+' := by
  intro c hc
  have hdigit := h c (List.mem_of_mem_head? hc)
  constructor
  · rintro rfl
    cases hdigit
  · rintro rfl
    cases hdigit

theorem ExponentText.takeExponent {e : ℤ} {u : Text} (h : ExponentText e u) :
    takeExponent u = (e, []) := by
  cases h with
  | none => rfl
  | some hc hsign hds hne =>
      have hstop : ∀ c ∈ ([] : Text).head?, isDigit c = false := by
        rintro c ⟨⟩
      have htake := takeWhile_digits hds hstop
      have hdrop := dropWhile_digits hds hstop
      rw [List.append_nil] at htake hdrop
      rw [takeExponent_cons, if_pos hc, hsign.takeSign hds.head_ne_sign]
      dsimp only
      rw [htake, hdrop, if_neg hne]

/-- An exponent starts with neither a digit nor a point. -/
theorem ExponentText.head {e : ℤ} {u : Text} (h : ExponentText e u) :
    ∀ c ∈ u.head?, isDigit c = false ∧ c ≠ '.' := by
  cases h with
  | none =>
      rintro c ⟨⟩
  | some hc =>
      intro c hhead
      obtain rfl := Option.some.inj hhead
      rcases hc with rfl | rfl <;> decide

/-! ## Decimal literals -/

theorem takeNumeral?_spec {t rest : Text} {n : Numeral} (h : takeNumeral? t = some (n, rest)) :
    ∃ u, DecimalText n u ∧ t = u ++ rest := by
  have hwhole : AllDigits (t.takeWhile isDigit) := fun _ => List.mem_takeWhile_imp
  have hsplit := List.takeWhile_append_dropWhile (p := isDigit) (l := t)
  unfold takeNumeral? at h
  dsimp only at h
  split at h
  · next r hpoint =>
      rw [hpoint] at hsplit
      split at h
      -- no digit on either side of the point
      · next hnone =>
          rw [Bool.and_eq_true, decide_eq_true_iff] at hnone
          rw [if_pos (by rw [hnone.1]; rfl)] at h
          cases h
      split at h
      · cases h
      · next hsome =>
          obtain ⟨rfl, rfl⟩ := Prod.mk.inj (Option.some.inj h)
          obtain ⟨u, hexponent, hafter⟩ := takeExponent_spec (r.dropWhile isDigit)
          have hfraction : AllDigits (r.takeWhile isDigit) := fun _ => List.mem_takeWhile_imp
          rw [Bool.and_eq_true, decide_eq_true_iff, decide_eq_true_iff, not_and_or] at hsome
          refine ⟨_, .point hwhole hfraction hsome hexponent, ?_⟩
          rw [List.append_assoc, ← hafter, List.append_assoc, List.cons_append,
            List.takeWhile_append_dropWhile, hsplit]
  · split at h
    · cases h
    · next hsome =>
        obtain ⟨rfl, rfl⟩ := Prod.mk.inj (Option.some.inj h)
        obtain ⟨u, hexponent, hafter⟩ := takeExponent_spec (t.dropWhile isDigit)
        have hdigits : t.takeWhile isDigit ≠ [] := by
          intro hnil
          rw [hnil] at hsome
          exact hsome rfl
        refine ⟨_, .whole hwhole hdigits hexponent, ?_⟩
        rw [List.append_assoc, ← hafter, hsplit]

theorem takeNumeral?_fraction {fraction rest : Text} (hfraction : AllDigits fraction)
    (hne : fraction ≠ []) (hdigit : ∀ c ∈ rest.head?, isDigit c = false) :
    takeNumeral? ('.' :: fraction ++ rest) =
      some (⟨[], fraction, (takeExponent rest).1⟩, (takeExponent rest).2) := by
  have hhead : (fraction ++ rest).head?.any isDigit = true := by
    cases fraction with
    | nil => exact absurd rfl hne
    | cons c fraction => exact hfraction c List.mem_cons_self
  have htake := takeWhile_digits hfraction hdigit
  have hdrop := dropWhile_digits hfraction hdigit
  have hpoint : isDigit '.' = false := rfl
  unfold takeNumeral?
  simp [hpoint, hhead, htake, hdrop, hne, -List.head?_append]

theorem DecimalText.takeNumeral? {n : Numeral} {u : Text} (h : DecimalText n u) :
    takeNumeral? u = some (n, []) := by
  cases h with
  | whole hwhole hne hexponent =>
      rw [takeNumeral?_whole hwhole hne (fun c hc => (hexponent.head c hc).1)
        (fun c hc => (hexponent.head c hc).2), hexponent.takeExponent]
  | @point whole fraction _ _ hwhole hfraction hne hexponent =>
      have hdigit := fun c hc => (hexponent.head c hc).1
      by_cases hwholeNil : whole = []
      · subst hwholeNil
        have hsome := hne.resolve_left fun h => h rfl
        rw [List.nil_append, takeNumeral?_fraction hfraction hsome hdigit, hexponent.takeExponent]
      · rw [takeNumeral?_point hwhole hwholeNil hfraction hdigit, hexponent.takeExponent]

/-- **A text is a decimal literal exactly if it is read as one.** -/
theorem readNumeral?_eq_some_iff {t : Text} {x : Float} :
    readNumeral? t = some x ↔ ∃ n, DecimalText n t ∧ n.value = x := by
  unfold readNumeral?
  constructor
  · intro h
    split at h
    · next n hn =>
        obtain ⟨u, hu, rfl⟩ := takeNumeral?_spec hn
        rw [List.append_nil]
        exact ⟨n, hu, Option.some.inj h⟩
    · cases h
  · rintro ⟨n, hn, rfl⟩
    rw [hn.takeNumeral?]

theorem DecimalText.allDigits {n : Numeral} {t : Text} (h : DecimalText n t) :
    AllDigits n.whole ∧ AllDigits n.fraction := by
  cases h with
  | whole hwhole => exact ⟨hwhole, fun _ hc => absurd hc List.not_mem_nil⟩
  | point hwhole hfraction => exact ⟨hwhole, hfraction⟩

/-- A decimal literal starts with no sign. -/
theorem DecimalText.head_ne_sign {n : Numeral} {t : Text} (h : DecimalText n t) :
    ∀ c ∈ t.head?, c ≠ '-' ∧ c ≠ '+' := by
  intro c hc
  cases t with
  | nil => cases hc
  | cons c' t =>
      obtain rfl := Option.some.inj hc
      have hread := h.takeNumeral?
      constructor
      · rintro rfl
        cases hread
      · rintro rfl
        cases hread

/-! ## Literals with a named base -/

theorem namedBase?_eq_some_iff {t rest : Text} {base : Nat} :
    namedBase? t = some (base, rest) ↔ ∃ mark, BaseMark base mark ∧ t = mark ++ rest := by
  constructor
  · intro h
    unfold namedBase? at h
    split at h
    · cases h
      exact ⟨_, .sixteen (.inl rfl), rfl⟩
    · cases h
      exact ⟨_, .sixteen (.inr rfl), rfl⟩
    · cases h
      exact ⟨_, .eight (.inl rfl), rfl⟩
    · cases h
      exact ⟨_, .eight (.inr rfl), rfl⟩
    · cases h
      exact ⟨_, .two (.inl rfl), rfl⟩
    · cases h
      exact ⟨_, .two (.inr rfl), rfl⟩
    · cases h
  · rintro ⟨mark, hmark, rfl⟩
    cases hmark with
    | sixteen hc => rcases hc with rfl | rfl <;> rfl
    | eight hc => rcases hc with rfl | rfl <;> rfl
    | two hc => rcases hc with rfl | rfl <;> rfl

/-- The mark of a base is no decimal literal: a numeral ends before its second character. -/
theorem BaseMark.not_decimal {base : Nat} {mark : Text} (h : BaseMark base mark) (rest : Text)
    (n : Numeral) : ¬ DecimalText n (mark ++ rest) := by
  intro hn
  have hread := hn.takeNumeral?
  cases h with
  | sixteen hc => rcases hc with rfl | rfl <;> cases hread
  | eight hc => rcases hc with rfl | rfl <;> cases hread
  | two hc => rcases hc with rfl | rfl <;> cases hread

theorem BaseDigits.unique {base m n : Nat} {ds : Text} (hm : BaseDigits base m ds)
    (hn : BaseDigits base n ds) : m = n := by
  cases hm with
  | digits _ hvalues =>
      cases hn with
      | digits _ hvalues' => rw [Option.some.inj (hvalues.symm.trans hvalues')]

theorem digitValue?_plus (base : Nat) : digitValue? base '+' = none :=
  if_neg (Nat.lt_irrefl base)

theorem baseDigits_iff {base n : Nat} {ds : Text} :
    BaseDigits base n ds ↔
      ds ≠ [] ∧ ∃ values, ds.mapM (digitValue? base) = some values ∧ ofDigits base values = n := by
  constructor
  · rintro ⟨hne, hvalues⟩
    exact ⟨hne, _, hvalues, ofDigits_eq base _⟩
  · rintro ⟨hne, values, hvalues, rfl⟩
    rw [ofDigits_eq]
    exact .digits hne hvalues

theorem not_baseDigits_plus {base n : Nat} {ds : Text} : ¬ BaseDigits base n ('+' :: ds) := by
  rw [baseDigits_iff]
  rintro ⟨-, values, hvalues, -⟩
  rw [List.mapM_cons, digitValue?_plus] at hvalues
  cases hvalues

/-- The number of a word that some characters denote. -/
theorem readWord_eq_some_iff {base n : Nat} {ds : Text} :
    (if ds = [] then none
      else
        match ds.mapM (digitValue? base) with
        | some values =>
            if ofDigits base values ≤ wordLimit then some (ofDigits base values) else none
        | none => none) = some n ↔ BaseDigits base n ds ∧ n < 2 ^ 64 := by
  have hlimit : wordLimit = 2 ^ 64 - 1 := rfl
  rw [baseDigits_iff]
  split
  · next hnil => simp [hnil]
  next hne =>
  cases hvalues : ds.mapM (digitValue? base) with
  | none => simp
  | some values =>
      dsimp only
      split
      · next hle =>
          constructor
          · intro h
            obtain rfl := Option.some.inj h
            exact ⟨⟨hne, values, rfl, rfl⟩, by omega⟩
          · rintro ⟨⟨-, _, hsame, rfl⟩, -⟩
            rw [Option.some.inj hsame]
      · next hgreat =>
          constructor
          · intro h
            cases h
          · rintro ⟨⟨-, _, hsame, rfl⟩, hlt⟩
            rw [← Option.some.inj hsame] at hlt
            omega

/-- What is read in a base are its digits, after a plus sign or without one. -/
theorem readNat?_eq_some_iff {base n : Nat} {t : Text} :
    readNat? base t = some n ↔
      (BaseDigits base n t ∨ ∃ ds, t = '+' :: ds ∧ BaseDigits base n ds) ∧ n < 2 ^ 64 := by
  unfold readNat?
  dsimp only
  split
  · next ds =>
      refine readWord_eq_some_iff.trans (and_congr_left fun _ => ?_)
      constructor
      · intro h
        exact .inr ⟨ds, rfl, h⟩
      · rintro (h | ⟨_, heq, h⟩)
        · exact absurd h not_baseDigits_plus
        · rwa [(List.cons.inj heq).2]
  · next hplus =>
      refine readWord_eq_some_iff.trans (and_congr_left fun _ => ?_)
      constructor
      · exact .inl
      · rintro (h | ⟨ds, heq, -⟩)
        · exact h
        · exact absurd heq (hplus ds)

/-! ## Whole texts -/

theorem isNaN_nan : isNaN nan = true := by decide +kernel

theorem isNaN_infinity (negative : Bool) : isNaN (infinity negative) = false := by
  rw [isNaN, parts_infinity]
  rfl

section Trimmed

variable {s : Text}

theorem ofText_empty (h : Text.trim s = []) : ofText s = ofNat 0 := by
  unfold ofText
  dsimp only
  rw [h, if_pos rfl]

theorem ofText_infinity {negative : Bool} {sign : Text} (hsign : SignText negative sign)
    (h : Text.trim s = sign ++ infinityName) : ofText s = infinity negative := by
  have htake : takeSign (sign ++ infinityName) = (negative, infinityName) := by
    apply hsign.takeSign
    have hhead : infinityName.head? = some 'I' := rfl
    rw [hhead]
    rintro c ⟨⟩
    decide
  have hne : sign ++ infinityName ≠ [] := List.append_ne_nil_of_right_ne_nil _ (by decide)
  unfold ofText
  dsimp only
  rw [h, if_neg hne, htake]
  dsimp only
  rw [if_pos rfl]

theorem ofText_based {base : Nat} {mark rest : Text} (hmark : BaseMark base mark)
    (h : Text.trim s = mark ++ rest) : ofText s = ((readNat? base rest).map ofNat).getD nan := by
  have hnamed : namedBase? (mark ++ rest) = some (base, rest) :=
    namedBase?_eq_some_iff.2 ⟨mark, hmark, rfl⟩
  have htake : ∀ c, takeSign ('0' :: c :: rest) = (false, '0' :: c :: rest) := fun _ => rfl
  have hne : ∀ c, '0' :: c :: rest ≠ infinityName := by
    intro c heq
    exact absurd (List.cons.inj heq).1 (by decide)
  obtain ⟨c, hc⟩ : ∃ c, mark = ['0', c] := by cases hmark <;> exact ⟨_, rfl⟩
  subst hc
  rw [List.cons_append, List.cons_append, List.nil_append] at h hnamed
  unfold ofText
  dsimp only
  rw [h, if_neg (List.cons_ne_nil _ _), htake]
  dsimp only
  rw [if_neg (hne c), hnamed]
  dsimp only
  cases readNat? base rest <;> rfl

theorem ofText_signed {t rest : Text} {negative : Bool} {x : Float} (h : Text.trim s = t)
    (hsign : takeSign t = (negative, rest)) (hnamed : namedBase? t = none)
    (hread : readSigned? rest = some x) : ofText s = negateIf negative x := by
  have hne : t ≠ [] := by
    rintro rfl
    obtain ⟨-, rfl⟩ := Prod.mk.inj hsign
    cases hread
  have hinfinity : rest ≠ infinityName := by
    rintro rfl
    cases hread
  unfold ofText
  dsimp only
  rw [h, if_neg hne, hsign]
  dsimp only
  rw [if_neg hinfinity, hnamed]
  dsimp only
  rw [hread]

section Decimal

variable {negative negative' : Bool} {sign sign' t : Text} {n : Numeral}
  (hsign : SignText negative sign) (hsign' : SignText negative' sign') (ht : DecimalText n t)

include hsign' ht in
theorem readSigned?_decimal : readSigned? (sign' ++ t) = some (negateIf negative' n.value) := by
  rw [readSigned?, hsign'.takeSign ht.head_ne_sign]
  dsimp only
  rw [readNumeral?_eq_some_iff.2 ⟨n, ht, rfl⟩]
  rfl

include hsign hsign' ht

theorem namedBase?_decimal : namedBase? (sign ++ (sign' ++ t)) = none := by
  cases hsign with
  | plus => rfl
  | minus => rfl
  | none =>
      cases hsign' with
      | plus => rfl
      | minus => rfl
      | none =>
          cases hnamed : namedBase? t with
          | none => exact hnamed
          | some p =>
              obtain ⟨mark, hmark, rfl⟩ := namedBase?_eq_some_iff.1 hnamed
              exact absurd ht (hmark.not_decimal p.2 n)

/-- Two optional signs before a decimal literal. -/
theorem ofText_decimal (h : Text.trim s = sign ++ (sign' ++ t)) :
    ofText s = negateIf negative (negateIf negative' n.value) := by
  have hnamed := namedBase?_decimal hsign hsign' ht
  by_cases hnone : sign = []
  · subst hnone
    cases hsign
    have hread : readSigned? t = some (negateIf false n.value) := readSigned?_decimal .none ht
    have hone : ofText s = negateIf negative' (negateIf false n.value) :=
      ofText_signed h (hsign'.takeSign ht.head_ne_sign) hnamed hread
    exact hone
  · exact ofText_signed h (hsign.takeSign_some hnone _) hnamed (readSigned?_decimal hsign' ht)

/-- **A decimal literal is rounded correctly**, after one sign or two. -/
theorem roundsTo_ofText (h : Text.trim s = sign ++ (sign' ++ t)) :
    RoundsTo (negative ^^ negative') n.decimal.value (ofText s) := by
  have hvalue := (roundsTo_value ht.allDigits.1 ht.allDigits.2).negateIf negative'
  rw [Bool.xor_false] at hvalue
  rw [ofText_decimal hsign hsign' ht h]
  exact hvalue.negateIf negative

end Decimal

/-- A text that is converted to a number is of one of these forms. -/
theorem ofText_cases (h : isNaN (ofText s) = false) :
    Text.trim s = [] ∨
      (∃ negative sign, SignText negative sign ∧ Text.trim s = sign ++ infinityName) ∨
      (∃ base mark rest n, BaseMark base mark ∧ Text.trim s = mark ++ rest ∧
        readNat? base rest = some n) ∨
      ∃ negative negative' sign sign' t n, SignText negative sign ∧ SignText negative' sign' ∧
        DecimalText n t ∧ Text.trim s = sign ++ (sign' ++ t) := by
  by_cases hempty : Text.trim s = []
  · exact .inl hempty
  obtain ⟨sign, hsign, ht⟩ := takeSign_spec (Text.trim s)
  cases htake : takeSign (Text.trim s) with
  | mk negative rest =>
  rw [htake] at hsign ht
  dsimp only at hsign ht
  by_cases hinfinity : rest = infinityName
  · rw [hinfinity] at ht
    exact .inr (.inl ⟨negative, sign, hsign, ht⟩)
  cases hnamed : namedBase? (Text.trim s) with
  | some p =>
      obtain ⟨mark, hmark, hsplit⟩ := namedBase?_eq_some_iff.1 hnamed
      rw [ofText_based hmark hsplit] at h
      cases hread : readNat? p.1 p.2 with
      | some n => exact .inr (.inr (.inl ⟨p.1, mark, p.2, n, hmark, hsplit, hread⟩))
      | none =>
          rw [hread] at h
          exact absurd (isNaN_nan.symm.trans h) (by decide)
  | none =>
      cases hread : readSigned? rest with
      | some x =>
          obtain ⟨sign', hsign', ht'⟩ := takeSign_spec rest
          rw [readSigned?, Option.map_eq_some_iff] at hread
          obtain ⟨y, hy, -⟩ := hread
          obtain ⟨n, hn, -⟩ := readNumeral?_eq_some_iff.1 hy
          rw [ht'] at ht
          exact .inr (.inr (.inr ⟨negative, _, sign, sign', _, n, hsign, hsign', hn, ht⟩))
      | none =>
          have hnan : ofText s = nan := by
            unfold ofText
            dsimp only
            rw [if_neg hempty, htake]
            dsimp only
            rw [if_neg hinfinity, hnamed]
            dsimp only
            rw [hread]
          rw [hnan] at h
          exact absurd (isNaN_nan.symm.trans h) (by decide)

/-- A literal with a named base that does not fit into a word is not accepted. -/
theorem Overlong.isNaN_ofText (h : Overlong (Text.trim s)) : isNaN (ofText s) = true := by
  generalize htrim : Text.trim s = t at h
  cases h with
  | @based base n mark ds hmark hds hn =>
      have hread : readNat? base ds = none := by
        cases hread : readNat? base ds with
        | none => rfl
        | some m =>
            obtain ⟨hdigits | ⟨_, rfl, -⟩, hm⟩ := readNat?_eq_some_iff.1 hread
            · rw [hdigits.unique hds] at hm
              omega
            · exact absurd hds not_baseDigits_plus
      rw [ofText_based hmark htrim, hread]
      exact isNaN_nan

end Trimmed

/-- **Which texts are converted to a number**, blanks around them apart: the numeric literals,
but those with a named base only up to 64 bits; and besides them decimal literals with two
signs, and a plus sign after the mark of a base. A decimal literal is rounded correctly. -/
theorem ofText_not_nan_iff (s : Text) :
    (isNaN (ofText s) = false ↔
      (NumericLiteral (Text.trim s) ∧ ¬ Overlong (Text.trim s)) ∨ Tolerated (Text.trim s)) ∧
    ∀ (negative negative' : Bool) (sign sign' t : Text) (n : Numeral),
      SignText negative sign → SignText negative' sign' → DecimalText n t →
      Text.trim s = sign ++ (sign' ++ t) →
      RoundsTo (negative ^^ negative') n.decimal.value (ofText s) := by
  refine ⟨⟨fun h => ?_, ?_⟩, fun _ _ _ _ _ _ => roundsTo_ofText⟩
  · have hfits : ¬ Overlong (Text.trim s) := by
      intro hlong
      rw [hlong.isNaN_ofText] at h
      cases h
    have hliteral : NumericLiteral (Text.trim s) →
        (NumericLiteral (Text.trim s) ∧ ¬ Overlong (Text.trim s)) ∨ Tolerated (Text.trim s) :=
      fun h => .inl ⟨h, hfits⟩
    rcases ofText_cases h with hempty | ⟨negative, sign, hsign, ht⟩ |
      ⟨base, mark, rest, n, hmark, ht, hread⟩ |
      ⟨negative, negative', sign, sign', t, n, hsign, hsign', hn, ht⟩
    · exact hliteral (hempty ▸ .empty)
    · exact hliteral (ht ▸ .infinity hsign)
    · obtain ⟨hdigits | ⟨ds, rfl, hdigits⟩, hm⟩ := readNat?_eq_some_iff.1 hread
      · exact hliteral (ht ▸ .based hmark hdigits)
      · exact .inr (ht ▸ .plusAfterMark hmark hdigits hm)
    · by_cases hfirst : sign = []
      · subst hfirst
        rw [List.nil_append] at ht
        exact hliteral (ht ▸ .decimal hsign' hn)
      by_cases hsecond : sign' = []
      · subst hsecond
        rw [List.nil_append] at ht
        exact hliteral (ht ▸ .decimal hsign hn)
      · exact .inr (ht ▸ .twoSigns hsign hfirst hsign' hsecond hn)
  · generalize htrim : Text.trim s = t
    rintro (⟨hliteral, hfits⟩ | htolerated)
    · cases hliteral with
      | empty =>
          rw [ofText_empty htrim]
          exact (roundsTo_ofNat 0).not_nan
      | infinity hsign =>
          rw [ofText_infinity hsign htrim]
          exact isNaN_infinity _
      | decimal hsign ht => exact (roundsTo_ofText hsign .none ht htrim).not_nan
      | @based base n mark ds hmark hds =>
          have hn : n < 2 ^ 64 := by
            by_contra hlong
            exact hfits (.based hmark hds (not_lt.1 hlong))
          rw [ofText_based hmark htrim, readNat?_eq_some_iff.2 ⟨.inl hds, hn⟩]
          exact (roundsTo_ofNat n).not_nan
    · cases htolerated with
      | twoSigns hsign _ hsign' _ ht => exact (roundsTo_ofText hsign hsign' ht htrim).not_nan
      | @plusAfterMark base n mark ds hmark hds hn =>
          rw [ofText_based hmark htrim, readNat?_eq_some_iff.2 ⟨.inr ⟨ds, rfl, hds⟩, hn⟩]
          exact (roundsTo_ofNat n).not_nan

theorem ofText_not_nan_iff_negative :
    isNaN (ofText "-1.5e3".toList) = false ∧ RoundsTo true 1500 (ofText "-1.5e3".toList) := by
  have hdigits : ∀ t : Text, t.all isDigit = true → AllDigits t := fun _ => List.all_eq_true.1
  have hliteral : DecimalText ⟨['1'], ['5'], 3⟩ "1.5e3".toList :=
    .point (hdigits ['1'] rfl) (hdigits ['5'] rfl) (.inl (List.cons_ne_nil _ _))
      (.some (.inl rfl) .none (hdigits ['3'] rfl) (List.cons_ne_nil _ _))
  have hround := (ofText_not_nan_iff "-1.5e3".toList).2 true false ['-'] [] _ _ .minus .none
    hliteral (by decide)
  have hvalue : (Numeral.decimal ⟨['1'], ['5'], 3⟩).value = 1500 := by
    have hread : readDigits ['1', '5'] = 15 := by decide
    rw [Numeral.value_decimal, List.singleton_append, hread]
    norm_num
  rw [hvalue] at hround
  exact ⟨hround.not_nan, hround⟩

/-- Not only literals are accepted. -/
theorem ofText_accepts_more :
    ¬ ∀ s : Text, isNaN (ofText s) = false ↔ NumericLiteral (Text.trim s) := by
  intro hclaim
  have hread : isNaN (ofText "--5".toList) = false := by decide +kernel
  have htrim : Text.trim "--5".toList = ['-', '-', '5'] := by decide
  have hliteral := (hclaim _).1 hread
  rw [htrim] at hliteral
  generalize ht : ['-', '-', '5'] = t at hliteral
  cases hliteral with
  | empty => cases ht
  | infinity hsign => cases hsign <;> cases ht
  | decimal hsign hn =>
      cases hsign with
      | none =>
          subst ht
          cases hn.takeNumeral?
      | plus => cases ht
      | minus =>
          obtain rfl := (List.cons.inj ht).2
          cases hn.takeNumeral?
  | based hmark hds => cases hmark <;> cases ht

end Stencil.Number
