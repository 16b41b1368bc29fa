import Stencil.Proofs.Markup.Delimited

/-!
# What the brace scanner finds

`unescapedCount` counts a character where it is not escaped. A text is `Matched` if no
prefix of it has more closing delimiters than opening ones, and it has as many of both. The
text of a region is balanced, and nothing else is: `braceShape` is that in the words of
`RegionShape`, and `describes_iff_scanBraces` says that the scan gives the one description of
its text. The depth that the machine counts is what the text of the open region has too many
of the opening delimiter (`depth_of_phaseAfter`), so there is always a pair to leave.
-/

namespace Stencil.Markup

variable {opening closing : Char} {escaped : Bool} {s t body : Text}

/-! ## Counting -/

/-- How often the character stands in the text and is not escaped. -/
def unescapedCount (d : Char) (escaped : Bool) (t : Text) : Nat :=
  (marked escaped t).count (d, false)

@[simp] theorem unescapedCount_nil (d : Char) (escaped : Bool) :
    unescapedCount d escaped [] = 0 := rfl

theorem unescapedCount_cons (d c : Char) (escaped : Bool) (t : Text) :
    unescapedCount d escaped (c :: t) =
      unescapedCount d (pendingAfter escaped c) t + if c = d ∧ escaped = false then 1 else 0 := by
  simp [unescapedCount, marked, List.count_cons]

theorem unescapedCount_append (d : Char) (escaped : Bool) (s t : Text) :
    unescapedCount d escaped (s ++ t) =
      unescapedCount d escaped s + unescapedCount d (pending escaped s) t := by
  induction s generalizing escaped with
  | nil => simp [pending]
  | cons c s ih =>
      rw [List.cons_append, unescapedCount_cons, unescapedCount_cons, ih, pending]
      omega

theorem unescapedCount_snoc (d c : Char) (escaped : Bool) (t : Text) :
    unescapedCount d escaped (t ++ [c]) =
      unescapedCount d escaped t + if c = d ∧ pending escaped t = false then 1 else 0 := by
  rw [unescapedCount_append, unescapedCount_cons, unescapedCount_nil, Nat.zero_add]

/-- No prefix closes more than it opens, and the whole closes as much as it opens. -/
structure Matched (opening closing : Char) (t : Text) : Prop where
  prefixes : ∀ u, u <+: t → unescapedCount closing false u ≤ unescapedCount opening false u
  whole : unescapedCount opening false t = unescapedCount closing false t

/-- A text that closes more than it opens has a balanced text in front of a closing
delimiter. -/
theorem exists_matched {u : Text} (hu : u <+: t)
    (h : unescapedCount opening false u < unescapedCount closing false u) :
    ∃ body after, t = body ++ closing :: after ∧ pending false body = false ∧
      Matched opening closing body := by
  induction hn : u.length using Nat.strong_induction_on generalizing u with
  | _ n ih =>
      subst hn
      by_cases hshorter : ∃ v, v <+: t ∧ v.length < u.length ∧
          unescapedCount opening false v < unescapedCount closing false v
      · obtain ⟨v, hv, hlength, hlt⟩ := hshorter
        exact ih _ hlength hv hlt rfl
      -- the shortest such prefix ends in the delimiter that is too much
      · rcases List.eq_nil_or_concat u with rfl | ⟨body, c, rfl⟩
        · exact absurd h (by simp)
        · rw [List.concat_eq_append] at hu h hshorter
          have prefixes : ∀ v, v <+: body →
              unescapedCount closing false v ≤ unescapedCount opening false v := by
            intro v hv
            by_contra hlt
            refine hshorter ⟨v, hv.trans ((List.prefix_append body [c]).trans hu), ?_,
              not_le.1 hlt⟩
            have := hv.length_le
            rw [List.length_append, List.length_singleton]
            omega
          have hbody := prefixes body List.prefix_rfl
          rw [unescapedCount_snoc, unescapedCount_snoc] at h
          by_cases hc : c = closing ∧ pending false body = false
          · rw [if_pos hc] at h
            obtain ⟨rfl, hpend⟩ := hc
            obtain ⟨after, rfl⟩ := hu
            refine ⟨body, after, by simp, hpend, prefixes, ?_⟩
            omega
          · rw [if_neg hc] at h
            omega

/-! ## The shape of a brace region -/

/-- What the brace scanner takes for a region. -/
def braceShape (opening closing : Char) : RegionShape where
  Opens t := t.head? = some opening
  enclose text := opening :: (text ++ [closing])
  Whole text _ := pending false text = false ∧ Matched opening closing text
  Unclosed t := ∀ u, u <+: t.tail →
    unescapedCount closing false u ≤ unescapedCount opening false u

instance : DecidablePred (braceShape opening closing).Opens :=
  fun t => inferInstanceAs (Decidable (t.head? = some opening))

/-- The scan inside a region counts the pairs that are open. -/
theorem scanBracesFrom_counting (hne : opening ≠ closing) {depth depth' : Nat}
    (hprefixes : ∀ u, u <+: s →
      unescapedCount closing escaped u ≤ unescapedCount opening escaped u + depth)
    (hdepth : unescapedCount closing escaped s + depth' =
      unescapedCount opening escaped s + depth) (offset : Nat) (gap : Text) (start : Nat)
    (body rest : Text) :
    scanBracesFrom opening closing escaped offset (.inside gap start depth body) (s ++ rest) =
      scanBracesFrom opening closing (pending escaped s) (offset + Text.byteLength s)
        (.inside gap start depth' (s.reverse ++ body)) rest := by
  induction s generalizing escaped offset depth body with
  | nil =>
      obtain rfl : depth' = depth := by simpa using hdepth
      rfl
  | cons c s ih =>
      have hprefix : ∀ u, u <+: s → unescapedCount closing escaped (c :: u) ≤
          unescapedCount opening escaped (c :: u) + depth :=
        fun u hu => hprefixes _ ((List.prefix_cons_inj c).2 hu)
      simp only [unescapedCount_cons] at hprefix hdepth
      -- the depth behind this character, at which the induction goes on
      suffices ∃ depth₁, (if escaped then ((BracePhase.inside gap start depth body).keep c, none)
            else (BracePhase.inside gap start depth body).step opening closing offset c) =
              (.inside gap start depth₁ (c :: body), none) ∧
          (depth₁ + if c = closing ∧ escaped = false then 1 else 0) =
            depth + if c = opening ∧ escaped = false then 1 else 0 by
        obtain ⟨depth₁, hstep, hcount⟩ := this
        have hprefixes₁ : ∀ u, u <+: s → unescapedCount closing (pendingAfter escaped c) u ≤
            unescapedCount opening (pendingAfter escaped c) u + depth₁ := by
          intro u hu
          have := hprefix u hu
          omega
        have hrest := ih hprefixes₁ (by omega) (offset + c.utf8Size) (c :: body)
        rw [List.cons_append, scanBracesFrom, hstep]
        simpa [Scan.consOption, pending, Nat.add_assoc] using hrest
      cases escaped with
      | true => exact ⟨depth, rfl, by simp⟩
      | false =>
          by_cases ho : c = opening
          · subst ho
            exact ⟨depth + 1, by simp [BracePhase.step], by simp [hne]⟩
          by_cases hc : c = closing
          · subst hc
            have hpos := hprefix [] List.nil_prefix
            cases depth with
            | zero => simp [ho] at hpos
            | succ depth => exact ⟨depth, by simp [BracePhase.step, ho], by simp [ho]⟩
          · exact ⟨depth, by simp [BracePhase.step, ho, hc], by simp [ho, hc]⟩

section

variable (hne : opening ≠ closing) (ho : opening ≠ '\\') (hc : closing ≠ '\\')

include hne ho in
/-- Behind a gap without an opening the scan is inside a region, as deep as the text has
opened more than it has closed. -/
theorem scanBracesFrom_opened {gap : Text} {depth : Nat}
    (hgap : Free opening false gap) (hpend : pending false gap = false)
    (hprefixes : ∀ u, u <+: s →
      unescapedCount closing false u ≤ unescapedCount opening false u)
    (hdepth : unescapedCount closing false s + depth = unescapedCount opening false s)
    (base : Nat) (rest : Text) :
    scanBracesFrom opening closing false base (.outside []) (gap ++ opening :: (s ++ rest)) =
      scanBracesFrom opening closing (pending false s)
        (base + Text.byteLength gap + opening.utf8Size + Text.byteLength s)
        (.inside gap.reverse (base + Text.byteLength gap) depth s.reverse) rest := by
  have opens : ∀ offset rest, scanBracesFrom opening closing false offset
      (.outside (gap.reverse ++ [])) (opening :: rest) =
        scanBracesFrom opening closing false (offset + opening.utf8Size)
          (.inside gap.reverse offset 0 []) rest := by
    intro offset rest
    simp [scanBracesFrom, BracePhase.step, Scan.consOption, ho]
  have hprefixes₀ : ∀ u, u <+: s →
      unescapedCount closing false u ≤ unescapedCount opening false u + 0 := hprefixes
  rw [scanBracesFrom_keeping hgap, hpend, opens, scanBracesFrom_counting hne hprefixes₀ hdepth,
    List.append_nil]

include hne ho hc in
theorem scannedBy_braces : (braceShape opening closing).ScannedBy fun base t =>
    scanBracesFrom opening closing false base (.outside []) t where
  quiet {base t} silent := by
    have hscan := scanBracesFrom_keeping (free_of_quiet silent) closing base [] []
    rw [List.append_nil] at hscan
    rw [hscan]
    simp [scanBracesFrom, BracePhase.finish]
  unclosed {base gap rest c} silent unescaped opens unclosed := by
    obtain rfl : c = opening := Option.some.inj opens
    obtain ⟨depth, hdepth⟩ := Nat.exists_eq_add_of_le (unclosed rest List.prefix_rfl)
    have hprefixes : ∀ u, u <+: rest →
        unescapedCount closing false u ≤ unescapedCount c false u := unclosed
    have hscan := scanBracesFrom_opened hne ho (free_of_quiet silent) unescaped
      hprefixes hdepth.symm base []
    rw [List.append_nil] at hscan
    rw [hscan]
    simp [scanBracesFrom, BracePhase.finish]
  region {base gap text rest} silent unescaped whole := by
    obtain ⟨hpend, hmatched⟩ := whole
    have hdepth : unescapedCount closing false text + 0 = unescapedCount opening false text :=
      hmatched.whole.symm
    have hscan := scanBracesFrom_opened hne ho (free_of_quiet silent) unescaped
      hmatched.prefixes hdepth base (closing :: rest)
    have closes : ∀ offset start, scanBracesFrom opening closing false offset
        (.inside gap.reverse start 0 text.reverse) (closing :: rest) =
          (scanBracesFrom opening closing false (offset + closing.utf8Size) (.outside [])
            rest).cons ⟨gap, text, ⟨start, offset + closing.utf8Size⟩⟩ := by
      intro offset start
      simp [scanBracesFrom, BracePhase.step, Scan.consOption, Ne.symm hne, hc]
    rw [hpend, closes] at hscan
    simpa [braceShape, Nat.add_assoc] using hscan

include hne ho hc in
theorem lawful_braces : (braceShape opening closing).Lawful where
  closed {text after} _ := by
    have henclose : (braceShape opening closing).enclose text = opening :: text ++ [closing] := rfl
    rw [henclose, pending_snoc_of_ne hc]
  opens _ := rfl
  nonempty _ := List.cons_ne_nil _ _
  unique := (scannedBy_braces hne ho hc).unique
  not_unclosed {text after} whole unclosed := by
    have hprefix : text ++ [closing] <+:
        ((braceShape opening closing).enclose text ++ after).tail :=
      List.prefix_append _ after
    have hle := unclosed _ hprefix
    have hwhole := whole.2.whole
    rw [unescapedCount_snoc, unescapedCount_snoc, if_pos ⟨rfl, whole.1⟩,
      if_neg fun h => hne h.1.symm] at hle
    omega
  closes {t} opens hclosed := by
    obtain ⟨rest, rfl⟩ := List.head?_eq_some_iff.1 opens
    have hex : ∃ u, u <+: rest ∧
        unescapedCount opening false u < unescapedCount closing false u := by
      by_contra hno
      exact hclosed fun u hu => not_lt.1 fun hlt => hno ⟨u, hu, hlt⟩
    obtain ⟨u, hu, hlt⟩ := hex
    obtain ⟨body, after, rfl, hpend, hmatched⟩ := exists_matched hu hlt
    exact ⟨body, after, by simp [braceShape], hpend, hmatched⟩

end

/-! ## The depth -/

namespace BracePhase

/-- The depth is what the text of the open region opens more than it closes. -/
def Counted (opening closing : Char) (escaped : Bool) : BracePhase → Prop
  | outside _ => True
  | inside _ _ depth body =>
      pending false body.reverse = escaped ∧
        unescapedCount opening false body.reverse =
          unescapedCount closing false body.reverse + depth

theorem counted_keep {c : Char} {p : BracePhase} (h : p.Counted opening closing true) :
    (p.keep c).Counted opening closing false := by
  cases p with
  | outside gap => trivial
  | inside gap start depth body =>
      obtain ⟨hpend, hcount⟩ := h
      refine ⟨?_, ?_⟩
      · rw [List.reverse_cons, pending_append, hpend]
        rfl
      · rw [List.reverse_cons, unescapedCount_snoc, unescapedCount_snoc, hpend]
        simpa using hcount

theorem counted_step (hne : opening ≠ closing) (ho : opening ≠ '\\') {c : Char} {p : BracePhase}
    (h : p.Counted opening closing false) (offset : Nat) :
    (p.step opening closing offset c).1.Counted opening closing (pendingAfter false c) := by
  cases p with
  | outside gap =>
      by_cases hc : c = opening
      · subst hc
        simp [step, Counted, pending, ho]
      · simp [step, Counted, hc]
  | inside gap start depth body =>
      obtain ⟨hpend, hcount⟩ := h
      have hpend' : pending false (c :: body).reverse = pendingAfter false c := by
        rw [List.reverse_cons, pending_append, hpend]
        rfl
      have hsnoc : ∀ d, unescapedCount d false (c :: body).reverse =
          unescapedCount d false body.reverse + if c = d then 1 else 0 := by
        intro d
        rw [List.reverse_cons, unescapedCount_snoc, hpend]
        simp
      by_cases hco : c = opening
      · subst hco
        simp only [step, if_true, Counted, hpend', hsnoc, if_neg hne]
        exact ⟨trivial, by omega⟩
      by_cases hcc : c = closing
      · subst hcc
        cases depth with
        | zero => simp [step, Counted, hco]
        | succ depth =>
            simp only [step, if_neg hco, if_true, Counted, hpend', hsnoc]
            exact ⟨trivial, by omega⟩
      · simp only [step, if_neg hco, if_neg hcc, Counted, hpend', hsnoc]
        exact ⟨trivial, by omega⟩

end BracePhase

/-- In every phase that a scan reaches, the depth is what the text of the open region opens
more than it closes. -/
theorem depth_of_phaseAfter (hne : opening ≠ closing) (ho : opening ≠ '\\') (hc : closing ≠ '\\')
    {s rest gap body : Text} {start depth : Nat}
    (h : (braceScanner opening hc).phaseAfter false 0 (.outside []) rest s =
      .inside gap start depth body) :
    unescapedCount opening false body.reverse =
      unescapedCount closing false body.reverse + depth := by
  have hstart : (BracePhase.outside []).Counted opening closing false := trivial
  have hcounted : BracePhase.Counted opening closing (pending false s)
      ((braceScanner opening hc).phaseAfter false 0 (.outside []) rest s) :=
    (braceScanner opening hc).phaseAfter_induction
      (motive := fun escaped p => p.Counted opening closing escaped)
      (fun _ _ => BracePhase.counted_keep)
      (fun offset _ _ _ h => BracePhase.counted_step hne ho h offset) hstart 0 s rest
  rw [h] at hcounted
  exact hcounted.2

/-! ## The scan -/

/-- **The brace scanner gives the one description of its text.** Its regions are in order,
open and close at unescaped delimiters and are balanced, no opening before the byte where one
stays open is outside of them, and that byte is the first one that nothing closes, with no
region behind it; whatever is so is what the scan gives. The depth of an open region is never
less than zero: it is what the region has opened more than it has closed. -/
theorem describes_iff_scanBraces (hne : opening ≠ closing) (ho : opening ≠ '\\')
    (hc : closing ≠ '\\') (t : Text) :
    (∀ found unterminated,
      (braceShape opening closing).Describes 0 t found unterminated ↔
        found = (scanBraces opening closing t).found ∧
          unterminated = (scanBraces opening closing t).unterminated) ∧
      ∀ s rest gap start depth body, t = s ++ rest →
        (braceScanner opening hc).phaseAfter false 0 (.outside []) rest s =
          .inside gap start depth body →
        unescapedCount opening false body.reverse =
          unescapedCount closing false body.reverse + depth := by
  refine ⟨?_, ?_⟩
  · exact (scannedBy_braces hne ho hc).describes_iff (lawful_braces hne ho hc) 0 t
  · intro s rest gap start depth body _ hphase
    exact depth_of_phaseAfter hne ho hc hphase

/-- A region, and an opening that nothing closes; two pairs are open in the middle. -/
theorem describes_braces_around :
    ('(' ≠ ')' ∧ '(' ≠ '\\' ∧ ')' ≠ '\\') ∧
      (braceShape '(' ')').Describes 0 "a(b(c))(".toList [("b(c)".toList, ⟨1, 7⟩)] (some 7) ∧
      (braceScanner '(' (show ')' ≠ '\\' by decide)).phaseAfter false 0 (.outside []) "))(".toList
        "a(b(c".toList = .inside ['a'] 1 1 "c(b".toList ∧
      unescapedCount '(' false "b(c".toList = unescapedCount ')' false "b(c".toList + 1 := by
  have hscan := describes_iff_scanBraces (show '(' ≠ ')' by decide) (by decide)
    (show ')' ≠ '\\' by decide) "a(b(c))(".toList
  have hphase : (braceScanner '(' (show ')' ≠ '\\' by decide)).phaseAfter false 0 (.outside [])
      "))(".toList "a(b(c".toList = .inside ['a'] 1 1 "c(b".toList := by decide
  exact ⟨by decide, (hscan.1 _ _).2 (by decide), hphase, hscan.2 _ _ _ _ _ _ rfl hphase⟩

/-- Without a word about what is behind the opening that nothing closes there are two answers
for a text, and where two openings stay open there is none. -/
theorem admits_not_unique :
    (braceShape '(' ')').Admits 0 "( (a)".toList [] (some 0) ∧
      (braceShape '(' ')').Admits 0 "( (a)".toList [("a".toList, ⟨2, 5⟩)] (some 0) ∧
      ¬ (braceShape '(' ')').Admits 0 "((".toList (scanBraces '(' ')' "((".toList).found
        (scanBraces '(' ')' "((".toList).unterminated := by
  have hscanned := scannedBy_braces (show '(' ≠ ')' by decide) (by decide) (by decide)
  have hlawful := lawful_braces (show '(' ≠ ')' by decide) (by decide) (by decide)
  have hscan : scanBraces '(' ')' "((".toList = ⟨[], "((".toList, some 0⟩ := by decide
  rw [hscan]
  refine ⟨(hscanned.admits_iff hlawful).2 ?_, (hscanned.admits_iff hlawful).2 ?_,
    fun h => absurd ((hscanned.admits_iff hlawful).1 h) ?_⟩
  · decide
  · decide
  · decide

end Stencil.Markup
