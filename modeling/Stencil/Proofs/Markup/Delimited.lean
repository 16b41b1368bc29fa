import Mathlib.Order.Bounds.Basic
import Mathlib.Tactic.Set
import Stencil.Proofs.Markup.Passing
import Stencil.Proofs.Markup.Tiling
import Stencil.Proofs.Text.Range

/-!
# Regions told of the text alone

What a scan for regions gives can be told without its machine. A `RegionShape` says of a text
whether a region opens at its start, whether it starts with a whole region, and whether what
opens at its start never closes. `RegionShape.Describes` then lists what holds of the regions
of a text and of the byte where one stays open, and `RegionShape.Cut` reads the same off the
text from left to right: a gap without an opening, and then a region, or an opening that never
closes, or the end.

A text has a cut (`exists_cut`), and what describes the text is that cut and nothing else
(`describes_iff_of_cut`). So a scan is the one description of its text as soon as it does the
right thing at the front of a text (`ScannedBy.describes_iff`).

The first opening that nothing closes must be named as the first, and as one with no region
behind it. `RegionShape.Admits` leaves both out, and does not determine what is found.
-/

namespace Stencil.Markup

/-! ## Unescaped places -/

variable {P Q : Text → Prop} {escaped : Bool} {base k : Nat} {s t rest : Text}

/-- The character at byte `k` is not escaped, and `P` holds of the text from there on. The
text starts at byte `base`, and `escaped` is the flag of its first character. -/
def UnescapedAt (P : Text → Prop) (escaped : Bool) (base : Nat) (t : Text) (k : Nat) : Prop :=
  ∃ before c after, t = before ++ c :: after ∧ pending escaped before = false ∧
    k = base + Text.byteLength before ∧ P (c :: after)

/-- `P` holds at no unescaped character of the text, read up to the end of `rest`. -/
def Quiet (P : Text → Prop) (escaped : Bool) (s rest : Text) : Prop :=
  ∀ before c after, s = before ++ c :: after → pending escaped before = false →
    ¬ P (c :: (after ++ rest))

theorem not_unescapedAt_nil : ¬ UnescapedAt P escaped base [] k := by
  rintro ⟨before, c, after, ht, -⟩
  simp at ht

theorem unescapedAt_cons {c : Char} :
    UnescapedAt P escaped base (c :: t) k ↔
      (escaped = false ∧ k = base ∧ P (c :: t)) ∨
        UnescapedAt P (pendingAfter escaped c) (base + c.utf8Size) t k := by
  constructor
  · rintro ⟨before, d, after, ht, hpend, rfl, hP⟩
    cases before with
    | nil =>
        obtain ⟨rfl, rfl⟩ := List.cons.inj ht
        exact Or.inl ⟨hpend, rfl, hP⟩
    | cons c' before =>
        obtain ⟨rfl, rfl⟩ := List.cons.inj ht
        refine Or.inr ⟨before, d, after, rfl, hpend, ?_, hP⟩
        rw [Text.byteLength_cons, Nat.add_assoc]
  · rintro (⟨hesc, rfl, hP⟩ | ⟨before, d, after, rfl, hpend, rfl, hP⟩)
    · exact ⟨[], c, t, rfl, hesc, rfl, hP⟩
    · refine ⟨c :: before, d, after, rfl, hpend, ?_, hP⟩
      rw [Text.byteLength_cons, Nat.add_assoc]

instance decidableUnescapedAt [DecidablePred P] :
    ∀ escaped base t k, Decidable (UnescapedAt P escaped base t k)
  | _, _, [], _ => .isFalse not_unescapedAt_nil
  | escaped, base, c :: t, k =>
      have := decidableUnescapedAt (pendingAfter escaped c) (base + c.utf8Size) t k
      decidable_of_iff _ unescapedAt_cons.symm

theorem quiet_nil (P : Text → Prop) (escaped : Bool) (rest : Text) : Quiet P escaped [] rest := by
  intro before c after h
  simp at h

theorem quiet_cons {c : Char} :
    Quiet P escaped (c :: s) rest ↔
      (escaped = false → ¬ P (c :: (s ++ rest))) ∧ Quiet P (pendingAfter escaped c) s rest := by
  constructor
  · intro h
    exact ⟨h [] c s rfl, fun before d after hs => h (c :: before) d after (by rw [hs]; rfl)⟩
  · rintro ⟨hc, hs⟩ before d after heq
    cases before with
    | nil =>
        obtain ⟨rfl, rfl⟩ := List.cons.inj heq
        exact hc
    | cons c' before =>
        obtain ⟨rfl, rfl⟩ := List.cons.inj heq
        exact hs before d after rfl

theorem free_of_quiet {d : Char} (h : Quiet (fun t => t.head? = some d) escaped s rest) :
    Free d escaped s := by
  intro before after hs
  by_contra hpend
  exact h before d after hs (Bool.eq_false_iff.2 hpend) rfl

namespace UnescapedAt

theorem base_le (h : UnescapedAt P escaped base t k) : base ≤ k := by
  obtain ⟨before, c, after, -, -, rfl, -⟩ := h
  exact Nat.le_add_right _ _

theorem lt (h : UnescapedAt P escaped base t k) : k < base + Text.byteLength t := by
  obtain ⟨before, c, after, rfl, -, rfl, -⟩ := h
  have := c.utf8Size_pos
  rw [Text.byteLength_append, Text.byteLength_cons]
  omega

theorem mono (h : UnescapedAt P escaped base t k) (hPQ : ∀ c t, P (c :: t) → Q (c :: t)) :
    UnescapedAt Q escaped base t k := by
  obtain ⟨before, c, after, ht, hpend, hk, hP⟩ := h
  exact ⟨before, c, after, ht, hpend, hk, hPQ _ _ hP⟩

/-- What holds at one byte holds of one text. -/
theorem both (hP : UnescapedAt P escaped base t k) (hQ : UnescapedAt Q escaped base t k) :
    UnescapedAt (fun t => P t ∧ Q t) escaped base t k := by
  obtain ⟨before, c, after, rfl, hpend, rfl, hP⟩ := hP
  obtain ⟨before', c', after', ht, -, hk, hQ⟩ := hQ
  obtain ⟨rfl, hafter⟩ := Text.append_inj_of_byteLength ht (by omega)
  exact ⟨before, c, after, rfl, hpend, rfl, hP, hafter ▸ hQ⟩

theorem append_right (h : UnescapedAt P (pending escaped s) (base + Text.byteLength s) t k) :
    UnescapedAt P escaped base (s ++ t) k := by
  obtain ⟨before, c, after, rfl, hpend, rfl, hP⟩ := h
  refine ⟨s ++ before, c, after, by simp, by rwa [pending_append], ?_, hP⟩
  rw [Text.byteLength_append, Nat.add_assoc]

/-- A place is in the first part of a text, or it is one of the second. -/
theorem of_append (h : UnescapedAt P escaped base (s ++ t) k) :
    k < base + Text.byteLength s ∨
      UnescapedAt P (pending escaped s) (base + Text.byteLength s) t k := by
  obtain ⟨before, c, after, ht, hpend, rfl, hP⟩ := h
  rcases List.append_eq_append_iff.1 ht with ⟨w, rfl, rfl⟩ | ⟨w, rfl, hw⟩
  · rw [pending_append] at hpend
    refine Or.inr ⟨w, c, after, rfl, hpend, ?_, hP⟩
    rw [Text.byteLength_append, Nat.add_assoc]
  · cases w with
    | nil =>
        obtain rfl : c :: after = t := hw
        rw [List.append_nil]
        exact Or.inr ⟨[], c, after, rfl, hpend, rfl, hP⟩
    | cons d w =>
        have hpos := d.utf8Size_pos
        refine Or.inl ?_
        rw [Text.byteLength_append, Text.byteLength_cons]
        omega

/-- A quiet text has no place. -/
theorem of_append_quiet (h : UnescapedAt P escaped base (s ++ t) k) (hs : Quiet P escaped s t) :
    UnescapedAt P (pending escaped s) (base + Text.byteLength s) t k := by
  induction s generalizing escaped base with
  | nil => exact h
  | cons c s ih =>
      obtain ⟨hc, hs⟩ := quiet_cons.1 hs
      rcases unescapedAt_cons.1 h with ⟨hesc, -, hP⟩ | h
      · exact absurd hP (hc hesc)
      · have hrest := ih h hs
        rwa [Nat.add_assoc] at hrest

end UnescapedAt

theorem not_unescapedAt_of_quiet (h : Quiet P escaped t []) : ¬ UnescapedAt P escaped base t k := by
  intro hk
  rw [← List.append_nil t] at hk
  exact not_unescapedAt_nil (hk.of_append_quiet h)

/-- A text has a first place, or none. -/
theorem quiet_or_first (P : Text → Prop) (escaped : Bool) (t : Text) :
    Quiet P escaped t [] ∨ ∃ gap c rest, t = gap ++ c :: rest ∧ pending escaped gap = false ∧
      P (c :: rest) ∧ Quiet P escaped gap (c :: rest) := by
  induction t generalizing escaped with
  | nil => exact Or.inl (quiet_nil P escaped [])
  | cons c t ih =>
      by_cases hhere : escaped = false ∧ P (c :: t)
      · exact Or.inr ⟨[], c, t, rfl, hhere.1, hhere.2, quiet_nil P escaped _⟩
      · rcases ih (pendingAfter escaped c) with hquiet | ⟨gap, d, rest, rfl, hpend, hP, hgap⟩
        · refine Or.inl (quiet_cons.2 ⟨fun hesc hP => hhere ⟨hesc, ?_⟩, hquiet⟩)
          rwa [List.append_nil] at hP
        · exact Or.inr ⟨c :: gap, d, rest, rfl, hpend, hP,
            quiet_cons.2 ⟨fun hesc hP => hhere ⟨hesc, hP⟩, hgap⟩⟩

/-! ## Shapes of regions -/

/-- What a scan takes for a region, told of texts alone. -/
structure RegionShape where
  /-- A region opens with the first character of the text, if that is not escaped. -/
  Opens : Text → Prop
  /-- All that a region stands for. -/
  enclose : Text → Text
  /-- The text is what a region holds, when `after` follows the region. -/
  Whole : (text after : Text) → Prop
  /-- The region that opens at the start of the text never closes. -/
  Unclosed : Text → Prop

namespace RegionShape

variable (S : RegionShape)

/-- A region with this text stands at the span. -/
def StandsAt (base : Nat) (t text : Text) (span : Span) : Prop :=
  UnescapedAt (fun rest => ∃ after, rest = S.enclose text ++ after ∧ S.Whole text after)
      false base t span.start ∧
    span.stop = span.start + Text.byteLength (S.enclose text)

/-- The byte is in one of the regions. -/
def Covered (found : List (Text × Span)) (k : Nat) : Prop :=
  ∃ r ∈ found, r.2.start ≤ k ∧ k < r.2.stop

instance (found : List (Text × Span)) (k : Nat) : Decidable (Covered found k) :=
  inferInstanceAs (Decidable (∃ r ∈ found, _))

/-- A region opens at the byte, outside of those that are found, and never closes. -/
def LeftOpen (base : Nat) (t : Text) (found : List (Text × Span)) (k : Nat) : Prop :=
  UnescapedAt (fun rest => S.Opens rest ∧ S.Unclosed rest) false base t k ∧ ¬ Covered found k

/-- The regions stand in the text in order and do not overlap, and every opening before the
byte where one stays open is in one of them. -/
structure Accounts (base : Nat) (t : Text) (found : List (Text × Span))
    (unterminated : Option Nat) : Prop where
  ordered : found.Pairwise fun a b => a.2.stop ≤ b.2.start
  stands : ∀ r ∈ found, S.StandsAt base t r.1 r.2
  complete : ∀ k, UnescapedAt S.Opens false base t k → (∀ u, unterminated = some u → k < u) →
    Covered found k

/-- A region stays open at a byte exactly if one that opens there never closes. -/
structure Admits (base : Nat) (t : Text) (found : List (Text × Span)) (unterminated : Option Nat) :
    Prop extends S.Accounts base t found unterminated where
  leftOpen : ∀ k, unterminated = some k ↔ S.LeftOpen base t found k

/-- A region stays open at a byte exactly if one that opens there never closes and it is the
first such byte, and no region reaches beyond it. -/
structure Describes (base : Nat) (t : Text) (found : List (Text × Span))
    (unterminated : Option Nat) : Prop extends S.Accounts base t found unterminated where
  leftOpen : ∀ k, unterminated = some k ↔ IsLeast {k | S.LeftOpen base t found k} k
  behind : ∀ k, unterminated = some k → ∀ r ∈ found, r.2.stop ≤ k

/-- What a shape says at one place fits together. -/
structure Lawful : Prop where
  closed {text after : Text} : S.Whole text after → pending false (S.enclose text) = false
  opens {text after : Text} : S.Whole text after → S.Opens (S.enclose text ++ after)
  nonempty {text after : Text} : S.Whole text after → S.enclose text ≠ []
  unique {text after text' after' : Text} : S.Whole text after → S.Whole text' after' →
    S.enclose text ++ after = S.enclose text' ++ after' → text = text'
  not_unclosed {text after : Text} : S.Whole text after → ¬ S.Unclosed (S.enclose text ++ after)
  closes {t : Text} : S.Opens t → ¬ S.Unclosed t →
    ∃ text after, t = S.enclose text ++ after ∧ S.Whole text after

/-- The regions of a text from left to right, and where one stays open. -/
inductive Cut : (base : Nat) → Text → List (Text × Span) → Option Nat → Prop where
  | quiet {base : Nat} {t : Text} (silent : Quiet S.Opens false t []) : Cut base t [] none
  | unclosed {base : Nat} {gap rest : Text} {c : Char}
      (silent : Quiet S.Opens false gap (c :: rest)) (unescaped : pending false gap = false)
      (opens : S.Opens (c :: rest)) (unclosed : S.Unclosed (c :: rest)) :
      Cut base (gap ++ c :: rest) [] (some (base + Text.byteLength gap))
  | region {base : Nat} {gap text rest : Text} {found : List (Text × Span)}
      {unterminated : Option Nat} (silent : Quiet S.Opens false gap (S.enclose text ++ rest))
      (unescaped : pending false gap = false) (whole : S.Whole text rest)
      (others : Cut (base + Text.byteLength gap + Text.byteLength (S.enclose text)) rest found
        unterminated) :
      Cut base (gap ++ (S.enclose text ++ rest))
        ((text, ⟨base + Text.byteLength gap,
          base + Text.byteLength gap + Text.byteLength (S.enclose text)⟩) :: found) unterminated

variable {S} {gap text : Text} {span : Span} {found found' l : List (Text × Span)}
  {unterminated unterminated' : Option Nat}

theorem Covered.cons {r : Text × Span} (h : Covered found k) : Covered (r :: found) k := by
  obtain ⟨r', hr, hk⟩ := h
  exact ⟨r', List.mem_cons_of_mem r hr, hk⟩

theorem covered_cons {r : Text × Span} :
    Covered (r :: found) k ↔ (r.2.start ≤ k ∧ k < r.2.stop) ∨ Covered found k := by
  simp [Covered, or_and_right, exists_or]

theorem not_covered_nil : ¬ Covered [] k := by
  simp [Covered]

theorem StandsAt.opensAt (h : S.StandsAt base t text span) (hS : S.Lawful) :
    UnescapedAt S.Opens false base t span.start := by
  refine h.1.mono ?_
  rintro c rest ⟨after, heq, hwhole⟩
  rw [heq]
  exact hS.opens hwhole

theorem StandsAt.lt (h : S.StandsAt base t text span) (hS : S.Lawful) : span.start < span.stop := by
  obtain ⟨⟨before, c, after, -, -, -, after', -, hwhole⟩, hstop⟩ := h
  have := Text.byteLength_pos (hS.nonempty hwhole)
  omega

/-- No region stands where one stays open. -/
theorem StandsAt.closes (h : S.StandsAt base t text span) (hS : S.Lawful) :
    ¬ UnescapedAt (fun rest => S.Opens rest ∧ S.Unclosed rest) false base t span.start := by
  intro hopen
  obtain ⟨before, c, after, -, -, -, ⟨after', hafter, hwhole⟩, -, hunclosed⟩ := h.1.both hopen
  rw [hafter] at hunclosed
  exact hS.not_unclosed hwhole hunclosed

/-- One region stands at a byte. -/
theorem StandsAt.unique {text' : Text} {span' : Span} (h : S.StandsAt base t text span)
    (h' : S.StandsAt base t text' span') (hS : S.Lawful) (hstart : span.start = span'.start) :
    (text, span) = (text', span') := by
  obtain ⟨hat, hstop⟩ := h
  obtain ⟨hat', hstop'⟩ := h'
  rw [← hstart] at hat'
  obtain ⟨before, c, after, -, -, -, ⟨u, hu, hwhole⟩, v, hv, hwhole'⟩ := hat.both hat'
  obtain rfl := hS.unique hwhole hwhole' (hu.symm.trans hv)
  obtain ⟨start, stop⟩ := span
  obtain ⟨start', stop'⟩ := span'
  obtain rfl : start = start' := hstart
  obtain rfl : stop = start + _ := hstop
  obtain rfl : stop' = start + _ := hstop'
  rfl

/-! ## The description of a text at its front -/

theorem describes_quiet (h : Quiet S.Opens false t []) (hS : S.Lawful) :
    S.Describes base t found unterminated ↔ found = [] ∧ unterminated = none := by
  have silent : ∀ k, ¬ UnescapedAt S.Opens false base t k := fun _ => not_unescapedAt_of_quiet h
  constructor
  · intro hd
    refine ⟨List.eq_nil_iff_forall_not_mem.2 fun r hr => ?_, ?_⟩
    · exact silent _ ((hd.stands r hr).opensAt hS)
    · cases hu : unterminated with
      | none => rfl
      | some k => exact absurd (((hd.leftOpen k).1 hu).1.1.mono fun _ _ h => h.1) (silent k)
  · rintro ⟨rfl, rfl⟩
    exact {
      ordered := .nil
      stands := fun r hr => absurd hr (by simp)
      complete := fun k hk => absurd hk (silent k)
      leftOpen := fun k =>
        ⟨fun h => absurd h (by simp), fun h => absurd (h.1.1.mono fun _ _ h => h.1) (silent k)⟩
      behind := fun k hk => absurd hk (by simp) }

theorem describes_unclosed {c : Char} (silent : Quiet S.Opens false gap (c :: rest))
    (unescaped : pending false gap = false) (opens : S.Opens (c :: rest))
    (unclosed : S.Unclosed (c :: rest)) (hS : S.Lawful) :
    S.Describes base (gap ++ c :: rest) found unterminated ↔
      found = [] ∧ unterminated = some (base + Text.byteLength gap) := by
  have hopen : UnescapedAt (fun rest => S.Opens rest ∧ S.Unclosed rest) false base
      (gap ++ c :: rest) (base + Text.byteLength gap) :=
    ⟨gap, c, rest, rfl, unescaped, rfl, opens, unclosed⟩
  have first : ∀ k, UnescapedAt S.Opens false base (gap ++ c :: rest) k →
      base + Text.byteLength gap ≤ k :=
    fun _ hk => (hk.of_append_quiet silent).base_le
  constructor
  · intro hd
    -- a region starts behind the first opening, so none covers that
    have behind : ∀ r ∈ found, base + Text.byteLength gap < r.2.start := by
      intro r hr
      refine lt_of_le_of_ne (first _ ((hd.stands r hr).opensAt hS)) fun heq => ?_
      rw [heq] at hopen
      exact (hd.stands r hr).closes hS hopen
    have hbare : ¬ Covered found (base + Text.byteLength gap) := by
      rintro ⟨r, hr, hle, -⟩
      have := behind r hr
      omega
    have hleft : S.LeftOpen base (gap ++ c :: rest) found (base + Text.byteLength gap) :=
      ⟨hopen, hbare⟩
    have hu : unterminated = some (base + Text.byteLength gap) :=
      (hd.leftOpen _).2 ⟨hleft, fun k hk => first k (hk.1.mono fun _ _ h => h.1)⟩
    refine ⟨List.eq_nil_iff_forall_not_mem.2 fun r hr => ?_, hu⟩
    have hstart := behind r hr
    have hstop := hd.behind _ hu r hr
    have hlt := (hd.stands r hr).lt hS
    omega
  · rintro ⟨rfl, rfl⟩
    refine ⟨⟨.nil, fun r hr => absurd hr (by simp), fun k hk hlt => ?_⟩, fun k => ?_,
      fun k _ r hr => absurd hr (by simp)⟩
    · exact absurd (hlt _ rfl) (not_lt.2 (first k hk))
    · have hleast : IsLeast {k | S.LeftOpen base (gap ++ c :: rest) [] k}
          (base + Text.byteLength gap) :=
        ⟨⟨hopen, not_covered_nil⟩, fun k hk => first k (hk.1.mono fun _ _ h => h.1)⟩
      rw [Option.some.injEq]
      exact ⟨fun h => h ▸ hleast, fun h => hleast.unique h⟩

section Region

variable (unescaped : pending false gap = false) (whole : S.Whole text rest) (hS : S.Lawful)

include unescaped whole hS

/-- The first region stands behind the gap. -/
theorem standsAt_first :
    S.StandsAt base (gap ++ (S.enclose text ++ rest)) text
      ⟨base + Text.byteLength gap,
        base + Text.byteLength gap + Text.byteLength (S.enclose text)⟩ := by
  refine ⟨?_, rfl⟩
  obtain ⟨c, after, hc⟩ := List.exists_cons_of_ne_nil (hS.nonempty whole)
  exact ⟨gap, c, after ++ rest, by rw [hc]; rfl, unescaped, rfl, rest, by rw [hc]; rfl, whole⟩

/-- Behind the first region the places are those of the text that follows it. -/
theorem unescapedAt_behind
    (hk : base + Text.byteLength gap + Text.byteLength (S.enclose text) ≤ k) :
    UnescapedAt P false base (gap ++ (S.enclose text ++ rest)) k ↔
      UnescapedAt P false (base + Text.byteLength gap + Text.byteLength (S.enclose text)) rest
        k := by
  have hpend : pending false (gap ++ S.enclose text) = false := by
    rw [pending_append, unescaped, hS.closed whole]
  have hsize : base + Text.byteLength (gap ++ S.enclose text) =
      base + Text.byteLength gap + Text.byteLength (S.enclose text) := by
    rw [Text.byteLength_append, Nat.add_assoc]
  rw [← List.append_assoc]
  constructor
  · intro h
    rcases h.of_append with hlt | h
    · omega
    · rwa [hpend, hsize] at h
  · intro h
    refine UnescapedAt.append_right ?_
    rwa [hpend, hsize]

variable (silent : Quiet S.Opens false gap (S.enclose text ++ rest))

include silent

/-- The other regions are those of the text that follows. -/
theorem describes_region :
    S.Describes base (gap ++ (S.enclose text ++ rest))
        ((text, ⟨base + Text.byteLength gap,
          base + Text.byteLength gap + Text.byteLength (S.enclose text)⟩) :: l) unterminated ↔
      S.Describes (base + Text.byteLength gap + Text.byteLength (S.enclose text)) rest l
        unterminated := by
  set stop := base + Text.byteLength gap + Text.byteLength (S.enclose text) with hstop
  have behind : ∀ {k} {P : Text → Prop}, stop ≤ k →
      (UnescapedAt P false base (gap ++ (S.enclose text ++ rest)) k ↔
        UnescapedAt P false stop rest k) :=
    fun hk => unescapedAt_behind unescaped whole hS hk
  have first : ∀ {k}, UnescapedAt S.Opens false base (gap ++ (S.enclose text ++ rest)) k →
      base + Text.byteLength gap ≤ k :=
    fun hk => (hk.of_append_quiet silent).base_le
  have stands : ∀ {u : Text} {sp : Span}, stop ≤ sp.start →
      (S.StandsAt base (gap ++ (S.enclose text ++ rest)) u sp ↔ S.StandsAt stop rest u sp) :=
    fun hsp => and_congr_left fun _ => behind hsp
  -- an opening that no region holds is behind the first one
  have uncovered : ∀ {k}, UnescapedAt S.Opens false base (gap ++ (S.enclose text ++ rest)) k →
      ¬ Covered ((text, ⟨base + Text.byteLength gap, stop⟩) :: l) k → stop ≤ k := by
    intro k hk hbare
    by_contra hlt
    exact hbare (covered_cons.2 (Or.inl ⟨first hk, not_le.1 hlt⟩))
  have leftOpen : ∀ {k}, S.LeftOpen base (gap ++ (S.enclose text ++ rest))
      ((text, ⟨base + Text.byteLength gap, stop⟩) :: l) k ↔ S.LeftOpen stop rest l k := by
    intro k
    constructor
    · rintro ⟨hk, hbare⟩
      have hle := uncovered (hk.mono fun _ _ h => h.1) hbare
      exact ⟨(behind hle).1 hk, fun hcov => hbare hcov.cons⟩
    · rintro ⟨hk, hbare⟩
      refine ⟨(behind hk.base_le).2 hk, fun hcov => ?_⟩
      rcases covered_cons.1 hcov with ⟨-, hlt⟩ | hcov
      · exact absurd hk.base_le (not_le.2 hlt)
      · exact hbare hcov
  have least : {k | S.LeftOpen base (gap ++ (S.enclose text ++ rest))
      ((text, ⟨base + Text.byteLength gap, stop⟩) :: l) k} = {k | S.LeftOpen stop rest l k} :=
    Set.ext fun k => leftOpen
  constructor
  · intro hd
    obtain ⟨hfirst, hordered⟩ := List.pairwise_cons.1 hd.ordered
    refine ⟨⟨hordered, fun r hr => ?_, fun k hk hlt => ?_⟩, fun k => ?_, fun k hk r hr => ?_⟩
    · exact (stands (hfirst r hr)).1 (hd.stands r (List.mem_cons_of_mem _ hr))
    · rcases covered_cons.1 (hd.complete k ((behind hk.base_le).2 hk) hlt) with ⟨-, hin⟩ | hcov
      · exact absurd hk.base_le (not_le.2 hin)
      · exact hcov
    · rw [hd.leftOpen k, least]
    · exact hd.behind k hk r (List.mem_cons_of_mem _ hr)
  · intro hd
    have after : ∀ r ∈ l, stop ≤ r.2.start := fun r hr => (hd.stands r hr).1.base_le
    refine ⟨⟨List.pairwise_cons.2 ⟨after, hd.ordered⟩, fun r hr => ?_, fun k hk hlt => ?_⟩,
      fun k => ?_, fun k hk r hr => ?_⟩
    · rcases List.mem_cons.1 hr with rfl | hr
      · exact standsAt_first unescaped whole hS
      · exact (stands (after r hr)).2 (hd.stands r hr)
    · by_contra hbare
      have hle := uncovered hk hbare
      exact hbare (hd.complete k ((behind hle).1 hk) hlt).cons
    · rw [hd.leftOpen k, least]
    · rcases List.mem_cons.1 hr with rfl | hr
      · exact ((hd.leftOpen k).1 hk).1.1.base_le
      · exact hd.behind k hk r hr

/-- Whatever describes the text has the first region first. -/
theorem Describes.eq_cons (hd : S.Describes base (gap ++ (S.enclose text ++ rest)) found
    unterminated) :
    ∃ l, found = (text, ⟨base + Text.byteLength gap,
      base + Text.byteLength gap + Text.byteLength (S.enclose text)⟩) :: l := by
  have hstands : S.StandsAt base (gap ++ (S.enclose text ++ rest)) text _ :=
    standsAt_first unescaped whole hS
  have first : ∀ {k}, UnescapedAt S.Opens false base (gap ++ (S.enclose text ++ rest)) k →
      base + Text.byteLength gap ≤ k :=
    fun hk => (hk.of_append_quiet silent).base_le
  obtain ⟨r, hr, hle, -⟩ := hd.complete _ (hstands.opensAt hS) fun u hu => by
    have hopen := ((hd.leftOpen u).1 hu).1.1
    refine lt_of_le_of_ne (first (hopen.mono fun _ _ h => h.1)) ?_
    rintro rfl
    exact hstands.closes hS hopen
  -- the region that holds the first opening starts there, and so is the first one
  have hstart : r.2.start = base + Text.byteLength gap :=
    le_antisymm hle (first ((hd.stands r hr).opensAt hS))
  have hreq := (hd.stands r hr).unique hstands hS hstart
  cases found with
  | nil => exact absurd hr (by simp)
  | cons a l =>
      rcases List.mem_cons.1 hr with rfl | hmem
      · exact ⟨l, congrArg (· :: l) hreq⟩
      · have hbefore := (List.pairwise_cons.1 hd.ordered).1 r hmem
        have ha := hd.stands a List.mem_cons_self
        have hlt := ha.lt hS
        have hge := first (ha.opensAt hS)
        omega

end Region

/-! ## Cuts -/

/-- **A cut is the one description of its text.** -/
theorem describes_iff_of_cut (hS : S.Lawful) (h : S.Cut base t found unterminated) :
    S.Describes base t found' unterminated' ↔ found' = found ∧ unterminated' = unterminated := by
  induction h generalizing found' unterminated' with
  | quiet silent => exact describes_quiet silent hS
  | unclosed silent unescaped opens unclosed =>
      exact describes_unclosed silent unescaped opens unclosed hS
  | region silent unescaped whole others ih =>
      constructor
      · intro hd
        obtain ⟨l, rfl⟩ := hd.eq_cons unescaped whole hS silent
        obtain ⟨rfl, rfl⟩ := ih.1 ((describes_region unescaped whole hS silent).1 hd)
        exact ⟨rfl, rfl⟩
      · rintro ⟨rfl, rfl⟩
        exact (describes_region unescaped whole hS silent).2 (ih.2 ⟨rfl, rfl⟩)

/-- Every text can be cut. -/
theorem exists_cut (hS : S.Lawful) (base : Nat) (t : Text) :
    ∃ found unterminated, S.Cut base t found unterminated := by
  induction hn : t.length using Nat.strong_induction_on generalizing base t with
  | _ n ih =>
      subst hn
      rcases quiet_or_first S.Opens false t with hquiet | ⟨gap, c, rest, rfl, hpend, hopens, hgap⟩
      · exact ⟨[], none, .quiet hquiet⟩
      by_cases hunclosed : S.Unclosed (c :: rest)
      · exact ⟨[], _, .unclosed hgap hpend hopens hunclosed⟩
      · obtain ⟨text, after, heq, hwhole⟩ := hS.closes hopens hunclosed
        rw [heq] at hgap ih ⊢
        have hpos := List.length_pos_iff.2 (hS.nonempty hwhole)
        have hshorter : after.length < (gap ++ (S.enclose text ++ after)).length := by
          simp only [List.length_append]
          omega
        obtain ⟨found, unterminated, hcut⟩ := ih _ hshorter
          (base + Text.byteLength gap + Text.byteLength (S.enclose text)) after rfl
        exact ⟨_, unterminated, .region hgap hpend hwhole hcut⟩

end RegionShape

/-! ## Scans -/

/-- The regions of a scan without the gaps between them. -/
def Scan.found (s : Scan) : List (Text × Span) :=
  s.regions.map fun r => (r.text, r.span)

namespace RegionShape

variable {S : RegionShape} {scan : Nat → Text → Scan}

/-- What a scan of a text that stands at a byte does at the front of the text. -/
structure ScannedBy (S : RegionShape) (scan : Nat → Text → Scan) : Prop where
  quiet {base : Nat} {t : Text} : Quiet S.Opens false t [] → scan base t = ⟨[], t, none⟩
  unclosed {base : Nat} {gap rest : Text} {c : Char} : Quiet S.Opens false gap (c :: rest) →
    pending false gap = false → S.Opens (c :: rest) → S.Unclosed (c :: rest) →
    scan base (gap ++ c :: rest) = ⟨[], gap ++ c :: rest, some (base + Text.byteLength gap)⟩
  region {base : Nat} {gap text rest : Text} : Quiet S.Opens false gap (S.enclose text ++ rest) →
    pending false gap = false → S.Whole text rest →
    scan base (gap ++ (S.enclose text ++ rest)) =
      (scan (base + Text.byteLength gap + Text.byteLength (S.enclose text)) rest).cons
        ⟨gap, text, ⟨base + Text.byteLength gap,
          base + Text.byteLength gap + Text.byteLength (S.enclose text)⟩⟩

theorem ScannedBy.cut (hS : S.ScannedBy scan) {base : Nat} {t : Text} {found : List (Text × Span)}
    {unterminated : Option Nat} (h : S.Cut base t found unterminated) :
    (scan base t).found = found ∧ (scan base t).unterminated = unterminated := by
  induction h with
  | quiet silent =>
      rw [hS.quiet silent]
      exact ⟨rfl, rfl⟩
  | unclosed silent unescaped opens unclosed =>
      rw [hS.unclosed silent unescaped opens unclosed]
      exact ⟨rfl, rfl⟩
  | region silent unescaped whole others ih =>
      rw [hS.region silent unescaped whole]
      exact ⟨congrArg (_ :: ·) ih.1, ih.2⟩

/-- **What a scan finds is the one description of its text.** -/
theorem ScannedBy.describes_iff (hS : S.ScannedBy scan) (hlawful : S.Lawful) (base : Nat)
    (t : Text) (found : List (Text × Span)) (unterminated : Option Nat) :
    S.Describes base t found unterminated ↔
      found = (scan base t).found ∧ unterminated = (scan base t).unterminated := by
  obtain ⟨found', unterminated', hcut⟩ := exists_cut hlawful base t
  obtain ⟨rfl, rfl⟩ := hS.cut hcut
  exact describes_iff_of_cut hlawful hcut

theorem ScannedBy.texts_head? (hS : S.ScannedBy scan) {text after : Text}
    (h : S.Whole text after) : (scan 0 (S.enclose text ++ after)).texts.head? = some text := by
  have hregion : scan 0 ([] ++ (S.enclose text ++ after)) = _ :=
    hS.region (quiet_nil S.Opens false _) rfl h
  rw [List.nil_append] at hregion
  rw [hregion]
  rfl

/-- Where a scan takes each region for its own, no two regions start in one place. -/
theorem ScannedBy.unique (hS : S.ScannedBy scan) {text after text' after' : Text}
    (h : S.Whole text after) (h' : S.Whole text' after')
    (heq : S.enclose text ++ after = S.enclose text' ++ after') : text = text' := by
  have hfirst := hS.texts_head? h
  rw [heq, hS.texts_head? h'] at hfirst
  exact (Option.some.inj hfirst).symm

/-! A scan decides what the shape says of a place. -/

theorem ScannedBy.unclosed_iff (hS : S.ScannedBy scan) (hlawful : S.Lawful) {c : Char} {rest : Text}
    (h : S.Opens (c :: rest)) :
    S.Unclosed (c :: rest) ↔ (scan 0 (c :: rest)).texts.head? = none := by
  constructor
  · intro hunclosed
    have hscan : scan 0 ([] ++ c :: rest) = _ :=
      hS.unclosed (quiet_nil S.Opens false _) rfl h hunclosed
    rw [List.nil_append] at hscan
    rw [hscan]
    rfl
  · intro hnone
    by_contra hclosed
    obtain ⟨text, after, heq, hwhole⟩ := hlawful.closes h hclosed
    rw [heq, hS.texts_head? hwhole] at hnone
    exact absurd hnone (by simp)

theorem ScannedBy.whole_iff (hS : S.ScannedBy scan) (hlawful : S.Lawful) {c : Char}
    {rest text : Text} :
    (∃ after, c :: rest = S.enclose text ++ after ∧ S.Whole text after) ↔
      S.Opens (c :: rest) ∧ (scan 0 (c :: rest)).texts.head? = some text := by
  constructor
  · rintro ⟨after, heq, hwhole⟩
    rw [heq]
    exact ⟨hlawful.opens hwhole, hS.texts_head? hwhole⟩
  · rintro ⟨hopens, htext⟩
    have hclosed : ¬ S.Unclosed (c :: rest) := by
      rw [hS.unclosed_iff hlawful hopens, htext]
      simp
    obtain ⟨text', after, heq, hwhole⟩ := hlawful.closes hopens hclosed
    rw [heq, hS.texts_head? hwhole] at htext
    obtain rfl := Option.some.inj htext
    exact ⟨after, heq, hwhole⟩

theorem ScannedBy.standsAt_iff (hS : S.ScannedBy scan) (hlawful : S.Lawful) {base : Nat}
    {t text : Text} {span : Span} :
    S.StandsAt base t text span ↔
      UnescapedAt (fun u => S.Opens u ∧ (scan 0 u).texts.head? = some text) false base t
          span.start ∧
        span.stop = span.start + Text.byteLength (S.enclose text) := by
  simp only [StandsAt, UnescapedAt, hS.whole_iff hlawful]

theorem ScannedBy.leftOpen_iff (hS : S.ScannedBy scan) (hlawful : S.Lawful) {base k : Nat}
    {t : Text} {found : List (Text × Span)} :
    S.LeftOpen base t found k ↔
      UnescapedAt (fun u => S.Opens u ∧ (scan 0 u).texts.head? = none) false base t k ∧
        ¬ Covered found k := by
  refine and_congr_left fun _ => ⟨fun h => h.mono ?_, fun h => h.mono ?_⟩
  · exact fun _ _ hu => ⟨hu.1, (hS.unclosed_iff hlawful hu.1).1 hu.2⟩
  · exact fun _ _ hu => ⟨hu.1, (hS.unclosed_iff hlawful hu.1).2 hu.2⟩

/-- The answers for a text, as far as they can be checked byte by byte. -/
theorem ScannedBy.admits_iff (hS : S.ScannedBy scan) (hlawful : S.Lawful) {t : Text}
    {found : List (Text × Span)} {u : Nat} :
    S.Admits 0 t found (some u) ↔
      (found.Pairwise fun a b => a.2.stop ≤ b.2.start) ∧
      (∀ r ∈ found, UnescapedAt (fun v => S.Opens v ∧ (scan 0 v).texts.head? = some r.1) false 0 t
          r.2.start ∧ r.2.stop = r.2.start + Text.byteLength (S.enclose r.1)) ∧
      (∀ k < u, UnescapedAt S.Opens false 0 t k → Covered found k) ∧
      u < Text.byteLength t ∧
      ∀ k < Text.byteLength t, u = k ↔
        UnescapedAt (fun v => S.Opens v ∧ (scan 0 v).texts.head? = none) false 0 t k ∧
          ¬ Covered found k := by
  have bounded : ∀ {k}, S.LeftOpen 0 t found k → k < Text.byteLength t := by
    intro k hk
    have := hk.1.lt
    omega
  simp only [← hS.standsAt_iff hlawful, ← hS.leftOpen_iff hlawful]
  constructor
  · rintro ⟨⟨hordered, hstands, hcomplete⟩, hleft⟩
    refine ⟨hordered, hstands, fun k hk hopens => hcomplete k hopens ?_, bounded ((hleft u).1 rfl),
      fun k _ => ?_⟩
    · rintro v ⟨⟩
      exact hk
    · rw [← hleft k, Option.some.injEq]
  · rintro ⟨hordered, hstands, hcomplete, hu, hleft⟩
    refine ⟨⟨hordered, hstands, fun k hopens hk => hcomplete k (hk u rfl) hopens⟩, fun k => ?_⟩
    rw [Option.some.injEq]
    exact ⟨fun heq => (hleft k (heq ▸ hu)).1 heq, fun hopen => (hleft k (bounded hopen)).2 hopen⟩

end RegionShape

/-! ## The phase that a scan has reached -/

namespace Scanner

variable {σ : Type} (m : Scanner σ)

/-- The phase behind the first part of a text, of which `rest` is the other part. -/
def phaseAfter (escaped : Bool) (offset : Nat) (p : σ) (rest : Text) : Text → σ
  | [] => p
  | c :: s =>
      phaseAfter (pendingAfter escaped c) (offset + c.utf8Size)
        (if escaped then m.keep c p else (m.step offset c (s ++ rest) p).1) rest s

/-- A scan goes on from the phase that it has reached. -/
theorem run_append (s rest : Text) (escaped : Bool) (offset : Nat) (p : σ) :
    ∃ rs, m.run escaped offset p (s ++ rest) =
      { m.run (pending escaped s) (offset + Text.byteLength s)
          (m.phaseAfter escaped offset p rest s) rest with
        regions := rs ++ (m.run (pending escaped s) (offset + Text.byteLength s)
          (m.phaseAfter escaped offset p rest s) rest).regions } := by
  induction s generalizing escaped offset p with
  | nil => exact ⟨[], rfl⟩
  | cons c s ih =>
      obtain ⟨rs, hrs⟩ := ih (pendingAfter escaped c) (offset + c.utf8Size)
        (if escaped then m.keep c p else (m.step offset c (s ++ rest) p).1)
      rw [List.cons_append, run, Text.byteLength_cons, ← Nat.add_assoc]
      cases escaped with
      | true => exact ⟨rs, hrs⟩
      | false =>
          refine ⟨(m.step offset c (s ++ rest) p).2.toList ++ rs, ?_⟩
          simp only [Bool.false_eq_true, if_false] at hrs ⊢
          rw [hrs]
          cases (m.step offset c (s ++ rest) p).2 with
          | none => rfl
          | some r => rfl

/-- What every step keeps holds of every phase that a scan reaches. -/
theorem phaseAfter_induction {motive : Bool → σ → Prop}
    (keep : ∀ c p, motive true p → motive false (m.keep c p))
    (step : ∀ offset c rest p, motive false p →
      motive (pendingAfter false c) (m.step offset c rest p).1)
    {escaped : Bool} {p : σ} (h : motive escaped p) (offset : Nat) (s rest : Text) :
    motive (pending escaped s) (m.phaseAfter escaped offset p rest s) := by
  induction s generalizing escaped offset p with
  | nil => exact h
  | cons c s ih =>
      refine ih ?_ _
      cases escaped with
      | true => exact keep c p h
      | false => exact step offset c (s ++ rest) p h

end Scanner

end Stencil.Markup
