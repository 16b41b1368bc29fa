import Stencil.Markup.Brace
import Stencil.Markup.Tag
import Stencil.Proofs.Markup.Escape
import Stencil.Proofs.Text.Range

/-!
# The pieces of a scan are the pieces of the text

A scan returns regions, each with the gap before it, and the tail after the
last. `Tiling` says that these pieces, put back in order, are the text; that a
region stands at its span; and that no backslash is pending at either end of a
region, so that what stands in its place is read as if it stood alone.

Both scanners are machines that keep what they have read since the last region.
A `Scanner` is such a machine: `read` is that text, and one step either adds a
character to it or completes a region with it. What a scan of the whole text gives
follows by induction on the text once for all scanners: the tiling, and that a
region which never closes stands where the scan says.
-/

namespace Stencil.Markup

/-- The regions with the gaps before them, and the tail after them, are a text
that stands at a byte offset. `whole` is all that a region stands for, and
`opening` the character that it starts with. -/
inductive Tiling (opening : Char) (whole : Region → Text) (tail : Text) :
    (offset : Nat) → List Region → Text → Prop where
  | done (offset : Nat) : Tiling opening whole tail offset [] tail
  | region {offset : Nat} {r : Region} {rs : List Region} {rest : Text}
      (head : (whole r).head? = some opening)
      (unescaped : pending false r.gap = false)
      (closed : pending false (whole r) = false)
      (start : r.span.start = offset + Text.byteLength r.gap)
      (stop : r.span.stop = r.span.start + Text.byteLength (whole r))
      (others : Tiling opening whole tail r.span.stop rs rest) :
      Tiling opening whole tail offset (r :: rs) (r.gap ++ whole r ++ rest)

/-- A region stands at its span. -/
theorem Tiling.holds {opening : Char} {whole : Region → Text} {tail t : Text} {offset : Nat}
    {rs : List Region} (h : Tiling opening whole tail offset rs t) {r : Region} (hr : r ∈ rs) :
    Text.Holds t offset r.span (whole r) := by
  induction h with
  | done => cases hr
  | @region offset first rs rest _ _ _ start stop _ ih =>
      rcases List.mem_cons.1 hr with rfl | hr
      · refine ⟨r.gap, rest, rfl, ?_⟩
        rw [← start, ← stop]
      · have hrest : Text.Holds (first.gap ++ whole first ++ rest) offset
            ⟨first.span.stop, first.span.stop + Text.byteLength rest⟩ rest := by
          refine ⟨first.gap ++ whole first, [], by simp, ?_⟩
          rw [Text.byteLength_append, ← Nat.add_assoc, ← start, ← stop]
        exact hrest.within (ih hr)

/-- The text of a region between delimiters, with its delimiters. -/
def Region.enclosed (opening closing : Char) (r : Region) : Text :=
  opening :: r.text ++ [closing]

theorem scan_eq_consOption_none (s : Scan) : Scan.consOption none s = s := rfl

theorem scan_consOption_some (r : Region) (s : Scan) : Scan.consOption (some r) s = s.cons r := rfl

/-! ## Values between gaps -/

/-- The gaps of a scan with their escapes resolved, and a value in the place of
each region. -/
def Scan.resolve (s : Scan) (values : List Text) : Text :=
  ((s.regions.zip values).flatMap fun p => unescape p.1.gap ++ p.2) ++ unescape s.tail

/-- **Values are verbatim, and gaps resolve as if each stood alone.** No backslash
is pending where a gap meets a value, on either side. -/
theorem unescape_weave {opening : Char} {whole : Region → Text} {s : Scan} {offset : Nat} {t : Text}
    (h : Tiling opening whole s.tail offset s.regions t) (values : List Text) :
    unescape (s.weave (values.map escapeText)) = s.resolve values := by
  unfold Scan.weave Scan.resolve
  generalize s.regions = rs at h
  induction h generalizing values with
  | done offset => rfl
  | @region offset r rs rest head unescaped closed start stop others ih =>
      cases values with
      | nil => rfl
      | cons v values =>
          simp only [List.map_cons, List.zip_cons_cons, List.flatMap_cons, List.append_assoc]
          rw [unescape_append unescaped, unescape_escapeText_append, ih values]

/-! ## Scanners -/

/-- The character stands at a byte of the text. -/
def StandsAt (c : Char) (k : Nat) (t : Text) : Prop :=
  ∃ before after, t = before ++ c :: after ∧ Text.byteLength before = k

/-- A machine that cuts regions out of a text, with what it keeps in mind. -/
structure Scanner (σ : Type) where
  opening : Char
  /-- All that a region stands for. -/
  whole : Region → Text
  /-- Where the machine starts, and where it is after every region. -/
  start : σ
  keep : Char → σ → σ
  step : (offset : Nat) → (c : Char) → (rest : Text) → σ → σ × Option Region
  finish : σ → Scan
  /-- What has been read since the last region. -/
  read : σ → Text
  /-- An open region stands where the machine says, when what has been read starts
  at a byte, and its delimiter is not escaped. -/
  Anchored : (base : Nat) → σ → Prop
  read_start : read start = []
  anchored_start (base : Nat) : Anchored base start
  read_keep (c : Char) (p : σ) : read (keep c p) = read p ++ [c]
  anchored_keep {base : Nat} {p : σ} : Anchored base p → ∀ c, Anchored base (keep c p)
  finish_regions (p : σ) : (finish p).regions = []
  finish_tail (p : σ) : (finish p).tail = read p
  finish_unterminated {base k : Nat} {p : σ} : Anchored base p →
    (finish p).unterminated = some k →
      ∃ before after, read p = before ++ opening :: after ∧ k = base + Text.byteLength before
  /-- One step takes the character in, or completes a region with the character as
  its last and forgets what has been read. -/
  step_cases (rest : Text) {c : Char} {base offset : Nat} {p : σ} :
    Anchored base p → offset = base + Text.byteLength (read p) → pending false (read p) = false →
      (∃ q, step offset c rest p = (q, none) ∧ Anchored base q ∧ read q = read p ++ [c]) ∨
      (∃ r, step offset c rest p = (start, some r) ∧ c ≠ '\\' ∧
        read p ++ [c] = r.gap ++ whole r ∧ (whole r).head? = some opening ∧
        (whole r).getLast? = some c ∧ pending false r.gap = false ∧
        r.span.start = base + Text.byteLength r.gap ∧
        r.span.stop = r.span.start + Text.byteLength (whole r))

namespace Scanner

variable {σ : Type} (m : Scanner σ)

/-- The scan of a text that stands at a byte, from a phase of the machine on. -/
def run (escaped : Bool) (offset : Nat) (p : σ) : Text → Scan
  | [] => m.finish p
  | c :: rest =>
      let (q, region) := if escaped then (m.keep c p, none) else m.step offset c rest p
      (run (pendingAfter escaped c) (offset + c.utf8Size) q rest).consOption region

theorem byteLength_read_start : 0 + Text.byteLength (m.read m.start) = 0 := by
  rw [m.read_start, Text.byteLength_nil]

theorem pending_read_start : pending false (m.read m.start) = false := by
  rw [m.read_start]
  rfl

/-- Induction along a scan: what holds where the text ends, and of a region with
what follows it, holds of the scan from every phase on. -/
theorem run_induction {motive : Nat → Scan → Text → Prop}
    (finish : ∀ {base : Nat} {p : σ}, m.Anchored base p → motive base (m.finish p) (m.read p))
    (region : ∀ {base : Nat} {r : Region} {s : Scan} {rest : Text},
      (m.whole r).head? = some m.opening → pending false r.gap = false →
      pending false (m.whole r) = false → r.span.start = base + Text.byteLength r.gap →
      r.span.stop = r.span.start + Text.byteLength (m.whole r) →
      motive r.span.stop s rest → motive base (s.cons r) (r.gap ++ m.whole r ++ rest))
    (t : Text) {escaped : Bool} {base offset : Nat} {p : σ} (h : m.Anchored base p)
    (hpos : offset = base + Text.byteLength (m.read p))
    (hesc : escaped = pending false (m.read p)) :
    motive base (m.run escaped offset p t) (m.read p ++ t) := by
  induction t generalizing escaped base offset p with
  | nil =>
      rw [List.append_nil]
      exact finish h
  | cons c t ih =>
      -- a character that is taken in only lengthens what has been read
      have taken : ∀ q : σ, m.Anchored base q → m.read q = m.read p ++ [c] →
          motive base (m.run (pendingAfter escaped c) (offset + c.utf8Size) q t)
            (m.read p ++ c :: t) := by
        intro q hq hread
        have hpos' : offset + c.utf8Size = base + Text.byteLength (m.read q) := by
          simp [hread, hpos, Nat.add_assoc]
        have hesc' : pendingAfter escaped c = pending false (m.read q) := by
          rw [hread, pending_append, hesc]
          rfl
        have hrest := ih hq hpos' hesc'
        rwa [hread, List.append_assoc] at hrest
      cases escaped with
      | true => exact taken (m.keep c p) (m.anchored_keep h c) (m.read_keep c p)
      | false =>
          rcases m.step_cases t h hpos hesc.symm with
            ⟨q, hstep, hq, hread⟩ |
            ⟨r, hstep, hc, hread, hhead, hlast, hgap, hstart, hstop⟩
          · have hrest := taken q hq hread
            simpa [run, hstep, scan_eq_consOption_none] using hrest
          · obtain ⟨inner, hinner⟩ := List.getLast?_eq_some_iff.1 hlast
            have hclosed : pending false (m.whole r) = false := by
              rw [hinner, pending_snoc_of_ne hc]
            have hnext : offset + c.utf8Size = r.span.stop + Text.byteLength (m.read m.start) := by
              have hbytes := congrArg Text.byteLength hread
              have hstart := m.byteLength_read_start
              simp only [Text.byteLength_append, Text.byteLength_cons,
                Text.byteLength_nil] at hbytes
              omega
            have hafter : pendingAfter false c = pending false (m.read m.start) := by
              rw [m.pending_read_start, pendingAfter_of_ne hc]
            have hothers := ih (m.anchored_start r.span.stop) hnext hafter
            rw [m.read_start, List.nil_append] at hothers
            have hall := region hhead hgap hclosed hstart hstop hothers
            rw [← hread, List.append_assoc] at hall
            simpa [run, hstep, scan_consOption_some] using hall

/-- The regions of a scan tile the text. -/
theorem run_tiling (t : Text) :
    Tiling m.opening m.whole (m.run false 0 m.start t).tail 0 (m.run false 0 m.start t).regions
      t := by
  have hstart := m.run_induction
    (motive := fun base s text => Tiling m.opening m.whole s.tail base s.regions text)
    (fun {base p} _ => by
      rw [m.finish_regions, m.finish_tail]
      exact .done base)
    (fun hhead hgap hclosed hstart hstop hrest => .region hhead hgap hclosed hstart hstop hrest)
    t (p := m.start) (m.anchored_start 0) m.byteLength_read_start.symm
    m.pending_read_start.symm
  rwa [m.read_start, List.nil_append] at hstart

/-- A region that never closes opens where the scan says. -/
theorem run_unterminated {t : Text} {k : Nat}
    (hk : (m.run false 0 m.start t).unterminated = some k) : StandsAt m.opening k t := by
  have hstart := m.run_induction
    (motive := fun base s text => ∀ k, s.unterminated = some k →
      ∃ before after, text = before ++ m.opening :: after ∧ k = base + Text.byteLength before)
    (fun h k hk => m.finish_unterminated h hk)
    (fun {base r s rest} _ _ _ hstart hstop hrest k hk => by
      obtain ⟨before, after, rfl, rfl⟩ := hrest k hk
      refine ⟨r.gap ++ m.whole r ++ before, after, by simp, ?_⟩
      simp only [Text.byteLength_append]
      omega)
    t (p := m.start) (m.anchored_start 0) m.byteLength_read_start.symm
    m.pending_read_start.symm
  rw [m.read_start, List.nil_append] at hstart
  obtain ⟨before, after, ht, hoffset⟩ := hstart k hk
  exact ⟨before, after, ht, by omega⟩

/-- A region that never closes stays in the tail. -/
theorem run_unterminated_of_tail {t : Text} (htail : (m.run false 0 m.start t).tail = []) :
    (m.run false 0 m.start t).unterminated = none := by
  have hstart := m.run_induction
    (motive := fun _ s _ => s.tail = [] → s.unterminated = none)
    (fun {base p} h htail => by
      rw [m.finish_tail] at htail
      cases hk : (m.finish p).unterminated with
      | none => rfl
      | some k =>
          obtain ⟨before, after, hread, -⟩ := m.finish_unterminated h hk
          rw [hread] at htail
          simp at htail)
    (fun _ _ _ _ _ hrest => hrest)
    t (p := m.start) (m.anchored_start 0) m.byteLength_read_start.symm
    m.pending_read_start.symm
  exact hstart htail

end Scanner

/-! ## Braces -/

namespace BracePhase

/-- What the machine has read since the last region. -/
def read (opening : Char) : BracePhase → Text
  | outside gap => gap.reverse
  | inside gap _ _ body => gap.reverse ++ opening :: body.reverse

/-- A region that is open stands where the machine says, and its delimiter is
not escaped. `base` is where the gap before it starts. -/
def Anchored (base : Nat) : BracePhase → Prop
  | outside _ => True
  | inside gap start _ _ =>
      start = base + Text.byteLength gap.reverse ∧ pending false gap.reverse = false

theorem read_keep (opening c : Char) (p : BracePhase) :
    (p.keep c).read opening = p.read opening ++ [c] := by
  cases p <;> simp [keep, read]

theorem anchored_keep {base : Nat} {p : BracePhase} (h : p.Anchored base) (c : Char) :
    (p.keep c).Anchored base := by
  cases p with
  | outside gap => trivial
  | inside gap start depth body => exact h

theorem read_finish (opening : Char) (p : BracePhase) :
    (p.finish opening).tail = p.read opening := by
  cases p <;> rfl

theorem finish_unterminated {opening : Char} {base k : Nat} {p : BracePhase} (h : p.Anchored base)
    (hk : (p.finish opening).unterminated = some k) :
    ∃ before after, p.read opening = before ++ opening :: after ∧
      k = base + Text.byteLength before := by
  cases p with
  | outside gap => exact absurd hk (by simp [finish])
  | inside gap start depth body =>
      obtain rfl := Option.some.inj hk
      exact ⟨gap.reverse, body.reverse, rfl, h.1⟩

/-- **What one step does.** It takes the character in, or it completes a region
with the character as its closing delimiter and forgets what it has read. -/
theorem step_cases {opening closing : Char} (hne : closing ≠ '\\') {c : Char} {base offset : Nat}
    {p : BracePhase} (h : p.Anchored base)
    (hpos : offset = base + Text.byteLength (p.read opening))
    (hpend : pending false (p.read opening) = false) :
    (∃ q, p.step opening closing offset c = (q, none) ∧ q.Anchored base ∧
      q.read opening = p.read opening ++ [c]) ∨
    (∃ r, p.step opening closing offset c = (outside [], some r) ∧ c ≠ '\\' ∧
      p.read opening ++ [c] = r.gap ++ r.enclosed opening closing ∧
      (r.enclosed opening closing).head? = some opening ∧
      (r.enclosed opening closing).getLast? = some c ∧ pending false r.gap = false ∧
      r.span.start = base + Text.byteLength r.gap ∧
      r.span.stop = r.span.start + Text.byteLength (r.enclosed opening closing)) := by
  cases p with
  | outside gap =>
      refine Or.inl ?_
      by_cases ho : c = opening
      · exact ⟨inside gap offset 0 [], by simp [step, ho], ⟨hpos, hpend⟩, by simp [read, ho]⟩
      · exact ⟨outside (c :: gap), by simp [step, ho], trivial, by simp [read]⟩
  | inside gap start depth body =>
      obtain ⟨hstart, hgap⟩ := h
      by_cases ho : c = opening
      · exact Or.inl ⟨inside gap start (depth + 1) (c :: body), by simp [step, ho],
          ⟨hstart, hgap⟩, by simp [read]⟩
      by_cases hc : c = closing
      · subst hc
        cases depth with
        | succ depth =>
            exact Or.inl ⟨inside gap start depth (c :: body), by simp [step, ho],
              ⟨hstart, hgap⟩, by simp [read]⟩
        | zero =>
            refine Or.inr ⟨⟨gap.reverse, body.reverse, ⟨start, offset + c.utf8Size⟩⟩,
              by simp [step, ho], hne, by simp [read, Region.enclosed], rfl,
              List.getLast?_concat, hgap, hstart, ?_⟩
            simp only [read, Text.byteLength_append, Text.byteLength_cons] at hpos
            simp only [Region.enclosed, Text.byteLength_append, Text.byteLength_cons,
              Text.byteLength_nil, hpos, hstart]
            omega
      · exact Or.inl ⟨inside gap start depth (c :: body), by simp [step, ho, hc],
          ⟨hstart, hgap⟩, by simp [read]⟩

end BracePhase

/-- The brace scanner. A closing delimiter must not be a backslash. -/
def braceScanner (opening : Char) {closing : Char} (hc : closing ≠ '\\') : Scanner BracePhase where
  opening := opening
  whole := Region.enclosed opening closing
  start := .outside []
  keep := BracePhase.keep
  step := fun offset c _ => BracePhase.step opening closing offset c
  finish := BracePhase.finish opening
  read := BracePhase.read opening
  Anchored := BracePhase.Anchored
  read_start := rfl
  anchored_start := fun _ => trivial
  read_keep := BracePhase.read_keep opening
  anchored_keep := BracePhase.anchored_keep
  finish_regions := fun p => by cases p <;> rfl
  finish_tail := BracePhase.read_finish opening
  finish_unterminated := BracePhase.finish_unterminated
  step_cases := fun _ => BracePhase.step_cases hc

theorem scanBraces_eq_run (opening : Char) {closing : Char} (hc : closing ≠ '\\') (t : Text) :
    scanBraces opening closing t =
      (braceScanner opening hc).run false 0 (braceScanner opening hc).start t := by
  have from_phase : ∀ escaped offset p, scanBracesFrom opening closing escaped offset p t =
      (braceScanner opening hc).run escaped offset p t := by
    induction t with
    | nil => exact fun _ _ _ => rfl
    | cons c t ih =>
        intro escaped offset p
        rw [scanBracesFrom, Scanner.run]
        simp only [ih]
        rfl
  exact from_phase false 0 (.outside [])

/-- The regions between two delimiters tile the text. -/
theorem scanBraces_tiling (opening : Char) {closing : Char} (hc : closing ≠ '\\') (t : Text) :
    Tiling opening (Region.enclosed opening closing) (scanBraces opening closing t).tail 0
      (scanBraces opening closing t).regions t := by
  rw [scanBraces_eq_run opening hc]
  exact (braceScanner opening hc).run_tiling t

theorem scanBraces_unterminated {opening closing : Char} (hc : closing ≠ '\\') {t : Text} {k : Nat}
    (hk : (scanBraces opening closing t).unterminated = some k) : StandsAt opening k t := by
  rw [scanBraces_eq_run opening hc] at hk
  exact (braceScanner opening hc).run_unterminated hk

theorem scanBraces_unterminated_of_tail {opening closing : Char} (hc : closing ≠ '\\') {t : Text}
    (htail : (scanBraces opening closing t).tail = []) :
    (scanBraces opening closing t).unterminated = none := by
  rw [scanBraces_eq_run opening hc] at htail ⊢
  exact (braceScanner opening hc).run_unterminated_of_tail htail

/-- A region that holds all of a text but its delimiters is all that there is to the
text. -/
theorem Tiling.of_texts {opening closing : Char} {inner tail : Text} {offset : Nat}
    {rs : List Region}
    (h : Tiling opening (Region.enclosed opening closing) tail offset rs
      (opening :: (inner ++ [closing])))
    (htexts : rs.map Region.text = [inner]) :
    ∃ span, rs = [⟨[], inner, span⟩] ∧ tail = [] := by
  obtain ⟨⟨gap, text, span⟩, rfl, hr⟩ := List.map_eq_singleton_iff.1 htexts
  obtain rfl : text = inner := hr
  generalize htext : opening :: (text ++ [closing]) = t at h
  cases h with
  | region _ _ _ _ _ others =>
      cases others with
      | done =>
          have hlength := congrArg List.length htext
          simp only [Region.enclosed, List.length_append, List.length_cons,
            List.length_nil] at hlength
          obtain rfl : gap = [] := List.length_eq_zero_iff.1 (by omega)
          obtain rfl : tail = [] := List.length_eq_zero_iff.1 (by omega)
          exact ⟨span, rfl, rfl⟩

theorem scanBraces_of_texts {opening closing : Char} (hc : closing ≠ '\\') {inner : Text}
    (h : (scanBraces opening closing (opening :: (inner ++ [closing]))).texts = [inner]) :
    ∃ span, scanBraces opening closing (opening :: (inner ++ [closing])) =
      ⟨[⟨[], inner, span⟩], [], none⟩ := by
  obtain ⟨span, hregions, htail⟩ := (scanBraces_tiling opening hc _).of_texts h
  have hterm := scanBraces_unterminated_of_tail hc htail
  generalize scanBraces opening closing (opening :: (inner ++ [closing])) = s
    at hregions htail hterm
  obtain ⟨regions, tail, unterminated⟩ := s
  obtain rfl : regions = _ := hregions
  obtain rfl : tail = _ := htail
  obtain rfl : unterminated = _ := hterm
  exact ⟨span, rfl⟩

/-! ## Tags -/

namespace TagPhase

/-- What the machine has read since the last fragment. -/
def read : TagPhase → Text
  | outside gap => gap.reverse
  | tag gap _ _ _ body | between gap _ _ body => gap.reverse ++ body.reverse

/-- A fragment that is open stands where the machine says, starts with an
unescaped `<`, and has that in its body. -/
def Anchored (base : Nat) : TagPhase → Prop
  | outside _ => True
  | tag gap start _ _ body | between gap start _ body =>
      start = base + Text.byteLength gap.reverse ∧ pending false gap.reverse = false ∧
        body.getLast? = some '<'

theorem read_keep (c : Char) (p : TagPhase) : (p.keep c).read = p.read ++ [c] := by
  cases p <;> simp [keep, read]

theorem getLast?_cons_of_some {c d : Char} {body : Text} (h : body.getLast? = some d) :
    (c :: body).getLast? = some d := by
  rw [List.getLast?_cons, h]
  rfl

theorem anchored_keep {base : Nat} {p : TagPhase} (h : p.Anchored base) (c : Char) :
    (p.keep c).Anchored base := by
  cases p with
  | outside gap => trivial
  | tag gap start depth kind body => exact ⟨h.1, h.2.1, getLast?_cons_of_some h.2.2⟩
  | between gap start depth body => exact ⟨h.1, h.2.1, getLast?_cons_of_some h.2.2⟩

theorem read_finish (p : TagPhase) : p.finish.tail = p.read := by
  cases p <;> rfl

theorem finish_unterminated {base k : Nat} {p : TagPhase} (h : p.Anchored base)
    (hk : p.finish.unterminated = some k) :
    ∃ before after, p.read = before ++ '<' :: after ∧ k = base + Text.byteLength before := by
  have opened : ∀ gap body : Text, body.getLast? = some '<' →
      ∃ after, gap.reverse ++ body.reverse = gap.reverse ++ '<' :: after := by
    intro gap body hlast
    rw [← List.head?_reverse] at hlast
    obtain ⟨after, hafter⟩ := List.head?_eq_some_iff.1 hlast
    exact ⟨after, by rw [hafter]⟩
  cases p with
  | outside gap => exact absurd hk (by simp [finish])
  | tag gap start depth kind body =>
      obtain rfl := Option.some.inj hk
      obtain ⟨after, hafter⟩ := opened gap body h.2.2
      exact ⟨gap.reverse, after, hafter, h.1⟩
  | between gap start depth body =>
      obtain rfl := Option.some.inj hk
      obtain ⟨after, hafter⟩ := opened gap body h.2.2
      exact ⟨gap.reverse, after, hafter, h.1⟩

/-- **What one step does.** It takes the character in, or it completes a
fragment with the character as its last and forgets what it has read. -/
theorem step_cases (filter : Option Text) (rest : Text) {c : Char} {base offset : Nat}
    {p : TagPhase} (h : p.Anchored base) (hpos : offset = base + Text.byteLength p.read)
    (hpend : pending false p.read = false) :
    (∃ q, p.step filter offset c rest = (q, none) ∧ q.Anchored base ∧ q.read = p.read ++ [c]) ∨
    (∃ r, p.step filter offset c rest = (outside [], some r) ∧ c ≠ '\\' ∧
      p.read ++ [c] = r.gap ++ r.text ∧ r.text.head? = some '<' ∧ r.text.getLast? = some c ∧
      pending false r.gap = false ∧ r.span.start = base + Text.byteLength r.gap ∧
      r.span.stop = r.span.start + Text.byteLength r.text) := by
  cases p with
  | outside gap =>
      refine Or.inl ?_
      by_cases ho : c = '<' ∧ tagKind? filter rest = some .opening
      · exact ⟨tag gap offset 0 .opening [c], by simp [step, ho], ⟨hpos, hpend, by simp [ho.1]⟩,
          by simp [read]⟩
      · exact ⟨outside (c :: gap), by simp only [step]; rw [if_neg (by simpa using ho)], trivial,
          by simp [read]⟩
  | between gap start depth body =>
      obtain ⟨hstart, hgap, hlast⟩ := h
      refine Or.inl ?_
      have hlast' := getLast?_cons_of_some (c := c) hlast
      cases hk : (if c = '<' then tagKind? filter rest else none) with
      | none =>
          exact ⟨between gap start depth (c :: body), by simp only [step, hk],
            ⟨hstart, hgap, hlast'⟩, by simp [read]⟩
      | some kind =>
          exact ⟨tag gap start depth kind (c :: body), by simp only [step, hk],
            ⟨hstart, hgap, hlast'⟩, by simp [read]⟩
  | tag gap start depth kind body =>
      obtain ⟨hstart, hgap, hlast⟩ := h
      have hlast' := getLast?_cons_of_some (c := c) hlast
      by_cases hc : c = '>'
      · cases hd : depthAfter kind body depth with
        | succ depth' =>
            exact Or.inl ⟨between gap start (depth' + 1) (c :: body), by simp [step, hc, hd],
              ⟨hstart, hgap, hlast'⟩, by simp [read]⟩
        | zero =>
            refine Or.inr ⟨⟨gap.reverse, (c :: body).reverse, ⟨start, offset + c.utf8Size⟩⟩,
              by simp [step, hc, hd], by simp [hc], by simp [read],
              by rw [List.head?_reverse]; exact hlast', by simp, hgap, hstart, ?_⟩
            simp only [read, Text.byteLength_append] at hpos
            simp only [List.reverse_cons, Text.byteLength_append, Text.byteLength_cons,
              Text.byteLength_nil, hpos, hstart]
            omega
      · exact Or.inl ⟨tag gap start depth kind (c :: body), by simp [step, hc],
          ⟨hstart, hgap, hlast'⟩, by simp [read]⟩

end TagPhase

/-- The tag scanner. -/
def tagScanner (filter : Option Text) : Scanner TagPhase where
  opening := '<'
  whole := Region.text
  start := .outside []
  keep := TagPhase.keep
  step := fun offset c rest => TagPhase.step filter offset c rest
  finish := TagPhase.finish
  read := TagPhase.read
  Anchored := TagPhase.Anchored
  read_start := rfl
  anchored_start := fun _ => trivial
  read_keep := TagPhase.read_keep
  anchored_keep := TagPhase.anchored_keep
  finish_regions := fun p => by cases p <;> rfl
  finish_tail := TagPhase.read_finish
  finish_unterminated := TagPhase.finish_unterminated
  step_cases := TagPhase.step_cases filter

theorem scanTags_eq_run (filter : Option Text) (t : Text) :
    scanTags filter t = (tagScanner filter).run false 0 (tagScanner filter).start t := by
  have from_phase : ∀ escaped offset p, scanTagsFrom filter escaped offset p t =
      (tagScanner filter).run escaped offset p t := by
    induction t with
    | nil => exact fun _ _ _ => rfl
    | cons c t ih =>
        intro escaped offset p
        rw [scanTagsFrom, Scanner.run]
        simp only [ih]
        rfl
  exact from_phase false 0 (.outside [])

/-- The tag fragments tile the text. -/
theorem scanTags_tiling (filter : Option Text) (t : Text) :
    Tiling '<' Region.text (scanTags filter t).tail 0 (scanTags filter t).regions t := by
  rw [scanTags_eq_run]
  exact (tagScanner filter).run_tiling t

theorem scanTags_unterminated {filter : Option Text} {t : Text} {k : Nat}
    (hk : (scanTags filter t).unterminated = some k) : StandsAt '<' k t := by
  rw [scanTags_eq_run] at hk
  exact (tagScanner filter).run_unterminated hk

/-- What a partial tag starts with. -/
theorem eq_of_invokedName? {after name : Text} (h : invokedName? after = some name) :
    ∃ rest, after = '_' :: name ++ rest := by
  unfold invokedName? at h
  split at h
  · next c rest =>
      split at h
      · cases h
        exact ⟨rest.dropWhile isNameChar, by simp [List.takeWhile_append_dropWhile]⟩
      · cases h
  · cases h

/-- A partial tag stands where it is said to. -/
theorem partialInvocations_holds {t : Text} {i : PartialInvocation}
    (hi : i ∈ partialInvocations t) :
    Text.Holds t 0 ⟨i.offset, i.offset + Text.byteLength i.name + 2⟩ ('<' :: '_' :: i.name) := by
  have from_offset : ∀ escaped offset, i ∈ partialInvocationsFrom escaped offset t →
      Text.Holds t offset ⟨i.offset, i.offset + Text.byteLength i.name + 2⟩
        ('<' :: '_' :: i.name) := by
    clear hi
    induction t with
    | nil => exact fun _ _ h => absurd h (by simp [partialInvocationsFrom])
    | cons c t ih =>
        intro escaped offset h
        have later : i ∈ partialInvocationsFrom (pendingAfter escaped c) (offset + c.utf8Size) t →
            Text.Holds (c :: t) offset ⟨i.offset, i.offset + Text.byteLength i.name + 2⟩
              ('<' :: '_' :: i.name) := by
          intro hlater
          have hrest : Text.Holds (c :: t) offset
              ⟨offset + c.utf8Size, offset + c.utf8Size + Text.byteLength t⟩ t :=
            ⟨[c], [], by simp, rfl⟩
          exact hrest.within (ih _ _ hlater)
        rw [partialInvocationsFrom] at h
        split at h
        · next hc =>
            split at h
            · next name hname =>
                rcases List.mem_cons.1 h with rfl | h
                · rw [Bool.and_eq_true, decide_eq_true_eq] at hc
                  obtain ⟨rfl, -⟩ := hc
                  obtain ⟨rest, rfl⟩ := eq_of_invokedName? hname
                  refine ⟨[], rest, rfl, ?_⟩
                  have hsize : Text.byteLength ('<' :: '_' :: name) =
                      Text.byteLength name + 2 := by
                    rw [Text.byteLength_cons, Text.byteLength_cons, Nat.add_comm _ 2,
                      ← Nat.add_assoc]
                    rfl
                  rw [hsize]
                  rfl
                · exact later h
            · exact later h
        · exact later h
  exact from_offset false 0 hi

/-- A partial tag opens where it is said to. -/
theorem partialInvocations_standsAt {t : Text} {i : PartialInvocation}
    (hi : i ∈ partialInvocations t) : StandsAt '<' i.offset t := by
  obtain ⟨before, after, ht, hspan⟩ := partialInvocations_holds hi
  refine ⟨before, '_' :: i.name ++ after, by simpa using ht, ?_⟩
  rw [← Nat.zero_add (Text.byteLength before)]
  exact (Span.mk.inj hspan).1.symm

end Stencil.Markup
