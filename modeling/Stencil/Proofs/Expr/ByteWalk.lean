import Stencil.Proofs.Expr.Bytes
import Stencil.Proofs.Expr.Walk

/-!
# The walk over code in bytes

The walk that looks for markup can go over the bytes of a source: one byte at a time, two
from a backslash, and in one go over a literal, whose end is looked for in the bytes behind
it, and over a fragment. In general it stops between the bytes of a character. In a source
that can be read it does not, for outside of literals there are single bytes only; there it
stops where the walk over the characters does (`stops_of_paced`), and so it keeps in step
with the tokens (`embed_of_lex`).
-/

namespace Stencil.Expr

open Context (utf8 utf8_append utf8_cons length_utf8)
open Markup

variable {t rest body after : Text} {c : Char} {layer : Layer} {offset : Nat}
  {lexemes : List Lexeme}

/-- How many bytes follow the `<` of the fragment that stands at a byte of a text, if one
does. -/
def fragmentFrom : Text → Nat → Option Nat
  | t, 0 => (fragmentAt? t).map fun fragment => Text.byteLength fragment - 1
  | [], _ + 1 => none
  | c :: t, n + 1 => if c.utf8Size ≤ n + 1 then fragmentFrom t (n + 1 - c.utf8Size) else none

theorem fragmentFrom_behind (before after : Text) :
    fragmentFrom (before ++ after) (Text.byteLength before) =
      (fragmentAt? after).map fun fragment => Text.byteLength fragment - 1 := by
  induction before with
  | nil => rw [List.nil_append, Text.byteLength_nil, fragmentFrom]
  | cons c before ih =>
      obtain ⟨n, hn⟩ := Nat.exists_eq_add_one.2 c.utf8Size_pos
      have hsize : Text.byteLength (c :: before) = n + Text.byteLength before + 1 := by
        rw [Text.byteLength_cons]
        omega
      have hrest : n + Text.byteLength before + 1 - c.utf8Size = Text.byteLength before := by omega
      rw [List.cons_append, hsize, fragmentFrom, if_pos (by omega), hrest, ih]

namespace Bytes

/-! ## The walk -/

/-- The index behind a literal that opens at the index `i`, and the end of the bytes if it is
not closed. -/
def behindLiteral (bs : List UInt8) (i : Nat) : Option Nat → Nat
  | some n => i + n + 2
  | none => bs.length

/-- Where the walk goes from the index `i`, at which the byte `b` stands; `fragment` tells how
many bytes follow the `<` of a fragment at an index. -/
def next (fragment : Nat → Option Nat) (bs : List UInt8) (i : Nat) (b : UInt8) :
    Except Fault Nat :=
  if b = '\''.toUInt8 ∨ b = '"'.toUInt8 then
    .ok (behindLiteral bs i (quotedLength b (bs.drop (i + 1)) 0))
  else if b = '\x60'.toUInt8 then
    if isBoundary bs (i + 1) then
      (templateLength (bs.drop (i + 1)) 0).map (behindLiteral bs i)
    else .error .slice
  else if b = '\\'.toUInt8 then .ok (i + 2)
  else if b = '<'.toUInt8 then .ok (i + 1 + (fragment i).getD 0)
  else .ok (i + 1)

theorem lt_behindLiteral {bs : List UInt8} {i : Nat} (hi : i < bs.length) (found : Option Nat) :
    i < behindLiteral bs i found := by
  cases found with
  | none => exact hi
  | some n =>
      rw [behindLiteral]
      omega

theorem lt_next {fragment : Nat → Option Nat} {bs : List UInt8} {i j : Nat} {b : UInt8}
    (hi : i < bs.length) (h : next fragment bs i b = .ok j) : i < j := by
  unfold next at h
  split at h
  · obtain rfl := Except.ok.inj h
    exact lt_behindLiteral hi _
  split at h
  · split at h
    · cases hlength : templateLength (bs.drop (i + 1)) 0 with
      | error f =>
          rw [hlength] at h
          cases h
      | ok found =>
          rw [hlength] at h
          obtain rfl := Except.ok.inj h
          exact lt_behindLiteral hi found
    · cases h
  split at h
  · obtain rfl := Except.ok.inj h
    omega
  split at h
  · obtain rfl := Except.ok.inj h
    omega
  · obtain rfl := Except.ok.inj h
    omega

/-- The indices at which the walk stops, from the index `i` on. -/
def stops (fragment : Nat → Option Nat) (bs : List UInt8) (i : Nat) :
    Except Fault (List Nat) :=
  if h : i < bs.length then
    match _ : next fragment bs i bs[i] with
    | .ok j => (stops fragment bs j).map (List.cons i)
    | .error f => .error f
  else .ok [i]
termination_by bs.length - i
decreasing_by
  have := lt_next h (by assumption)
  omega

variable {fragment : Nat → Option Nat} {pre : List UInt8}

theorem stops_end (fragment : Nat → Option Nat) (bs : List UInt8) :
    stops fragment bs bs.length = .ok [bs.length] := by
  rw [stops, dif_neg (Nat.lt_irrefl _)]

theorem stops_next {bs : List UInt8} {i j : Nat} {b : UInt8} {is : List Nat}
    (hb : bs[i]? = some b) (hnext : next fragment bs i b = .ok j)
    (h : stops fragment bs j = .ok is) : stops fragment bs i = .ok (i :: is) := by
  obtain ⟨hi, rfl⟩ := List.getElem?_eq_some_iff.1 hb
  rw [stops, dif_pos hi]
  split
  · next heq =>
      rw [hnext] at heq
      obtain rfl := Except.ok.inj heq
      rw [h]
      rfl
  · next heq =>
      rw [hnext] at heq
      cases heq

/-! ## The walk over a source -/

/-- Of a text that starts at an index the fragments are told where they stand. -/
def Finds (fragment : Nat → Option Nat) (start : Nat) (t : Text) : Prop :=
  ∀ before after, t = before ++ after → fragment (start + Text.byteLength before) =
    (fragmentAt? after).map fun f => Text.byteLength f - 1

theorem Finds.behind {start : Nat} {w : Text} (h : Finds fragment start (w ++ t)) :
    Finds fragment (start + Text.byteLength w) t := by
  intro before after ht
  rw [Nat.add_assoc, ← Text.byteLength_append]
  exact h (w ++ before) after (by rw [ht, List.append_assoc])

theorem next_single (h : Single c t) (hfragment : Finds fragment pre.length (c :: t)) :
    next fragment (pre ++ utf8 (c :: t)) pre.length c.toUInt8 = .ok (pre.length + 1) := by
  have hmem : c.toUInt8 ∈ String.utf8EncodeChar c := by
    rw [encode_ascii h.ascii]
    exact List.mem_cons_self
  have hbyte : ∀ d : Char, d.toNat < 128 → c ≠ d → c.toUInt8 ≠ d.toUInt8 :=
    fun d hd hne => ne_toUInt8 hd hne hmem
  have hsingle : c ≠ '\'' := by
    rintro rfl
    cases h.noLiteral
  have hdouble : c ≠ '"' := by
    rintro rfl
    cases h.noLiteral
  have hbacktick : c ≠ '\x60' := by
    rintro rfl
    cases h.noLiteral
  have hnone : fragment pre.length = none := by
    have hstart := hfragment [] (c :: t) rfl
    rw [h.noFragment] at hstart
    exact hstart
  rw [next, if_neg (fun hquote => hquote.elim (hbyte _ (by decide) hsingle)
      (hbyte _ (by decide) hdouble)),
    if_neg (hbyte _ (by decide) hbacktick), if_neg (hbyte _ (by decide) h.noEscape), hnone]
  split <;> rfl

theorem literalLayer?_cases (h : literalLayer? c = some layer) :
    (c = '\'' ∨ c = '"') ∧ layer = .quoted c ∨ c = '\x60' ∧ layer = .template := by
  unfold literalLayer? at h
  split at h
  · next hquote =>
      rw [Bool.or_eq_true, decide_eq_true_eq, decide_eq_true_eq] at hquote
      exact .inl ⟨hquote, (Option.some.inj h).symm⟩
  split at h
  · next hbacktick => exact .inr ⟨hbacktick, (Option.some.inj h).symm⟩
  · cases h

/-- What opens a literal and what ends it are one byte each. -/
theorem ascii_of_literalLayer? (h : literalLayer? c = some layer) :
    c.toNat < 128 ∧ c.utf8Size = 1 ∧ layer.closer.utf8Size = 1 := by
  rcases literalLayer?_cases h with ⟨rfl | rfl, rfl⟩ | ⟨rfl, rfl⟩ <;> decide

/-- The end of a literal is found in the bytes behind its quote. -/
theorem next_quote (fragment : Nat → Option Nat) (pre : List UInt8)
    (hlayer : literalLayer? c = some layer) (hclosing : closing layer rest = some (body, after)) :
    next fragment (pre ++ utf8 (c :: rest)) pre.length c.toUInt8 =
      .ok (pre.length + Text.byteLength body + 2) := by
  obtain ⟨hascii, -, -⟩ := ascii_of_literalLayer? hlayer
  have hdrop : (pre ++ c.toUInt8 :: utf8 rest).drop (pre.length + 1) = utf8 rest := drop_at 0
  have hbehind : endAt 0 (closing layer rest) = some (Text.byteLength body) := by
    rw [hclosing, endAt, Option.map_some, Nat.zero_add]
  rw [utf8_cons_ascii hascii]
  rcases literalLayer?_cases hlayer with ⟨hquote, rfl⟩ | ⟨rfl, rfl⟩
  · have hescape : c ≠ '\\' := by rcases hquote with rfl | rfl <;> decide
    have hbyte : c.toUInt8 = '\''.toUInt8 ∨ c.toUInt8 = '"'.toUInt8 :=
      hquote.imp (congrArg Char.toUInt8) (congrArg Char.toUInt8)
    have hend := Except.ok.inj (agrees_quotedLength hascii hescape rest).alone
    rw [next, if_pos hbyte, hdrop, hend, hbehind, behindLiteral]
  · have hslice : isBoundary (pre ++ utf8 ('\x60' :: rest)) (pre.length + 1) = true :=
      isBoundary_behind pre ['\x60'] rest
    rw [utf8_cons_ascii hascii] at hslice
    have hend := templateLength_utf8 rest
    rw [hbehind] at hend
    rw [next, if_neg (by decide), if_pos rfl, if_pos hslice, hdrop, hend]
    rfl

/-- A step over a text that starts with an ASCII character. -/
theorem stops_step {w t : Text} {is : List Nat} (hascii : c.toNat < 128)
    (hnext : next fragment (pre ++ utf8 (c :: w ++ t)) pre.length c.toUInt8 =
      .ok (pre.length + Text.byteLength (c :: w)))
    (h : stops fragment (pre ++ utf8 (c :: w) ++ utf8 t) (pre ++ utf8 (c :: w)).length = .ok is) :
    stops fragment (pre ++ utf8 (c :: w ++ t)) pre.length = .ok (pre.length :: is) := by
  rw [List.append_assoc, ← utf8_append, List.length_append, length_utf8] at h
  refine stops_next ?_ hnext h
  rw [List.cons_append, utf8_cons_ascii hascii]
  simp

theorem stops_singles {w : Text} {ss : List Step} (hw : Singles w t)
    (hfragment : Finds fragment pre.length (w ++ t))
    (h : stops fragment (pre ++ utf8 w ++ utf8 t) (pre ++ utf8 w).length =
      .ok (stopsFrom (pre ++ utf8 w).length ss)) :
    stops fragment (pre ++ utf8 (w ++ t)) pre.length =
      .ok (stopsFrom pre.length (w.map (fun c => .keep [c]) ++ ss)) := by
  induction w generalizing pre with
  | nil => simpa using h
  | cons c w ih =>
      obtain ⟨hc, hw⟩ := hw
      have hone : Text.byteLength [c] = 1 := hc.utf8Size
      have hlength : (pre ++ utf8 [c]).length = pre.length + Text.byteLength [c] := by simp
      have hbehind : Finds fragment (pre ++ utf8 [c]).length (w ++ t) := by
        rw [hlength]
        exact Finds.behind (w := [c]) hfragment
      have hrest := ih hw hbehind (by simpa [utf8_cons] using h)
      rw [hlength] at hrest
      refine stops_step (w := []) hc.ascii ?_ ?_
      · rw [hone]
        exact next_single hc hfragment
      · rw [hlength]
        exact hrest

/-- **The walk over the bytes of a source stops where the walk over its characters stops.** -/
theorem stops_of_paced (h : Paced offset t lexemes) (pre : List UInt8)
    (hfragment : Finds fragment pre.length t) :
    stops fragment (pre ++ utf8 t) pre.length = .ok (stopsFrom pre.length (steps t)) := by
  induction h generalizing pre with
  | nil =>
      rw [steps, stopsFrom]
      simpa using stops_end fragment pre
  | @blank _ w t _ hw _ ih | @plain _ w t _ _ _ hw _ ih =>
      rw [steps_singles hw]
      have hlength : (pre ++ utf8 w).length = pre.length + Text.byteLength w := by simp
      apply stops_singles hw hfragment
      apply ih
      rw [hlength]
      exact hfragment.behind
  | @literal _ c layer rest body after _ _ _ hlayer hclosing _ ih =>
      obtain ⟨hascii, hopener, hcloser⟩ := ascii_of_literalLayer? hlayer
      have hnext := next_quote fragment pre hlayer hclosing
      rw [steps_literal hlayer hclosing, stopsFrom, Step.keep]
      obtain rfl := closing_eq hclosing
      have htext : c :: (body ++ layer.closer :: after) =
          c :: (body ++ [layer.closer]) ++ after := by simp
      have hsize : Text.byteLength (c :: (body ++ [layer.closer])) = Text.byteLength body + 2 := by
        rw [Text.byteLength_cons, Text.byteLength_append, Text.byteLength_cons, hopener, hcloser,
          Text.byteLength_nil]
        omega
      have hlength : (pre ++ utf8 (c :: (body ++ [layer.closer]))).length =
          pre.length + Text.byteLength (c :: (body ++ [layer.closer])) := by simp
      rw [htext] at hnext hfragment ⊢
      refine stops_step hascii ?_ ?_
      · rw [hsize, hnext, Nat.add_assoc]
      · have hrest := ih (pre ++ utf8 (c :: (body ++ [layer.closer]))) (by
          rw [hlength]
          exact hfragment.behind)
        rw [hrest, hlength]
        rfl

end Bytes

/-! ## Sources without fragments -/

theorem stopsFrom_add (base start : Nat) (ss : List Step) :
    stopsFrom (base + start) ss = (stopsFrom start ss).map (base + ·) := by
  induction ss generalizing start with
  | nil => rfl
  | cons s ss ih => rw [stopsFrom, stopsFrom, List.map_cons, Nat.add_assoc, ih]

/-- The stops of a source that starts at byte `base`. -/
theorem mem_stopsFrom_iff {base o : Nat} :
    o ∈ stopsFrom base (steps t) ↔ ∃ i ∈ stops t, base + i = o := by
  have h := stopsFrom_add base 0 (steps t)
  rw [Nat.add_zero] at h
  rw [h, List.mem_map]
  rfl

/-- **Where no fragment stands at a `<`, a source is embedded as it is**, whatever markup is in
its string and template literals. No slice fails in the walk over its bytes, which stops where
the walk over its characters does: at both ends of each token, and everywhere but inside a
literal. -/
theorem embed_of_lex {source : Text} {base : Nat} {lexemes : List Lexeme}
    (h : lex source base = .ok lexemes) (hfragment : Fragmentless base source lexemes) :
    embed source = source ∧
      Bytes.stops (fragmentFrom source) (utf8 source) 0 = .ok (stops source) ∧
      (∀ l ∈ lexemes, ∃ start ∈ stops source, ∃ stop ∈ stops source,
        l.span = ⟨base + start, base + stop⟩) ∧
      ∀ o, o ∈ stops source ↔ o ≤ Text.byteLength source ∧ ¬ InLiteral lexemes (base + o) := by
  have hpaced := paced_of_lexFrom h hfragment
  refine ⟨?_, ?_, ?_, ?_⟩
  · have hwritten : (steps source).map Step.written = (steps source).map Step.taken :=
      List.map_congr_left hpaced.keeps
    rw [embed_eq_steps, List.flatMap_def, hwritten, ← List.flatMap_def, taken_steps]
  · refine Bytes.stops_of_paced hpaced [] ?_
    rintro before after rfl
    rw [List.length_nil, Nat.zero_add]
    exact fragmentFrom_behind before after
  · intro l hl
    obtain ⟨hstart, hstop⟩ := hpaced.ends_mem l hl
    obtain ⟨start, hmem, hstart⟩ := mem_stopsFrom_iff.1 hstart
    obtain ⟨stop, hmem', hstop⟩ := mem_stopsFrom_iff.1 hstop
    exact ⟨start, hmem, stop, hmem', by rw [hstart, hstop]⟩
  · intro o
    have hmem : o ∈ stops source ↔ base + o ∈ stopsFrom base (steps source) := by
      rw [mem_stopsFrom_iff]
      constructor
      · exact fun ho => ⟨o, ho, rfl⟩
      · rintro ⟨i, hi, heq⟩
        rwa [← Nat.add_left_cancel heq]
    rw [hmem, hpaced.mem_stops_iff]
    constructor
    · rintro ⟨-, hle, hout⟩
      exact ⟨Nat.le_of_add_le_add_left hle, hout⟩
    · rintro ⟨hle, hout⟩
      exact ⟨Nat.le_add_right _ _, Nat.add_le_add_left hle _, hout⟩

/-- Markup in a string and in a template, with a quoted brace in an interpolation and a
backslash before a character of two bytes; and a `<` that starts no fragment. -/
def mixedSource : Text :=
  "'<li>' + `<b>\\é$\x7b\"\x7d<i>\"\x7d</b>` + (a<b)".toList

theorem embed_of_lex_mixed :
    ∃ lexemes, lex mixedSource 3 = .ok lexemes ∧ Fragmentless 3 mixedSource lexemes ∧
      embed mixedSource = mixedSource ∧
      Bytes.stops (fragmentFrom mixedSource) (utf8 mixedSource) 0 = .ok (stops mixedSource) ∧
      stops mixedSource = [0, 6, 7, 8, 9, 30, 31, 32, 33, 34, 35, 36, 37, 38] := by
  have hread : (lex mixedSource 3).toOption.any (fun lexemes => lexemes.all fun l =>
      l.token.describe ≠ (Token.operator .lt).describe || l.span.start = 3 + 35) = true := by
    decide +kernel
  have hsplit : mixedSource = mixedSource.take 34 ++ "<b)".toList := by decide +kernel
  have hlength : Text.byteLength (mixedSource.take 34) = 35 := by decide +kernel
  have hstops : stops mixedSource =
      [0, 6, 7, 8, 9, 30, 31, 32, 33, 34, 35, 36, 37, 38] := by decide +kernel
  cases hlex : lex mixedSource 3 with
  | error e =>
      rw [hlex] at hread
      cases hread
  | ok lexemes =>
      rw [hlex] at hread
      have hfragment : Fragmentless 3 mixedSource lexemes := by
        intro l hl htoken before after hsource hstart
        have hl := List.all_eq_true.1 hread l hl
        simp only [htoken, ne_eq, not_true_eq_false, decide_false, Bool.false_or,
          decide_eq_true_eq] at hl
        rw [hsplit] at hsource
        obtain ⟨-, rfl⟩ := Text.append_inj_of_byteLength hsource (by omega)
        rfl
      obtain ⟨hembed, hbytes, -⟩ := embed_of_lex hlex hfragment
      exact ⟨lexemes, rfl, hfragment, hembed, hbytes, hstops⟩

end Stencil.Expr
