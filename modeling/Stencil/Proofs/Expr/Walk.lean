import Stencil.Proofs.Expr.Embedding
import Stencil.Proofs.Expr.Lexemes
import Stencil.Proofs.Text.Utf8

/-!
# The walk over code

Embedding walks over a source and knows only quotes, backticks, backslashes and the `<` of a
fragment. `steps` are what it takes at a time, with what is written for it: a literal is one
step, and so is a fragment; other characters are taken one by one (`embed_eq_steps`).

In a source that can be read, and in which no fragment stands at a `<`, the walk keeps in
step with the tokens (`paced_of_lexFrom`): a literal token is one step, and any other token is
as many as it has characters. So no step changes what it takes (`Paced.keeps`), the walk stops
at both ends of each token (`Paced.ends_mem`), and it stops everywhere but inside a literal
(`Paced.mem_stops_iff`).
-/

namespace Stencil.Expr

open Markup

/-! ## Steps -/

/-- A step of the walk. -/
structure Step where
  /-- What is taken off the source. -/
  taken : Text
  /-- What is written for it. -/
  written : Text
deriving DecidableEq

/-- The step that leaves a text as it is. -/
def Step.keep (t : Text) : Step :=
  ⟨t, t⟩

/-- The step that turns a fragment into a template. -/
def Step.turn (fragment : Text) : Step :=
  ⟨fragment,
    templateOf ((scanExpressions fragment).texts.map embed) (scanExpressions fragment)⟩

/-- The steps of the walk over a source. -/
def steps (t : Text) : List Step :=
  match t with
  | [] => []
  | c :: rest =>
      match literalLayer? c with
      | some layer =>
          match _ : closing layer rest with
          | some (body, after) => .keep (c :: body ++ [layer.closer]) :: steps after
          | none => [.keep (c :: rest)]
      | none =>
          if c = '\\' then
            match rest with
            | [] => [.keep [c]]
            | d :: rest => .keep [c, d] :: steps rest
          else
            match _ : fragmentAt? (c :: rest) with
            | some fragment => .turn fragment :: steps ((c :: rest).drop fragment.length)
            | none => .keep [c] :: steps rest
termination_by t.length
decreasing_by
  · have := length_of_closing (by assumption)
    simp only [List.length_cons]
    omega
  · simp only [List.length_cons]
    omega
  · obtain ⟨hpos, hle⟩ := length_of_fragmentAt? (by assumption)
    simp only [List.length_drop]
    omega
  · simp

variable {t rest body after : Text} {c : Char} {layer : Layer}

theorem steps_literal (hlayer : literalLayer? c = some layer)
    (hclosing : closing layer rest = some (body, after)) :
    steps (c :: rest) = .keep (c :: body ++ [layer.closer]) :: steps after := by
  rw [steps.eq_def]
  dsimp only
  rw [hlayer]
  dsimp only
  split
  · next heq =>
      rw [hclosing] at heq
      cases heq
      rfl
  · next heq =>
      rw [hclosing] at heq
      cases heq

theorem steps_char (hlayer : literalLayer? c = none) (hescape : c ≠ '\\')
    (hfragment : fragmentAt? (c :: rest) = none) :
    steps (c :: rest) = .keep [c] :: steps rest := by
  rw [steps.eq_def]
  dsimp only
  rw [hlayer]
  dsimp only
  rw [if_neg hescape]
  split
  · next heq =>
      rw [hfragment] at heq
      cases heq
  · rfl

/-- A fragment stands at the start of its text. -/
theorem exists_of_fragmentAt? {fragment : Text} (h : fragmentAt? t = some fragment) :
    ∃ after, t = fragment ++ after := by
  unfold fragmentAt? at h
  split at h
  · next rest =>
      split at h
      · split at h
        · next r rs heq =>
            split at h
            · next hstart =>
                obtain rfl := Option.some.inj h
                have hr : r ∈ (scanTags none ('<' :: rest)).regions := by
                  rw [heq]
                  exact List.mem_cons_self
                obtain ⟨before, after, ht, hspan⟩ := (scanTags_tiling none _).holds hr
                rw [hspan, Nat.zero_add] at hstart
                obtain rfl := Text.eq_nil_of_byteLength hstart
                exact ⟨after, ht⟩
            · cases h
        · cases h
      · cases h
  · cases h

/-- The steps take the source. -/
theorem taken_steps (t : Text) : (steps t).flatMap Step.taken = t := by
  fun_induction steps t with
  | case1 => rfl
  | case2 c rest layer hlayer body after hclosing ih =>
      have hrest := closing_eq hclosing
      rw [List.flatMap_cons, ih, hrest]
      simp [Step.keep]
  | case3 c rest layer hlayer hclosing => simp [Step.keep]
  | case4 hlayer => rfl
  | case5 d rest hlayer ih =>
      rw [List.flatMap_cons, ih]
      rfl
  | case6 c rest hlayer hescape fragment hfragment ih =>
      obtain ⟨after, hafter⟩ := exists_of_fragmentAt? hfragment
      rw [List.flatMap_cons, ih, hafter, List.drop_left]
      rfl
  | case7 c rest hlayer hescape hfragment ih =>
      rw [List.flatMap_cons, ih]
      rfl

/-- **Embedding writes what the steps write.** -/
theorem embed_eq_steps (t : Text) : embed t = (steps t).flatMap Step.written := by
  fun_induction steps t with
  | case1 => rfl
  | case2 c rest layer hlayer body after hclosing ih =>
      have hlength := length_of_closing hclosing
      have hafter : embedWith (c :: rest).length after = embed after := by
        apply embedWith_eq_embed
        simp only [List.length_cons]
        omega
      rw [List.flatMap_cons, ← ih, ← hafter]
      simp [embed, embedWith, hlayer, hclosing, Step.keep]
  | case3 c rest layer hlayer hclosing => simp [embed, embedWith, hlayer, hclosing, Step.keep]
  | case4 hlayer => rfl
  | case5 d rest hlayer ih =>
      have hrest : embedWith ('\\' :: d :: rest).length rest = embed rest := by
        apply embedWith_eq_embed
        simp only [List.length_cons]
        omega
      rw [List.flatMap_cons, ← ih, ← hrest]
      simp [embed, embedWith, hlayer, Step.keep]
  | case6 c rest hlayer hescape fragment hfragment ih =>
      obtain ⟨hpos, hle⟩ := length_of_fragmentAt? hfragment
      have hafter : embedWith (c :: rest).length ((c :: rest).drop fragment.length) =
          embed ((c :: rest).drop fragment.length) := by
        apply embedWith_eq_embed
        simp only [List.length_drop]
        omega
      have htexts : (scanExpressions fragment).texts.map (embedWith (c :: rest).length) =
          (scanExpressions fragment).texts.map embed := by
        apply List.map_congr_left
        intro text htext
        have hlt := length_lt_of_mem_texts htext
        exact embedWith_eq_embed (by omega)
      rw [List.flatMap_cons, ← ih, ← hafter]
      simp only [Step.turn]
      rw [← htexts]
      simp [embed, embedWith, hlayer, hescape, hfragment]
  | case7 c rest hlayer hescape hfragment ih =>
      have hrest : embedWith (c :: rest).length rest = embed rest :=
        embedWith_eq_embed (Nat.le_succ _)
      rw [List.flatMap_cons, ← ih, ← hrest]
      simp [embed, embedWith, hlayer, hescape, hfragment, Step.keep]

/-! ## Stops -/

/-- Where the walk stands before each step and after the last, if it starts at byte `start`. -/
def stopsFrom (start : Nat) : List Step → List Nat
  | [] => [start]
  | s :: ss => start :: stopsFrom (start + Text.byteLength s.taken) ss

/-- The bytes of a source at which the walk stops. -/
def stops (t : Text) : List Nat :=
  stopsFrom 0 (steps t)

theorem start_mem_stopsFrom (start : Nat) (ss : List Step) : start ∈ stopsFrom start ss := by
  cases ss with
  | nil => exact List.mem_cons_self
  | cons s ss => exact List.mem_cons_self

/-! ## Tokens to the walk -/

/-- A literal token. -/
def Token.isLiteral : Token → Bool
  | .string _ | .template _ => true
  | _ => false

/-- The walk takes a character alone, and it is one byte. -/
structure Single (c : Char) (rest : Text) : Prop where
  ascii : c.toNat < 128
  noLiteral : literalLayer? c = none
  noEscape : c ≠ '\\'
  noFragment : fragmentAt? (c :: rest) = none

/-- The walk takes the characters of a text one by one, if another text follows. -/
def Singles : (w t : Text) → Prop
  | [], _ => True
  | c :: w, t => Single c (w ++ t) ∧ Singles w t

/-- The walk keeps in step with the tokens of a text that stands at an offset. -/
inductive Paced : (offset : Nat) → Text → List Lexeme → Prop
  | nil {offset : Nat} : Paced offset [] []
  | blank {offset : Nat} {w t : Text} {lexemes : List Lexeme} :
      Singles w t → Paced (offset + Text.byteLength w) t lexemes → Paced offset (w ++ t) lexemes
  | plain {offset : Nat} {w t : Text} {token : Token} {lexemes : List Lexeme} :
      token.isLiteral = false → Singles w t → Paced (offset + Text.byteLength w) t lexemes →
      Paced offset (w ++ t) (⟨token, ⟨offset, offset + Text.byteLength w⟩⟩ :: lexemes)
  | literal {offset : Nat} {c : Char} {layer : Layer} {rest body after : Text} {token : Token}
      {lexemes : List Lexeme} :
      token.isLiteral = true → literalLayer? c = some layer →
      closing layer rest = some (body, after) →
      Paced (offset + Text.byteLength (c :: body ++ [layer.closer])) after lexemes →
      Paced offset (c :: rest)
        (⟨token, ⟨offset, offset + Text.byteLength (c :: body ++ [layer.closer])⟩⟩ :: lexemes)

variable {offset : Nat} {w : Text} {lexemes : List Lexeme} {ss : List Step}

theorem Single.utf8Size (h : Single c rest) : c.utf8Size = 1 :=
  Context.utf8Size_of_ascii h.ascii

theorem steps_singles (h : Singles w t) :
    steps (w ++ t) = w.map (fun c => .keep [c]) ++ steps t := by
  induction w with
  | nil => rfl
  | cons c w ih =>
      obtain ⟨hc, hw⟩ := h
      rw [List.cons_append, steps_char hc.noLiteral hc.noEscape hc.noFragment, ih hw]
      rfl

/-- The walk stops before each of the characters that it takes one by one. -/
theorem mem_stopsFrom_singles (h : Singles w t) {start o : Nat} :
    o ∈ stopsFrom start (w.map (fun c => .keep [c]) ++ ss) ↔
      start ≤ o ∧ o < start + Text.byteLength w ∨
        o ∈ stopsFrom (start + Text.byteLength w) ss := by
  induction w generalizing start with
  | nil =>
      constructor
      · exact .inr
      · rintro (⟨hle, hlt⟩ | hmem)
        · exact absurd hlt (Nat.not_lt.2 hle)
        · exact hmem
  | cons c w ih =>
      obtain ⟨hc, hw⟩ := h
      have hone : Text.byteLength [c] = 1 := hc.utf8Size
      have hsize : Text.byteLength (c :: w) = 1 + Text.byteLength w := by
        rw [Text.byteLength_cons, hc.utf8Size]
      rw [List.map_cons, List.cons_append, stopsFrom, List.mem_cons, Step.keep, hone, ih hw, hsize,
        Nat.add_assoc]
      constructor
      · rintro (rfl | ⟨hle, hlt⟩ | hmem)
        · exact .inl ⟨Nat.le_refl _, by omega⟩
        · exact .inl ⟨by omega, hlt⟩
        · exact .inr hmem
      · rintro (⟨hle, hlt⟩ | hmem)
        · by_cases heq : o = start
          · exact .inl heq
          · exact .inr (.inl ⟨by omega, hlt⟩)
        · exact .inr (.inr hmem)

/-- An offset inside a literal token, and at none of its ends. -/
def InLiteral (lexemes : List Lexeme) (o : Nat) : Prop :=
  ∃ l ∈ lexemes, l.token.isLiteral = true ∧ l.span.start < o ∧ o < l.span.stop

theorem not_inLiteral_of_le (h : ∀ l ∈ lexemes, offset ≤ l.span.start) {o : Nat}
    (ho : o ≤ offset) : ¬ InLiteral lexemes o := by
  rintro ⟨l, hl, -, hlt, -⟩
  have := h l hl
  omega

theorem inLiteral_cons {l : Lexeme} (hl : l.token.isLiteral = true) {o : Nat} :
    InLiteral (l :: lexemes) o ↔ l.span.start < o ∧ o < l.span.stop ∨ InLiteral lexemes o := by
  simp [InLiteral, hl]

namespace Paced

theorem start_le (h : Paced offset t lexemes) : ∀ l ∈ lexemes, offset ≤ l.span.start := by
  induction h with
  | nil => simp
  | blank _ _ ih => exact fun l hl => Nat.le_of_add_right_le (ih l hl)
  | plain _ _ _ ih | literal _ _ _ _ ih =>
      refine List.forall_mem_cons.2 ⟨Nat.le_refl _, ?_⟩
      exact fun l hl => Nat.le_of_add_right_le (ih l hl)

/-- No step changes what it takes. -/
theorem keeps (h : Paced offset t lexemes) : ∀ s ∈ steps t, s.written = s.taken := by
  induction h with
  | nil => simp [steps]
  | blank hw _ ih | plain _ hw _ ih =>
      rw [steps_singles hw]
      refine List.forall_mem_append.2 ⟨?_, ih⟩
      intro s hs
      obtain ⟨c, -, rfl⟩ := List.mem_map.1 hs
      rfl
  | literal _ hlayer hclosing _ ih =>
      rw [steps_literal hlayer hclosing]
      exact List.forall_mem_cons.2 ⟨rfl, ih⟩

/-- The walk stops where a token starts and where it stops. -/
theorem ends_mem (h : Paced offset t lexemes) :
    ∀ l ∈ lexemes, l.span.start ∈ stopsFrom offset (steps t) ∧
      l.span.stop ∈ stopsFrom offset (steps t) := by
  induction h with
  | nil => simp
  | blank hw _ ih =>
      rw [steps_singles hw]
      intro l hl
      exact ⟨(mem_stopsFrom_singles hw).2 (.inr (ih l hl).1),
        (mem_stopsFrom_singles hw).2 (.inr (ih l hl).2)⟩
  | plain _ hw _ ih =>
      rw [steps_singles hw]
      refine List.forall_mem_cons.2 ⟨⟨start_mem_stopsFrom _ _, ?_⟩, ?_⟩
      · exact (mem_stopsFrom_singles hw).2 (.inr (start_mem_stopsFrom _ _))
      · intro l hl
        exact ⟨(mem_stopsFrom_singles hw).2 (.inr (ih l hl).1),
          (mem_stopsFrom_singles hw).2 (.inr (ih l hl).2)⟩
  | literal _ hlayer hclosing _ ih =>
      rw [steps_literal hlayer hclosing, stopsFrom]
      refine List.forall_mem_cons.2 ⟨⟨List.mem_cons_self, ?_⟩, ?_⟩
      · exact List.mem_cons_of_mem _ (start_mem_stopsFrom _ _)
      · intro l hl
        exact ⟨List.mem_cons_of_mem _ (ih l hl).1, List.mem_cons_of_mem _ (ih l hl).2⟩

/-- Past characters that are taken one by one, the walk stops as it does behind them. -/
theorem mem_singles_iff (hw : Singles w t)
    (h : Paced (offset + Text.byteLength w) t lexemes) {o : Nat}
    (ih : o ∈ stopsFrom (offset + Text.byteLength w) (steps t) ↔
      offset + Text.byteLength w ≤ o ∧
        o ≤ offset + Text.byteLength w + Text.byteLength t ∧ ¬ InLiteral lexemes o) :
    o ∈ stopsFrom offset (steps (w ++ t)) ↔ offset ≤ o ∧
      o ≤ offset + Text.byteLength (w ++ t) ∧ ¬ InLiteral lexemes o := by
  rw [steps_singles hw, mem_stopsFrom_singles hw, ih, Text.byteLength_append, ← Nat.add_assoc]
  constructor
  · rintro (⟨hle, hlt⟩ | ⟨hle, hend, hout⟩)
    · exact ⟨hle, by omega, not_inLiteral_of_le h.start_le (Nat.le_of_lt hlt)⟩
    · exact ⟨by omega, hend, hout⟩
  · rintro ⟨hle, hend, hout⟩
    by_cases hlt : o < offset + Text.byteLength w
    · exact .inl ⟨hle, hlt⟩
    · exact .inr ⟨Nat.not_lt.1 hlt, hend, hout⟩

/-- **The walk stops everywhere but inside a literal.** -/
theorem mem_stops_iff (h : Paced offset t lexemes) (o : Nat) :
    o ∈ stopsFrom offset (steps t) ↔ offset ≤ o ∧ o ≤ offset + Text.byteLength t ∧
      ¬ InLiteral lexemes o := by
  induction h with
  | nil =>
      simp [steps, stopsFrom, InLiteral]
      omega
  | blank hw h ih => exact mem_singles_iff hw h ih
  | plain htoken hw h ih =>
      rw [mem_singles_iff hw h ih]
      simp [InLiteral, htoken]
  | @literal offset c layer rest body after token lexemes htoken hlayer hclosing h ih =>
      obtain rfl := closing_eq hclosing
      have htext : c :: (body ++ layer.closer :: after) = c :: body ++ [layer.closer] ++ after := by
        simp
      have hpos : 0 < Text.byteLength (c :: body ++ [layer.closer]) :=
        Text.byteLength_pos (List.cons_ne_nil _ _)
      rw [steps_literal hlayer hclosing, htext]
      generalize c :: body ++ [layer.closer] = literal at *
      rw [stopsFrom, List.mem_cons, Step.keep, ih, Text.byteLength_append, ← Nat.add_assoc,
        inLiteral_cons htoken]
      dsimp only
      constructor
      · rintro (rfl | ⟨hle, hend, hout⟩)
        · refine ⟨Nat.le_refl _, by omega, ?_⟩
          rintro (⟨hlt, -⟩ | hout)
          · exact Nat.lt_irrefl _ hlt
          · exact not_inLiteral_of_le h.start_le (Nat.le_add_right _ _) hout
        · refine ⟨by omega, hend, ?_⟩
          rintro (⟨-, hlt⟩ | hin)
          · exact absurd hlt (Nat.not_lt.2 hle)
          · exact hout hin
      · rintro ⟨hle, hend, hout⟩
        rw [not_or, not_and, Nat.not_lt] at hout
        by_cases heq : o = offset
        · exact .inl heq
        · exact .inr ⟨hout.1 (by omega), hend, hout.2⟩

end Paced

/-! ## Characters of tokens -/

/-- Characters that the walk takes alone, whatever follows. -/
def isCode (c : Char) : Bool :=
  c.toNat < 128 && c ≠ '\'' && c ≠ '"' && c ≠ '\x60' && c ≠ '\\' && c ≠ '<'

theorem single_of_isCode (h : isCode c = true) (rest : Text) : Single c rest := by
  simp only [isCode, Bool.and_eq_true, decide_eq_true_eq] at h
  obtain ⟨⟨⟨⟨⟨hascii, hsingle⟩, hdouble⟩, hbacktick⟩, hescape⟩, htag⟩ := h
  refine ⟨hascii, by simp [literalLayer?, hsingle, hdouble, hbacktick], hescape, ?_⟩
  unfold fragmentAt?
  split
  · next heq => exact absurd (List.cons.inj heq).1 htag
  · rfl

theorem singles_of_isCode (h : ∀ c ∈ w, isCode c = true) (t : Text) : Singles w t := by
  induction w with
  | nil => trivial
  | cons c w ih =>
      obtain ⟨hc, hw⟩ := List.forall_mem_cons.1 h
      exact ⟨single_of_isCode hc _, ih hw⟩

theorem isCode_of_isBlank (h : Lexer.isBlank c = true) : isCode c = true := by
  simp only [Lexer.isBlank, Bool.or_eq_true, decide_eq_true_eq] at h
  rcases h with ((rfl | rfl) | rfl) | rfl <;> rfl

theorem ascii_of_isAlpha (h : c.isAlpha = true) : c.toNat < 128 := by
  rcases Bool.or_eq_true_iff.1 h with h | h
  · obtain ⟨-, hle⟩ := of_decide_eq_true h
    exact Nat.lt_of_le_of_lt (UInt32.le_iff_toNat_le.1 hle) (by decide)
  · obtain ⟨-, hle⟩ := Bool.and_eq_true_iff.1 h
    exact Nat.lt_of_le_of_lt (UInt32.le_iff_toNat_le.1 (of_decide_eq_true hle)) (by decide)

theorem ascii_of_isNameChar (h : Lexer.isNameChar c = true) : c.toNat < 128 := by
  rcases Bool.or_eq_true_iff.1 h with h | h
  · simp only [Lexer.isNameStart, Bool.or_eq_true, decide_eq_true_eq] at h
    rcases h with (h | rfl) | rfl
    · exact ascii_of_isAlpha h
    · decide
    · decide
  · exact Nat.lt_of_le_of_lt (Char.isDigit_iff_toNat.1 h).2 (by decide)

theorem isCode_of_isNameChar (h : Lexer.isNameChar c = true) : isCode c = true := by
  simp only [isCode, ascii_of_isNameChar h, decide_true, Bool.true_and, Bool.and_eq_true,
    decide_eq_true_eq]
  refine ⟨⟨⟨⟨?_, ?_⟩, ?_⟩, ?_⟩, ?_⟩ <;>
    (rintro rfl
     exact absurd h (by decide))

theorem isCode_of_isNumeralChar (h : isNumeralChar c = true) : isCode c = true := by
  simp only [isNumeralChar, Bool.or_eq_true, decide_eq_true_eq] at h
  rcases h with ((((hdigit | rfl) | rfl) | rfl) | rfl) | rfl
  · exact isCode_of_isNameChar (Bool.or_eq_true_iff.2 (.inr hdigit))
  all_goals decide

/-- Only two of the symbols have a `<`. -/
theorem symbol_isCode {s : Text × Token} (hs : s ∈ Lexer.symbols) :
    (∀ c ∈ s.1, isCode c = true) ∨ s = (['<'], .operator .lt) ∨
      s = (['<', '='], .operator .le) := by
  rcases Lexer.symbol_cases hs with ⟨o, rfl⟩ | ⟨m, rfl⟩
  · cases o with
    | lt => exact .inr (.inl rfl)
    | le => exact .inr (.inr rfl)
    | _ => exact .inl (List.all_eq_true.1 rfl)
  · refine .inl (List.all_eq_true.1 ?_)
    cases m <;> rfl

theorem symbol_not_isLiteral {s : Text × Token} (hs : s ∈ Lexer.symbols) :
    s.2.isLiteral = false := by
  rcases Lexer.symbol_cases hs with ⟨o, rfl⟩ | ⟨m, rfl⟩
  · rfl
  · rfl

/-- A symbol is taken character by character, if no fragment stands where it is a `<`. -/
theorem singles_symbol {s : Text × Token} (hs : s ∈ Lexer.symbols)
    (hfragment : s.2 = .operator .lt → fragmentAt? (s.1 ++ t) = none) : Singles s.1 t := by
  rcases symbol_isCode hs with hcode | rfl | rfl
  · exact singles_of_isCode hcode t
  · exact ⟨⟨by decide, rfl, by decide, hfragment rfl⟩, trivial⟩
  · exact ⟨⟨by decide, rfl, by decide, rfl⟩, single_of_isCode rfl t, trivial⟩

/-! ## The walk over a source -/

/-- The walk takes a literal token in one step. -/
theorem paced_literal {token : Token} (htoken : token.isLiteral = true)
    (hlayer : literalLayer? c = some layer) (hclosing : closing layer rest = some (body, after))
    (h : Paced (offset + Text.byteLength (c :: rest.take (body.length + 1)))
      (rest.drop (body.length + 1)) lexemes) :
    Paced offset (c :: rest) (⟨token, ⟨offset,
      offset + Text.byteLength (c :: rest.take (body.length + 1))⟩⟩ :: lexemes) := by
  obtain rfl := closing_eq hclosing
  have htake : (body ++ layer.closer :: after).take (body.length + 1) = body ++ [layer.closer] :=
    List.take_length_add_append 1
  have hdrop : (body ++ layer.closer :: after).drop (body.length + 1) = after := by simp
  rw [htake, hdrop] at h
  rw [htake]
  exact .literal htoken hlayer hclosing h

/-- The walk keeps in step over a token. -/
theorem paced_token {more : Nat} {token : Token}
    (hread : Lexer.readToken offset c rest = .ok (token, more))
    (hfragment : token = .operator .lt → fragmentAt? (c :: rest) = none)
    (h : Paced (offset + Text.byteLength (c :: rest.take more)) (rest.drop more) lexemes) :
    Paced offset (c :: rest)
      (⟨token, ⟨offset, offset + Text.byteLength (c :: rest.take more)⟩⟩ :: lexemes) := by
  have hsplit : c :: rest = (c :: rest.take more) ++ rest.drop more := by simp
  cases Lexer.reading_of_readToken hread with
  | keyword hname | name hname =>
      rw [hsplit]
      refine .plain rfl (singles_of_isCode ?_ _) h
      have htake := List.prefix_iff_eq_take.1 (List.takeWhile_prefix Lexer.isNameChar (l := rest))
      rw [← htake]
      refine List.forall_mem_cons.2 ⟨?_, ?_⟩
      · exact isCode_of_isNameChar (by simp [Lexer.isNameChar, hname])
      · exact fun d hd => isCode_of_isNameChar (List.mem_takeWhile_imp hd)
  | number _ hnumeral =>
      rw [hsplit]
      refine .plain rfl (singles_of_isCode ?_ _) h
      exact fun d hd => isCode_of_isNumeralChar (isNumeralChar_of_mem hnumeral hd)
  | string hquote hbody =>
      obtain ⟨after, hclosing⟩ := closing_of_stringBody hbody
      have hlayer : literalLayer? c = some (.quoted c) := by
        rcases hquote with rfl | rfl <;> rfl
      exact paced_literal rfl hlayer hclosing h
  | template hquote hclosing =>
      subst hquote
      exact paced_literal rfl rfl hclosing h
  | @symbol written _ _ _ hsymbol =>
      have hmem := Lexer.mem_symbols hsymbol
      obtain ⟨after, hafter⟩ := starts_of_symbol? hsymbol
      have hsingles : Singles written after :=
        singles_symbol hmem fun htoken => hafter ▸ hfragment htoken
      cases written with
      | nil => exact absurd rfl (symbol_ne_nil hmem)
      | cons d written =>
          obtain ⟨rfl, hrest⟩ := List.cons.inj hafter
          change rest = written ++ after at hrest
          subst hrest
          rw [List.length_cons, Nat.add_sub_cancel, List.take_left, List.drop_left] at h
          rw [List.length_cons, Nat.add_sub_cancel, List.take_left]
          exact .plain (symbol_not_isLiteral hmem) hsingles h

/-- No fragment stands where one of the tokens is a `<`. -/
def Fragmentless (offset : Nat) (t : Text) (lexemes : List Lexeme) : Prop :=
  ∀ l ∈ lexemes, l.token = .operator .lt → ∀ before after, t = before ++ after →
    l.span.start = offset + Text.byteLength before → fragmentAt? after = none

theorem Fragmentless.behind (h : Fragmentless offset (w ++ t) lexemes) :
    Fragmentless (offset + Text.byteLength w) t lexemes := by
  intro l hl htoken before after ht hstart
  refine h l hl htoken (w ++ before) after (by rw [ht, List.append_assoc]) ?_
  rw [hstart, Text.byteLength_append, Nat.add_assoc]

/-- **The walk keeps in step with the tokens of a source**, where no fragment stands at a `<`. -/
theorem paced_of_lexFrom (h : Lexer.lexFrom offset t = .ok lexemes)
    (hfragment : Fragmentless offset t lexemes) : Paced offset t lexemes := by
  fun_induction Lexer.lexFrom offset t generalizing lexemes with
  | case1 =>
      cases h
      exact .nil
  | case2 offset c rest hblank ih =>
      have hcode : ∀ d ∈ [c], isCode d = true :=
        List.forall_mem_singleton.2 (isCode_of_isBlank hblank)
      have hrest : Fragmentless (offset + Text.byteLength [c]) rest lexemes :=
        Fragmentless.behind (w := [c]) hfragment
      exact .blank (w := [c]) (singles_of_isCode hcode rest) (ih h hrest)
  | case3 => cases h
  | case4 => cases h
  | case5 offset c rest _ token more hread stop others hothers =>
      rename_i ih
      obtain rfl := Except.ok.inj h
      have hfirst : token = .operator .lt → fragmentAt? (c :: rest) = none := fun htoken =>
        hfragment _ List.mem_cons_self htoken [] (c :: rest) rfl rfl
      have hstop : stop = offset + Text.byteLength (c :: rest.take more) := by
        rw [Text.byteLength_cons, ← Nat.add_assoc]
      rw [hstop] at hothers ih ⊢
      have hrest : Fragmentless (offset + Text.byteLength (c :: rest.take more))
          (rest.drop more) others := by
        apply Fragmentless.behind
        rw [List.cons_append, List.take_append_drop]
        exact fun l hl => hfragment l (List.mem_cons_of_mem _ hl)
      exact paced_token hread hfirst (ih hothers hrest)

end Stencil.Expr
