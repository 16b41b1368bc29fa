import Stencil.Expr.Lexer

/-!
# Tokens, and the sources inside a source

`Lexer.Reading` says what a token is read from, and is what `readToken` computes
(`reading_of_readToken`, `readToken_of_reading`). The interpolations of a template that a
source has for a token are sources shorter than that source (`within_of_lex`), so reading
them ends.
-/

namespace Stencil.Expr

/-- The source of an interpolation is shorter than a bound. -/
def Chunk.Within (bound : Nat) : Chunk → Prop
  | .text _ => True
  | .code source _ => source.length < bound

/-- The sources of the interpolations of a template are shorter than a bound. -/
def Token.Within (bound : Nat) : Token → Prop
  | .template chunks => ∀ c ∈ chunks, c.Within bound
  | _ => True

theorem Chunk.Within.mono {m n : Nat} {c : Chunk} (h : c.Within m) (hle : m ≤ n) : c.Within n := by
  cases c with
  | text t => trivial
  | code source offset => exact Nat.lt_of_lt_of_le h hle

theorem Token.Within.mono {m n : Nat} {t : Token} (h : t.Within m) (hle : m ≤ n) : t.Within n := by
  cases t with
  | template chunks => exact fun c hc => (h c hc).mono hle
  | _ => trivial

theorem within_textChunk {bound : Nat} {raw : Text} : ∀ c ∈ textChunk raw, c.Within bound := by
  unfold textChunk
  split
  · simp
  · simp [Chunk.Within]

theorem within_templateChunksFrom (seen : Text) (offset : Nat) (body : Text) :
    ∀ c ∈ templateChunksFrom seen offset body, c.Within body.length := by
  fun_induction templateChunksFrom seen offset body with
  | case1 => exact within_textChunk
  | case2 seen offset c rest ih =>
      intro chunk hchunk
      exact (ih chunk hchunk).mono (Nat.le_add_right rest.length 2)
  | case3 seen offset rest ih =>
      intro chunk hchunk
      rcases List.mem_append.1 hchunk with hchunk | hchunk
      · exact within_textChunk chunk hchunk
      · split at hchunk
        · next source after hclosing =>
            have hlength := length_of_closing hclosing
            rcases List.mem_cons.1 hchunk with rfl | hchunk
            · simp only [Chunk.Within, List.length_cons]
              omega
            · have hwithin := ih source after hclosing chunk hchunk
              exact hwithin.mono (by simp only [List.length_cons]; omega)
        · obtain rfl := List.mem_singleton.1 hchunk
          simp only [Chunk.Within, List.length_cons]
          omega
  | case4 seen offset c rest _ _ ih =>
      intro chunk hchunk
      exact (ih chunk hchunk).mono (Nat.le_succ rest.length)

namespace Lexer

/-- What is picked from a list, one against the best so far, is of the list. -/
theorem mem_of_mem_foldl {α : Type} {pick : Option α → α → Option α}
    (hpick : ∀ best a, pick best a = best ∨ pick best a = some a) (found : List α)
    (best : Option α) : ∀ a ∈ found.foldl pick best, a ∈ found ∨ a ∈ best := by
  induction found generalizing best with
  | nil => exact fun a ha => .inr ha
  | cons b found ih =>
      intro a ha
      rcases ih (pick best b) a ha with ha | ha
      · exact .inl (List.mem_cons_of_mem b ha)
      · rcases hpick best b with heq | heq
        · rw [heq] at ha
          exact .inr ha
        · rw [heq] at ha
          obtain rfl := Option.some.inj ha
          exact .inl List.mem_cons_self

/-- The longest symbol at the start of a text is one of those that stand there. -/
theorem mem_found_of_symbol? {t : Text} {s : Text × Token} (h : symbol? t = some s) :
    s ∈ symbols.filter fun s => (Text.dropHead? s.1 t).isSome := by
  unfold symbol? at h
  refine (mem_of_mem_foldl (fun best s => ?_) _ none s h).resolve_right (by simp)
  cases best with
  | none => exact .inr rfl
  | some b =>
      dsimp only
      split
      · exact .inr rfl
      · exact .inl rfl

theorem mem_symbols {t : Text} {s : Text × Token} (h : symbol? t = some s) : s ∈ symbols :=
  (List.mem_filter.1 (mem_found_of_symbol? h)).1

/-- Symbols are operators and marks. -/
theorem symbol_cases {s : Text × Token} (h : s ∈ symbols) :
    (∃ o : Operator, s = (o.text.toList, .operator o)) ∨
      ∃ m : Mark, s = (m.text.toList, .mark m) := by
  rcases List.mem_append.1 h with h | h
  · obtain ⟨o, -, rfl⟩ := List.mem_map.1 h
    exact .inl ⟨o, rfl⟩
  · obtain ⟨m, -, rfl⟩ := List.mem_map.1 h
    exact .inr ⟨m, rfl⟩

/-! ## One token -/

/-- No word, string or template starts with the character. -/
def StartsNumberOrSymbol (c : Char) : Prop :=
  isNameStart c = false ∧ c ≠ '\'' ∧ c ≠ '"' ∧ c ≠ '\x60'

/-- A token that starts with a character at `offset`, and how many characters of the text
after that belong to it. -/
inductive Reading (offset : Nat) (c : Char) (rest : Text) : Token → Nat → Prop where
  | keyword {k : Keyword} (start : isNameStart c = true)
      (word : Keyword.ofText? (c :: rest.takeWhile isNameChar) = some k) :
      Reading offset c rest (.keyword k) (rest.takeWhile isNameChar).length
  | name (start : isNameStart c = true)
      (word : Keyword.ofText? (c :: rest.takeWhile isNameChar) = none) :
      Reading offset c rest (.name (c :: rest.takeWhile isNameChar))
        (rest.takeWhile isNameChar).length
  | string {body : Text} (quote : c = '\'' ∨ c = '"') (closed : stringBody c rest = .inl body) :
      Reading offset c rest (.string (resolveEscapes body)) (body.length + 1)
  | template {body after : Text} (quote : c = '\x60')
      (closed : closing .template rest = some (body, after)) :
      Reading offset c rest (.template (templateChunks (offset + 1) body)) (body.length + 1)
  | number {n : Number.Numeral} {after : Text} (start : StartsNumberOrSymbol c)
      (numeral : Number.takeNumeral? (c :: rest) = some (n, after)) :
      Reading offset c rest (.number n.value) (rest.length - after.length)
  | symbol {written : Text} {token : Token} (start : StartsNumberOrSymbol c)
      (numeral : Number.takeNumeral? (c :: rest) = none)
      (symbol : symbol? (c :: rest) = some (written, token)) :
      Reading offset c rest token (written.length - 1)

theorem reading_of_readToken {offset : Nat} {c : Char} {rest : Text} {t : Token} {more : Nat}
    (h : readToken offset c rest = .ok (t, more)) : Reading offset c rest t more := by
  unfold readToken at h
  dsimp only at h
  split at h
  · next start =>
      obtain ⟨rfl, rfl⟩ := Prod.mk.inj (Except.ok.inj h)
      split
      · next word => exact .keyword start word
      · next word => exact .name start word
  · next start =>
      split at h
      · next quote =>
          rw [Bool.or_eq_true, decide_eq_true_eq, decide_eq_true_eq] at quote
          split at h
          · next closed =>
              cases h
              exact .string quote closed
          · cases h
      · next quotes =>
          rw [Bool.or_eq_true, decide_eq_true_eq, decide_eq_true_eq, not_or] at quotes
          split at h
          · next quote =>
              split at h
              · next closed =>
                  cases h
                  exact .template quote closed
              · cases h
          · next backtick =>
              have start' : StartsNumberOrSymbol c :=
                ⟨eq_false_of_ne_true start, quotes.1, quotes.2, backtick⟩
              split at h
              · next numeral =>
                  cases h
                  exact .number start' numeral
              · next numeral =>
                  split at h
                  · next symbol =>
                      cases h
                      exact .symbol start' numeral symbol
                  · cases h

theorem readToken_of_reading {offset : Nat} {c : Char} {rest : Text} {t : Token} {more : Nat}
    (h : Reading offset c rest t more) : readToken offset c rest = .ok (t, more) := by
  cases h with
  | keyword start word => simp [readToken, start, word]
  | name start word => simp [readToken, start, word]
  | string quote closed =>
      rcases quote with rfl | rfl
      · rw [readToken, if_neg (by decide), if_pos (by decide), closed]
      · rw [readToken, if_neg (by decide), if_pos (by decide), closed]
  | template quote closed =>
      subst quote
      rw [readToken, if_neg (by decide), if_neg (by decide), if_pos rfl, closed]
  | number start numeral =>
      obtain ⟨hname, hsingle, hdouble, hbacktick⟩ := start
      simp [readToken, hname, hsingle, hdouble, hbacktick, numeral]
  | symbol start numeral symbol =>
      obtain ⟨hname, hsingle, hdouble, hbacktick⟩ := start
      simp [readToken, hname, hsingle, hdouble, hbacktick, numeral, symbol]

theorem within_readToken {offset : Nat} {c : Char} {rest : Text} {t : Token} {more : Nat}
    (h : readToken offset c rest = .ok (t, more)) : t.Within (rest.length + 1) := by
  cases reading_of_readToken h with
  | keyword | name | string | number => trivial
  | template _ closed =>
      have hlength := length_of_closing closed
      intro chunk hchunk
      exact (within_templateChunksFrom _ _ _ chunk hchunk).mono (by omega)
  | symbol _ _ symbol =>
      rcases symbol_cases (mem_symbols symbol) with ⟨o, heq⟩ | ⟨m, heq⟩
      · cases heq
        trivial
      · cases heq
        trivial

/-! ## All tokens -/

theorem within_lexFrom {offset : Nat} {t : Text} {lexemes : List Lexeme}
    (h : lexFrom offset t = .ok lexemes) : ∀ l ∈ lexemes, l.token.Within t.length := by
  fun_induction lexFrom offset t generalizing lexemes with
  | case1 =>
      obtain rfl := Except.ok.inj h
      simp
  | case2 offset c rest _ ih =>
      intro l hl
      exact (ih h l hl).mono (by simp)
  | case3 => cases h
  | case4 => cases h
  | case5 offset c rest _ token more hread stop others hothers =>
      rename_i ih
      obtain rfl := Except.ok.inj h
      intro l hl
      rcases List.mem_cons.1 hl with rfl | hl
      · exact within_readToken hread
      · exact (ih hothers l hl).mono (by simp; omega)

end Lexer

/-- The interpolations in a source are shorter than the source. -/
theorem within_of_lex {source : Text} {base : Nat} {lexemes : List Lexeme}
    (h : lex source base = .ok lexemes) : ∀ l ∈ lexemes, l.token.Within source.length :=
  Lexer.within_lexFrom h

end Stencil.Expr
