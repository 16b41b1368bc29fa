import Stencil.Proofs.Expr.Acceptance

/-!
# The parser accepts exactly its grammar

Tokens are read as a tree if and only if they derive the tree without its ranges, and
then by one derivation (`parse_iff_derives`). The sources of interpolations are read with
a bound on their nesting, which the length of the source is enough for, since the sources
inside a source are shorter.
-/

namespace Stencil.Expr

open Rule Stencil.Expr.Parser

variable {sub : SourceReader}

/-! ## Whole lists of tokens -/

/-- What is left where the tokens end. -/
theorem tokens_of_finish {s s' : Remaining} {r : Reach} {a : Unit}
    (h : (finish s r).1 = some (a, s')) : s.tokens = [] := by
  unfold finish at h
  split at h
  · next heq => rw [Remaining.tokens, heq, List.map_nil]
  · cases h

theorem accepts_finish : finish.Accepts [] [] fun _ => True := by
  intro s r hs
  obtain ⟨lexemes, position, stop⟩ := s
  obtain rfl : lexemes = [] := List.map_eq_nil_iff.1 hs
  exact ⟨(), _, rfl, rfl, trivial⟩

theorem parseTokens_eq_ok_iff {lexemes : List Lexeme} {stop : Nat} {e : Tree} :
    parseTokens sub lexemes stop = .ok e ↔
      ∃ s, (((expression sub (lexemes.length + 1)).andSkip finish) ⟨lexemes, 0, stop⟩
        Reach.start).1 = some (e, s) := by
  unfold parseTokens
  dsimp only
  split
  · next heq => simp [heq]
  · next heq => simp [heq]

theorem derives_of_parseTokens (hsound : ReaderSound sub) {lexemes : List Lexeme} {stop : Nat}
    {e : Tree} (h : parseTokens sub lexemes stop = .ok e) :
    Derives .expression (lexemes.map Lexeme.token) e.erase := by
  obtain ⟨s, hread⟩ := parseTokens_eq_ok_iff.1 h
  obtain ⟨e', s', he', hfinish⟩ := bind_eq_some.1 hread
  obtain ⟨a, s'', hend, hpure⟩ := bind_eq_some.1 hfinish
  cases hpure
  obtain ⟨ts, hts, hderives⟩ := recognizes_expression hsound _ _ _ _ _ he'
  rw [tokens_of_finish hend, List.append_nil] at hts
  subst hts
  exact hderives

theorem parseTokens_of_derives {depth : Nat} (hsound : ReaderSound sub)
    (hcomplete : ReaderComplete depth sub) {lexemes : List Lexeme} (stop : Nat) {e : Tree}
    (hwithin : ∀ l ∈ lexemes, l.token.Within depth)
    (h : Derives .expression (lexemes.map Lexeme.token) e) :
    ∃ tree, parseTokens sub lexemes stop = .ok tree ∧ tree.erase = e := by
  obtain ⟨d⟩ := h
  have hfits : Fits depth (lexemes.length + 1) (lexemes.map Lexeme.token) := by
    refine ⟨?_, by simp⟩
    simpa using hwithin
  have haccepted : (expression sub (lexemes.length + 1)).Accepts (lexemes.map Lexeme.token)
      ([] ++ []) fun tree => tree.erase = e :=
    d.accepted hsound hcomplete (lexemes.length + 1) [] hfits .nil
  obtain ⟨tree, s, hread, -, herase⟩ :=
    (haccepted.andSkip accepts_finish) ⟨lexemes, 0, stop⟩ Reach.start (by simp [Remaining.tokens])
  exact ⟨tree, parseTokens_eq_ok_iff.2 ⟨s, hread⟩, herase⟩

/-! ## Sources -/

/-- How a source inside a template is read, with a bound on the nesting. -/
def nestedReader (depth : Nat) : SourceReader :=
  fun source base => (parseNested depth source base).mapError withoutExpected

theorem mapError_eq_ok_iff {ε ε' α : Type} {f : ε → ε'} {x : Except ε α} {a : α} :
    x.mapError f = .ok a ↔ x = .ok a := by
  cases x <;> simp [Except.mapError]

theorem parseNested_eq_ok_iff {depth : Nat} {source : Text} {base : Nat} {e : Tree} :
    parseNested (depth + 1) source base = .ok e ↔
      ∃ lexemes, lex source base = .ok lexemes ∧
        parseTokens (nestedReader depth) lexemes (base + Text.byteLength source) = .ok e := by
  unfold parseNested nestedReader
  split
  · next heq => simp [heq]
  · next lexemes heq => simp [heq]

theorem readerSound_nested (depth : Nat) : ReaderSound (nestedReader depth) := by
  induction depth with
  | zero =>
      intro source base e h
      cases mapError_eq_ok_iff.1 h
  | succ depth ih =>
      intro source base e h
      obtain ⟨lexemes, hlex, hparse⟩ := parseNested_eq_ok_iff.1 (mapError_eq_ok_iff.1 h)
      exact ⟨lexemes, hlex, derives_of_parseTokens ih hparse⟩

theorem readerComplete_nested (depth : Nat) : ReaderComplete depth (nestedReader depth) := by
  induction depth with
  | zero =>
      intro source base lexemes e hlength
      exact absurd hlength (Nat.not_lt_zero _)
  | succ depth ih =>
      intro source base lexemes e hlength hlex hderives
      have hwithin : ∀ l ∈ lexemes, l.token.Within depth := fun l hl =>
        (within_of_lex hlex l hl).mono (Nat.le_of_lt_succ hlength)
      obtain ⟨tree, hparse, herase⟩ := parseTokens_of_derives (readerSound_nested depth) ih
        (base + Text.byteLength source) hwithin hderives
      exact ⟨tree, mapError_eq_ok_iff.2 (parseNested_eq_ok_iff.2 ⟨lexemes, hlex, hparse⟩), herase⟩

/-- **A source is read as its tokens derive.** -/
theorem parseAt_iff_derives {source : Text} {base : Nat} {e : Tree} :
    (∃ tree, parseAt source base = .ok tree ∧ tree.erase = e) ↔
      ∃ lexemes, lex source base = .ok lexemes ∧
        Derives .expression (lexemes.map Lexeme.token) e := by
  constructor
  · rintro ⟨tree, h, rfl⟩
    exact readerSound_nested (source.length + 1) source base tree (mapError_eq_ok_iff.2 h)
  · rintro ⟨lexemes, hlex, hderives⟩
    obtain ⟨tree, h, herase⟩ := readerComplete_nested (source.length + 1) source base lexemes e
      (Nat.lt_succ_self _) hlex hderives
    exact ⟨tree, mapError_eq_ok_iff.1 h, herase⟩

/-! ## The grammar and nothing else -/

/-- How the sources of interpolations are read. -/
def interpolationReader : SourceReader :=
  fun source base => (parseAt source base).mapError withoutExpected

theorem readerSound_interpolation : ReaderSound interpolationReader :=
  fun source => readerSound_nested (source.length + 1) source

theorem readerComplete_interpolation (depth : Nat) : ReaderComplete depth interpolationReader :=
  fun source base lexemes e _ =>
    readerComplete_nested (source.length + 1) source base lexemes e (Nat.lt_succ_self _)

theorem exists_within_chunks (chunks : List Chunk) : ∃ depth, ∀ c ∈ chunks, c.Within depth := by
  induction chunks with
  | nil => exact ⟨0, by simp⟩
  | cons c chunks ih =>
      obtain ⟨depth, h⟩ := ih
      cases c with
      | text t => exact ⟨depth, List.forall_mem_cons.2 ⟨trivial, h⟩⟩
      | code source offset =>
          refine ⟨source.length + 1 + depth, List.forall_mem_cons.2 ⟨?_, fun c hc => ?_⟩⟩
          · simp only [Chunk.Within]
            omega
          · exact (h c hc).mono (Nat.le_add_left _ _)

theorem exists_within (lexemes : List Lexeme) : ∃ depth, ∀ l ∈ lexemes, l.token.Within depth := by
  induction lexemes with
  | nil => exact ⟨0, by simp⟩
  | cons l lexemes ih =>
      obtain ⟨m, hm⟩ := ih
      have hl : ∃ n, l.token.Within n := by
        cases htoken : l.token with
        | template chunks => exact exists_within_chunks chunks
        | _ => exact ⟨0, trivial⟩
      obtain ⟨n, hn⟩ := hl
      refine ⟨m + n, List.forall_mem_cons.2 ⟨hn.mono (Nat.le_add_left n m), fun k hk => ?_⟩⟩
      exact (hm k hk).mono (Nat.le_add_right m n)

/-- **The parser accepts exactly its grammar.** Tokens are read as a tree if and only if
they derive it, by a derivation that is the only one of the tokens; and so is a source,
by its tokens. -/
theorem parse_iff_derives (lexemes : List Lexeme) (stop : Nat) (e : Tree) :
    ((∃ tree, parseTokens interpolationReader lexemes stop = .ok tree ∧ tree.erase = e) ↔
      Nonempty (Derivation .expression (lexemes.map Lexeme.token) e)) ∧
    Subsingleton (Σ e, Derivation .expression (lexemes.map Lexeme.token) e) ∧
    ∀ source base, (∃ tree, parseAt source base = .ok tree ∧ tree.erase = e) ↔
      ∃ lexemes, lex source base = .ok lexemes ∧
        Nonempty (Derivation .expression (lexemes.map Lexeme.token) e) := by
  refine ⟨⟨?_, fun h => ?_⟩, ⟨?_⟩, fun source base => parseAt_iff_derives⟩
  · rintro ⟨tree, h, rfl⟩
    exact derives_of_parseTokens readerSound_interpolation h
  · obtain ⟨depth, hwithin⟩ := exists_within lexemes
    exact parseTokens_of_derives readerSound_interpolation (readerComplete_interpolation depth)
      stop hwithin h
  · rintro ⟨e, d⟩ ⟨e', d'⟩
    cases d.determined d' rfl .nil .nil
    rfl

end Stencil.Expr
