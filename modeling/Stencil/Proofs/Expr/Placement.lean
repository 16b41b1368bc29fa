import Stencil.Proofs.Expr.Embedding
import Stencil.Proofs.Expr.Parsing

/-!
# Sources in other places

A source that stands further on is read as the same tree, with its ranges moved: its
tokens are the same but for where the interpolations inside them stand (`lexFrom_shift`),
and they derive the same trees (`Derivation.shifted`). So the template literal that a
fragment is embedded as is read as the fragment's gaps and the trees of its regions, each
as it would be read on its own (`reads_embed_fragment`).
-/

namespace Stencil.Expr

open Markup

variable {offset : Nat} {t : Text}

/-! ## Moving tokens -/

/-- A chunk that stands `k` bytes further on. -/
def Chunk.shift (k : Nat) : Chunk → Chunk
  | .text t => .text t
  | .code source offset => .code source (k + offset)

/-- A token that stands `k` bytes further on. -/
def Token.shift (k : Nat) : Token → Token
  | .template chunks => .template (chunks.map (Chunk.shift k))
  | t => t

/-- A token with its range, `k` bytes further on. -/
def Lexeme.shift (k : Nat) (l : Lexeme) : Lexeme :=
  ⟨l.token.shift k, l.span.shift k⟩

theorem textChunk_shift (k : Nat) (raw : Text) :
    (textChunk raw).map (Chunk.shift k) = textChunk raw := by
  unfold textChunk
  split <;> rfl

theorem templateChunksFrom_shift (k : Nat) (seen : Text) (offset : Nat) (body : Text) :
    templateChunksFrom seen (k + offset) body =
      (templateChunksFrom seen offset body).map (Chunk.shift k) := by
  fun_induction templateChunksFrom seen offset body with
  | case1 seen => rw [templateChunksFrom, textChunk_shift]
  | case2 seen offset c rest ih =>
      rw [templateChunksFrom, ← ih]
      simp only [Nat.add_assoc]
  | case3 seen offset rest ih =>
      rw [templateChunksFrom, List.map_append, textChunk_shift]
      congr 1
      split
      · next source after hclosing =>
          rw [List.map_cons, ← ih source after hclosing, Chunk.shift]
          simp only [Nat.add_assoc]
      · rfl
  | case4 seen offset c rest hescape hopening ih =>
      rw [templateChunksFrom, Nat.add_assoc, ih]
      · exact hescape
      · exact hopening

theorem readToken_shift (k : Nat) {c : Char} {rest : Text} {token : Token} {more : Nat}
    (h : Lexer.readToken offset c rest = .ok (token, more)) :
    Lexer.readToken (k + offset) c rest = .ok (token.shift k, more) := by
  refine Lexer.readToken_of_reading ?_
  cases Lexer.reading_of_readToken h with
  | keyword start word => exact .keyword start word
  | name start word => exact .name start word
  | string quote closed => exact .string quote closed
  | template quote closed =>
      have hread : Lexer.Reading (k + offset) c rest _ _ := .template quote closed
      rwa [templateChunks, Nat.add_assoc, templateChunksFrom_shift] at hread
  | number start numeral => exact .number start numeral
  | symbol start numeral symbol =>
      rcases Lexer.symbol_cases (Lexer.mem_symbols symbol) with ⟨o, heq⟩ | ⟨m, heq⟩
      · cases heq
        exact .symbol start numeral symbol
      · cases heq
        exact .symbol start numeral symbol

/-- **A source has the same tokens further on.** -/
theorem lexFrom_shift (k : Nat) {lexemes : List Lexeme}
    (h : Lexer.lexFrom offset t = .ok lexemes) :
    Lexer.lexFrom (k + offset) t = .ok (lexemes.map (Lexeme.shift k)) := by
  fun_induction Lexer.lexFrom offset t generalizing lexemes with
  | case1 =>
      cases h
      rw [Lexer.lexFrom]
      rfl
  | case2 offset c rest hblank ih =>
      rw [Lexer.lexFrom, if_pos hblank, Nat.add_assoc]
      exact ih h
  | case3 => cases h
  | case4 => cases h
  | case5 offset c rest hblank token more hread stop others hothers =>
      rename_i ih
      obtain rfl := Except.ok.inj h
      have hstop : k + offset + c.utf8Size + Text.byteLength (rest.take more) = k + stop := by
        simp only [stop, Nat.add_assoc]
      rw [Lexer.lexFrom, if_neg hblank, readToken_shift k hread]
      dsimp only
      rw [hstop, ih hothers]
      rfl

/-! ## Moving derivations -/

theorem map_shift_enclosed (k : Nat) (opening closing : Mark) (ts : List Token) :
    (enclosed opening ts closing).map (Token.shift k) =
      enclosed opening (ts.map (Token.shift k)) closing := by
  simp [enclosed, Token.shift]

theorem Token.shift_of_literal? {t : Token} {e : Tree} (h : t.literal? = some e) (k : Nat) :
    t.shift k = t := by
  cases t with
  | template chunks => cases h
  | _ => rfl

theorem Token.shift_of_key? {t : Token} {key : Text} (h : t.key? = some key) (k : Nat) :
    t.shift k = t := by
  cases t with
  | template chunks => cases h
  | _ => rfl

/-- **Tokens further on derive the same.** -/
theorem Derivation.shifted {σ : Symbol} {ts : List Token} {v : σ.Value} (d : Derivation σ ts v)
    (k : Nat) : Derives σ (ts.map (Token.shift k)) v := by
  induction d with
  | arrow _ _ ih₁ ih₂ =>
      obtain ⟨d₁⟩ := ih₁
      obtain ⟨d₂⟩ := ih₂
      rw [List.map_append]
      exact ⟨.arrow d₁ d₂⟩
  | disjunction _ ih =>
      obtain ⟨d⟩ := ih
      exact ⟨.disjunction d⟩
  | conditional _ _ _ ih₁ ih₂ ih₃ =>
      obtain ⟨d₁⟩ := ih₁
      obtain ⟨d₂⟩ := ih₂
      obtain ⟨d₃⟩ := ih₃
      rw [List.map_append, List.map_cons, List.map_append]
      exact ⟨.conditional d₁ d₂ d₃⟩
  | single t => exact ⟨.single t⟩
  | several _ ih =>
      obtain ⟨d⟩ := ih
      rw [map_shift_enclosed]
      exact ⟨.several d⟩
  | joined _ _ ih₁ ih₂ =>
      obtain ⟨d₁⟩ := ih₁
      obtain ⟨d₂⟩ := ih₂
      rw [List.map_append]
      exact ⟨.joined d₁ d₂⟩
  | prefixed op _ ih =>
      obtain ⟨d⟩ := ih
      have hop : op.token.shift k = op.token := by cases op <;> rfl
      rw [List.map_cons, hop]
      exact ⟨.prefixed op d⟩
  | bare _ ih =>
      obtain ⟨d⟩ := ih
      exact ⟨.bare d⟩
  | chain _ _ ih₁ ih₂ =>
      obtain ⟨d₁⟩ := ih₁
      obtain ⟨d₂⟩ := ih₂
      rw [List.map_append]
      exact ⟨.chain d₁ d₂⟩
  | literal h =>
      rw [List.map_singleton, Token.shift_of_literal? h]
      exact ⟨.literal h⟩
  | template _ ih =>
      obtain ⟨d⟩ := ih
      exact ⟨.template d⟩
  | parenthesized _ ih =>
      obtain ⟨d⟩ := ih
      rw [map_shift_enclosed]
      exact ⟨.parenthesized d⟩
  | array _ ih =>
      obtain ⟨d⟩ := ih
      rw [map_shift_enclosed]
      exact ⟨.array d⟩
  | object _ ih =>
      obtain ⟨d⟩ := ih
      rw [map_shift_enclosed]
      exact ⟨.object d⟩
  | noParts => exact ⟨.noParts⟩
  | textPart t _ ih =>
      obtain ⟨d⟩ := ih
      exact ⟨.textPart t d⟩
  | codePart h _ _ ih₁ ih₂ =>
      obtain ⟨d₁⟩ := ih₁
      obtain ⟨d₂⟩ := ih₂
      -- the interpolation moves with the template that it is in
      have hlex := lexFrom_shift k h
      rw [List.map_map] at d₁
      refine ⟨.codePart hlex ?_ d₂⟩
      rw [List.map_map]
      exact d₁
  | member t => exact ⟨.member t⟩
  | optionalMember t => exact ⟨.optionalMember t⟩
  | index _ ih =>
      obtain ⟨d⟩ := ih
      rw [map_shift_enclosed]
      exact ⟨.index d⟩
  | optionalIndex _ ih =>
      obtain ⟨d⟩ := ih
      rw [List.map_cons, map_shift_enclosed]
      exact ⟨.optionalIndex d⟩
  | call _ ih =>
      obtain ⟨d⟩ := ih
      rw [map_shift_enclosed]
      exact ⟨.call d⟩
  | join op h _ ih =>
      obtain ⟨d⟩ := ih
      exact ⟨.join op h d⟩
  | noPieces p => exact ⟨.noPieces p⟩
  | morePieces _ _ ih₁ ih₂ =>
      obtain ⟨d₁⟩ := ih₁
      obtain ⟨d₂⟩ := ih₂
      rw [List.map_append]
      exact ⟨.morePieces d₁ d₂⟩
  | item _ ih =>
      obtain ⟨d⟩ := ih
      exact ⟨.item d⟩
  | property h _ ih =>
      obtain ⟨d⟩ := ih
      rw [List.map_cons, Token.shift_of_key? h]
      exact ⟨.property h d⟩
  | shorthand t => exact ⟨.shorthand t⟩
  | name t => exact ⟨.name t⟩
  | noEntries e => exact ⟨.noEntries e⟩
  | firstEntry _ _ ih₁ ih₂ =>
      obtain ⟨d₁⟩ := ih₁
      obtain ⟨d₂⟩ := ih₂
      rw [List.map_append]
      exact ⟨.firstEntry d₁ d₂⟩
  | ended e => exact ⟨.ended e⟩
  | trailingComma e => exact ⟨.trailingComma e⟩
  | nextEntry _ _ ih₁ ih₂ =>
      obtain ⟨d₁⟩ := ih₁
      obtain ⟨d₂⟩ := ih₂
      rw [List.map_cons, List.map_append]
      exact ⟨.nextEntry d₁ d₂⟩

/-! ## Fragments -/

/-- The source is read as the tree, ranges aside. -/
def Reads (source : Text) (e : Tree) : Prop :=
  ∃ tree, parse source = .ok tree ∧ tree.erase = e

theorem Reads.balanced {source : Text} {e : Tree} (h : Reads source e) : Balanced source := by
  obtain ⟨lexemes, hlex, ⟨d⟩⟩ := parseAt_iff_derives.1 h
  exact ⟨0, lexemes, hlex, d.braceDepth_eq 0⟩

/-- What is read is read anywhere. -/
theorem Reads.derives {source : Text} {e : Tree} (h : Reads source e) (k : Nat) :
    ∃ lexemes, lex source k = .ok lexemes ∧
      Derives .expression (lexemes.map Lexeme.token) e := by
  obtain ⟨lexemes, hlex, ⟨d⟩⟩ := parseAt_iff_derives.1 h
  refine ⟨lexemes.map (Lexeme.shift k), lexFrom_shift k hlex, ?_⟩
  have hderives := d.shifted k
  rw [List.map_map] at hderives ⊢
  exact hderives

/-- An atom is an expression. -/
theorem Derives.ofAtom {ts : List Token} {e : Tree} (h : Derives .atom ts e) :
    Derives .expression ts e := by
  obtain ⟨d⟩ := h
  have hoperand : ∀ level, Derives (.operand level) ts e := by
    intro level
    induction level with
    | zero =>
        have hchain := Derivation.bare (.chain d (.noPieces .link))
        rw [List.append_nil] at hchain
        exact ⟨hchain⟩
    | succ level ih =>
        obtain ⟨d⟩ := ih
        have hjoined := Derivation.joined d (.noPieces (.join level))
        rw [List.append_nil] at hjoined
        exact ⟨hjoined⟩
  obtain ⟨d⟩ := hoperand 6
  exact ⟨.disjunction d⟩

/-- A gap as a part of a template, none for an empty one. -/
def gapPart (gap : Text) : List Part :=
  if gap = [] then [] else [.text gap]

/-- The parts of a template: gaps with an expression behind each, and the text after the
last. -/
def literalParts (pieces : List (Text × Tree)) (tail : Text) : List Part :=
  match pieces with
  | [] => gapPart tail
  | (gap, e) :: pieces => gapPart gap ++ .code e :: literalParts pieces tail

theorem derives_gap (gap : Text) {chunks : List Chunk} {parts : List Part}
    (h : Derives .template [.template chunks] (.template nowhere parts)) :
    Derives .template [.template (gapChunk gap ++ chunks)]
      (.template nowhere (gapPart gap ++ parts)) := by
  obtain ⟨d⟩ := h
  unfold gapChunk gapPart
  split
  · exact ⟨d⟩
  · exact ⟨.textPart gap d⟩

theorem derives_literal (offset : Nat) (tail : Text) {pieces : List (Text × Text)}
    {trees : List (Text × Tree)}
    (h : List.Forall₂ (fun p q => p.1 = q.1 ∧ Reads p.2 q.2) pieces trees) :
    Derives .template [.template (literalChunks offset pieces tail)]
      (.template nowhere (literalParts trees tail)) := by
  induction h generalizing offset with
  | nil =>
      have hgap := derives_gap tail ⟨.noParts⟩
      rwa [List.append_nil, List.append_nil] at hgap
  | @cons p q pieces trees hpq _ ih =>
      obtain ⟨gap, source⟩ := p
      obtain ⟨gap', e⟩ := q
      obtain ⟨rfl, hreads⟩ := hpq
      obtain ⟨lexemes, hlex, ⟨inner⟩⟩ :=
        hreads.derives (offset + Text.byteLength (escapeLiteral gap) + 2)
      obtain ⟨rest⟩ := ih (offset + Text.byteLength (escapeLiteral gap) + 2 +
        Text.byteLength source + 1)
      exact derives_gap gap ⟨.codePart hlex inner rest⟩

/-- **A fragment is read as its gaps and its regions**, each region as on its own. -/
theorem reads_embed_fragment {t : Text} (h : fragmentAt? t = some t) {trees : List Tree}
    (htrees : List.Forall₂ (fun r e => Reads (embed r.text) e) (scanExpressions t).regions
      trees) :
    Reads (embed t) (.template nowhere
      (literalParts (((scanExpressions t).regions.map Region.gap).zip trees)
        (scanExpressions t).tail)) := by
  have hpieces : List.Forall₂ (fun p q => p.1 = q.1 ∧ Reads p.2 q.2)
      (embeddedPieces (scanExpressions t))
      (((scanExpressions t).regions.map Region.gap).zip trees) := by
    unfold embeddedPieces
    generalize (scanExpressions t).regions = rs at htrees
    induction htrees with
    | nil => exact .nil
    | cons hreads _ ih => exact .cons ⟨rfl, hreads⟩ ih
  have hbalanced : ∀ p ∈ embeddedPieces (scanExpressions t), Balanced p.2 :=
    ((List.forall₂_and_left _ _).1 (hpieces.imp fun _ _ hpq => ⟨hpq.2.balanced, hpq⟩)).1
  obtain ⟨span, hlex⟩ := lex_template 0 (scanExpressions t).tail hbalanced
  rw [embed_fragment h]
  refine parseAt_iff_derives.2 ⟨_, hlex, ?_⟩
  obtain ⟨d⟩ := derives_literal 1 (scanExpressions t).tail hpieces
  exact Derives.ofAtom ⟨.template d⟩

end Stencil.Expr
