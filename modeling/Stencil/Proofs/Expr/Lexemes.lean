import Stencil.Proofs.Expr.Nesting
import Stencil.Proofs.Text.Range

/-!
# Tokens stand where they say

A token that is read off a source stands at its range: what the source holds there is the
token as written, in particular the name if it is one. The tokens come in the order of the
source (`placed_of_lex`). The interpolations of a template are cut out of the source where
their offsets say, one behind the other, and inside the template.
-/

namespace Stencil.Expr

/-- The interpolations among some chunks stand in a source from one offset up to another, one
behind the other. -/
def ChunksIn (source : Text) (base stop : Nat) : (start : Nat) → List Chunk → Prop
  | _, [] => True
  | start, .text _ :: chunks => ChunksIn source base stop start chunks
  | start, .code t offset :: chunks =>
      start ≤ offset ∧ offset + Text.byteLength t ≤ stop ∧
        Text.Holds source base ⟨offset, offset + Text.byteLength t⟩ t ∧
        ChunksIn source base stop (offset + Text.byteLength t) chunks

/-- What of a token can be told from where it stands: the name that it is, and the
interpolations in it. -/
def Token.Spells (source : Text) (base : Nat) (span : Span) : Token → Prop
  | .name t => Text.Holds source base span t
  | .template chunks => ChunksIn source base span.stop span.start chunks
  | _ => True

/-- A token that stands where it says. -/
structure Lexeme.Placed (source : Text) (base : Nat) (l : Lexeme) : Prop where
  text : ∃ t, t ≠ [] ∧ Text.Holds source base l.span t
  spells : l.token.Spells source base l.span

/-- One token stops before the other starts. -/
def Lexeme.Before (l m : Lexeme) : Prop :=
  l.span.stop ≤ m.span.start

variable {source t : Text} {base offset start stop : Nat} {chunks : List Chunk}

theorem Lexeme.Placed.lt {l : Lexeme} (h : l.Placed source base) : l.span.start < l.span.stop := by
  obtain ⟨t, hne, ht⟩ := h.text
  exact ht.lt hne

/-! ## Interpolations -/

theorem ChunksIn.mono (h : ChunksIn source base stop start chunks) {start' stop' : Nat}
    (hstart : start' ≤ start) (hstop : stop ≤ stop') :
    ChunksIn source base stop' start' chunks := by
  induction chunks generalizing start start' with
  | nil => trivial
  | cons chunk chunks ih =>
      cases chunk with
      | text t => exact ih h hstart
      | code t offset =>
          obtain ⟨hfirst, hlast, ht, hrest⟩ := h
          exact ⟨Nat.le_trans hstart hfirst, Nat.le_trans hlast hstop, ht,
            ih hrest (Nat.le_refl _)⟩

theorem chunksIn_textChunk (raw : Text) (h : ChunksIn source base stop start chunks) :
    ChunksIn source base stop start (textChunk raw ++ chunks) := by
  unfold textChunk
  split
  · exact h
  · exact h

/-- The body of a template is cut into texts and interpolations where it stands. -/
theorem chunksIn_templateChunksFrom (seen : Text) {body : Text}
    (h : Text.Holds source base ⟨offset, stop⟩ body) :
    ChunksIn source base stop offset (templateChunksFrom seen offset body) := by
  fun_induction templateChunksFrom seen offset body with
  | case1 seen =>
      rw [← List.append_nil (textChunk _)]
      exact chunksIn_textChunk _ trivial
  | case2 seen offset c rest ih =>
      have hrest : Text.Holds source base ⟨offset + 1 + c.utf8Size, stop⟩ rest := by
        have hsize : Text.byteLength ['\\', c] = 1 + c.utf8Size := rfl
        rw [Nat.add_assoc, ← hsize]
        exact Text.Holds.right (t := ['\\', c]) h
      exact (ih hrest).mono (by omega) (Nat.le_refl _)
  | case3 seen offset rest ih =>
      have hrest : Text.Holds source base ⟨offset + 2, stop⟩ rest :=
        Text.Holds.right (t := ['$', '{']) h
      refine chunksIn_textChunk _ ?_
      split
      · next code after hclosing =>
          -- the brace that ends the interpolation is one byte
          obtain rfl := closing_eq hclosing
          have hcode := hrest.left
          have hafter := hrest.right
          have hend : Text.Holds source base
              ⟨offset + 2 + Text.byteLength code + 1, stop⟩ after :=
            Text.Holds.right (t := ['}']) hafter
          exact ⟨Nat.le_add_right _ _, hafter.start_le, hcode,
            (ih code after hclosing hend).mono (Nat.le_succ _) (Nat.le_refl _)⟩
      · have hstop := hrest.stop_eq
        dsimp only at hstop
        subst hstop
        exact ⟨Nat.le_add_right _ _, Nat.le_refl _, hrest, trivial⟩
  | case4 seen offset c rest _ _ ih =>
      have hrest : Text.Holds source base ⟨offset + c.utf8Size, stop⟩ rest :=
        Text.Holds.right (t := [c]) h
      exact (ih hrest).mono (Nat.le_add_right _ _) (Nat.le_refl _)

/-! ## Tokens -/

theorem spells_readToken {c : Char} {rest : Text} {token : Token} {more : Nat}
    (h : Lexer.readToken offset c rest = .ok (token, more))
    (ht : Text.Holds source base ⟨offset, stop⟩ (c :: rest.take more)) :
    token.Spells source base ⟨offset, stop⟩ := by
  cases Lexer.reading_of_readToken h with
  | keyword | string | number => trivial
  | name =>
      rwa [← List.prefix_iff_eq_take.1 (List.takeWhile_prefix _)] at ht
  | template quote closed =>
      rename_i body after
      obtain rfl := closing_eq closed
      have htake : (body ++ Layer.template.closer :: after).take (body.length + 1) =
          body ++ [Layer.template.closer] := List.take_length_add_append 1
      subst quote
      rw [htake] at ht
      have hbody : Text.Holds source base ⟨offset + 1, offset + 1 + Text.byteLength body⟩ body :=
        (Text.Holds.right (t := ['\x60']) ht).left
      have hend := (Text.Holds.right (t := ['\x60']) ht).right.start_le
      exact (chunksIn_templateChunksFrom [] hbody).mono (Nat.le_succ _) hend
  | symbol _ _ symbol =>
      rcases Lexer.symbol_cases (Lexer.mem_symbols symbol) with ⟨o, heq⟩ | ⟨m, heq⟩
      · cases heq
        trivial
      · cases heq
        trivial

/-- **The tokens of a source stand where they say**, in the order of the source. -/
theorem placed_of_lexFrom {lexemes : List Lexeme} (h : Lexer.lexFrom offset t = .ok lexemes)
    (ht : Text.Holds source base ⟨offset, stop⟩ t) :
    (∀ l ∈ lexemes, l.Placed source base ∧ offset ≤ l.span.start) ∧
      lexemes.Pairwise Lexeme.Before := by
  fun_induction Lexer.lexFrom offset t generalizing lexemes with
  | case1 =>
      obtain rfl := Except.ok.inj h
      simp
  | case2 offset c rest _ ih =>
      have hrest : Text.Holds source base ⟨offset + c.utf8Size, stop⟩ rest :=
        Text.Holds.right (t := [c]) ht
      obtain ⟨hplaced, hordered⟩ := ih h hrest
      exact ⟨fun l hl => ⟨(hplaced l hl).1, Nat.le_of_add_right_le (hplaced l hl).2⟩, hordered⟩
  | case3 => cases h
  | case4 => cases h
  | case5 offset c rest _ token more hread after others hothers =>
      rename_i ih
      obtain rfl := Except.ok.inj h
      have hsplit : c :: rest = (c :: rest.take more) ++ rest.drop more := by simp
      rw [hsplit] at ht
      have htoken : Text.Holds source base ⟨offset, after⟩ (c :: rest.take more) := by
        have := ht.left
        rwa [Text.byteLength_cons, ← Nat.add_assoc] at this
      have hrest : Text.Holds source base ⟨after, stop⟩ (rest.drop more) := by
        have := ht.right
        rwa [Text.byteLength_cons, ← Nat.add_assoc] at this
      obtain ⟨hplaced, hordered⟩ := ih hothers hrest
      have hfirst : Lexeme.Placed source base ⟨token, ⟨offset, after⟩⟩ :=
        ⟨⟨_, List.cons_ne_nil _ _, htoken⟩, spells_readToken hread htoken⟩
      refine ⟨List.forall_mem_cons.2 ⟨⟨hfirst, Nat.le_refl _⟩, fun l hl => ?_⟩,
        List.pairwise_cons.2 ⟨fun l hl => (hplaced l hl).2, hordered⟩⟩
      exact ⟨(hplaced l hl).1, Nat.le_trans (Nat.le_of_lt hfirst.lt) (hplaced l hl).2⟩

theorem placed_of_lex {lexemes : List Lexeme} (h : lex source base = .ok lexemes) :
    (∀ l ∈ lexemes, l.Placed source base) ∧ lexemes.Pairwise Lexeme.Before := by
  have hsource : Text.Holds source base ⟨base, base + Text.byteLength source⟩ source :=
    ⟨[], [], by simp, rfl⟩
  obtain ⟨hplaced, hordered⟩ := placed_of_lexFrom h hsource
  exact ⟨fun l hl => (hplaced l hl).1, hordered⟩

end Stencil.Expr
