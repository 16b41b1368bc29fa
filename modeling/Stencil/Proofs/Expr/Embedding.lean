import Stencil.Expr.Embedding
import Stencil.Proofs.Expr.Nesting
import Stencil.Proofs.Markup.Tiling

/-!
# Markup as a template literal

What `embed` writes for a fragment is one template literal: the walk that looks for its
end stops at its last character (`closing_weaveLiteral`), and it is cut into the gaps of
the fragment, as they were, and the embedded regions (`templateChunks_weaveLiteral`).
The bound of `embedWith` is no more than a bound (`embedWith_eq_embed`), so a region is
embedded as it would be on its own (`embed_fragment`).
-/

namespace Stencil.Expr

open Markup

variable {below : List Layer}

/-! ## Literal text -/

/-- Whether a character stands for itself in the literal text of a template. -/
def isLiteral (c : Char) : Bool :=
  c ≠ '\\' && c ≠ '\x60' && c ≠ '$'

theorem escapeLiteral_cons (c : Char) (t : Text) :
    escapeLiteral (c :: t) = (if isLiteral c then [c] else ['\\', c]) ++ escapeLiteral t := by
  rw [escapeLiteral, List.flatMap_cons, ← escapeLiteral]
  congr 1
  by_cases hslash : c = '\\'
  · simp [isLiteral, hslash]
  by_cases hbacktick : c = '\x60'
  · simp [isLiteral, hbacktick]
  by_cases hdollar : c = '$'
  · simp [isLiteral, hdollar]
  · simp [isLiteral, hslash, hbacktick, hdollar]

theorem isLiteral_iff {c : Char} : isLiteral c = true ↔ c ≠ '\\' ∧ c ≠ '\x60' ∧ c ≠ '$' := by
  simp [isLiteral, and_assoc]

theorem eq_of_not_isLiteral {c : Char} (h : isLiteral c = false) :
    c = '\\' ∨ c = '\x60' ∨ c = '$' := by
  by_contra hne
  simp only [not_or] at hne
  rw [isLiteral_iff.2 hne] at h
  cases h

/-- Literal text stays in the template. -/
theorem leads_escapeLiteral (t : Text) :
    Leads (.template :: below) (escapeLiteral t) (.template :: below) := by
  induction t with
  | nil => exact .nil _
  | cons c t ih =>
      rw [escapeLiteral_cons]
      refine Leads.append ?_ ih
      split
      · next h =>
          obtain ⟨hslash, hbacktick, hdollar⟩ := isLiteral_iff.1 h
          exact .char fun next => by simp [Layer.step, hslash, hbacktick, hdollar]
      · exact .escape rfl

/-- Escaping is undone where the literal is read. -/
theorem resolveEscapes_escapeLiteral (t : Text) : resolveEscapes (escapeLiteral t) = t := by
  induction t with
  | nil => rfl
  | cons c t ih =>
      rw [escapeLiteral_cons]
      cases h : isLiteral c with
      | true =>
          obtain ⟨hslash, -, -⟩ := isLiteral_iff.1 h
          rw [if_pos rfl, List.singleton_append, resolveEscapes, ih]
          all_goals simp [hslash]
      | false =>
          obtain rfl | rfl | rfl := eq_of_not_isLiteral h <;>
            simp [resolveEscapes, ih]

theorem escapeLiteral_eq_nil {t : Text} : escapeLiteral t = [] ↔ t = [] := by
  cases t with
  | nil => simp [escapeLiteral]
  | cons c t =>
      rw [escapeLiteral_cons]
      split <;> simp

/-- A gap as a chunk, none for an empty one. -/
def gapChunk (gap : Text) : List Chunk :=
  if gap = [] then [] else [.text gap]

theorem textChunk_escapeLiteral (gap : Text) : textChunk (escapeLiteral gap) = gapChunk gap := by
  simp only [textChunk, gapChunk, escapeLiteral_eq_nil, resolveEscapes_escapeLiteral]

/-- Literal text is taken in as it stands. -/
theorem templateChunksFrom_escapeLiteral (seen : Text) (offset : Nat) (t rest : Text) :
    templateChunksFrom seen offset (escapeLiteral t ++ rest) =
      templateChunksFrom ((escapeLiteral t).reverse ++ seen)
        (offset + Text.byteLength (escapeLiteral t)) rest := by
  induction t generalizing seen offset with
  | nil => rfl
  | cons c t ih =>
      rw [escapeLiteral_cons]
      cases h : isLiteral c with
      | true =>
          obtain ⟨hslash, hbacktick, hdollar⟩ := isLiteral_iff.1 h
          rw [if_pos rfl, List.append_assoc, List.singleton_append, templateChunksFrom, ih]
          · simp [Nat.add_assoc]
          all_goals simp [hslash, hdollar]
      | false =>
          rw [if_neg (by simp), List.append_assoc, List.cons_append, List.singleton_append,
            templateChunksFrom, ih]
          have hslash : Char.utf8Size '\\' = 1 := rfl
          simp [Nat.add_assoc, hslash]

/-! ## The whole literal -/

/-- The inside of a template literal: gaps with the source of an interpolation behind each,
and the text after the last. -/
def weaveLiteral (pieces : List (Text × Text)) (tail : Text) : Text :=
  match pieces with
  | [] => escapeLiteral tail
  | (gap, source) :: pieces =>
      escapeLiteral gap ++ '$' :: '{' :: source ++ '}' :: weaveLiteral pieces tail

/-- The chunks of the inside of a template literal that stands at `offset`. -/
def literalChunks (offset : Nat) (pieces : List (Text × Text)) (tail : Text) : List Chunk :=
  match pieces with
  | [] => gapChunk tail
  | (gap, source) :: pieces =>
      let start := offset + Text.byteLength (escapeLiteral gap) + 2
      gapChunk gap ++ .code source start ::
        literalChunks (start + Text.byteLength source + 1) pieces tail

/-- The tokens of a source are read, and its braces balance. -/
def Balanced (source : Text) : Prop :=
  ∃ base lexemes, lex source base = .ok lexemes ∧
    braceDepth 0 (lexemes.map Lexeme.token) = some 0

theorem leads_weaveLiteral {pieces : List (Text × Text)} (tail : Text)
    (h : ∀ p ∈ pieces, Balanced p.2) :
    Leads (.template :: below) (weaveLiteral pieces tail) (.template :: below) := by
  induction pieces with
  | nil => exact leads_escapeLiteral tail
  | cons p pieces ih =>
      obtain ⟨gap, source⟩ := p
      obtain ⟨⟨base, lexemes, hlex, hbraces⟩, hrest⟩ := List.forall_mem_cons.1 h
      have hopening : Leads (.template :: below) ['$', '{'] (.code 0 :: .template :: below) :=
        .escape rfl
      have hclosing : Leads (.code 0 :: .template :: below) ['}'] (.template :: below) :=
        .char fun next => rfl
      have hwalk := ((((leads_escapeLiteral gap).append hopening).append
        (leads_of_lex hlex hbraces)).append hclosing).append (ih hrest)
      rw [weaveLiteral]
      simpa using hwalk

/-- The literal ends at the backtick behind it. -/
theorem closing_weaveLiteral {pieces : List (Text × Text)} (tail : Text)
    (h : ∀ p ∈ pieces, Balanced p.2) (rest : Text) :
    closing .template (weaveLiteral pieces tail ++ '\x60' :: rest) =
      some (weaveLiteral pieces tail, rest) := by
  rw [closing, leads_weaveLiteral tail h]
  simp [closingFrom, Layer.step]

/-- **The literal is cut where it was put together.** -/
theorem templateChunks_weaveLiteral (offset : Nat) {pieces : List (Text × Text)} (tail : Text)
    (h : ∀ p ∈ pieces, Balanced p.2) :
    templateChunks offset (weaveLiteral pieces tail) = literalChunks offset pieces tail := by
  unfold templateChunks
  induction pieces generalizing offset with
  | nil =>
      have hchunks := templateChunksFrom_escapeLiteral [] offset tail []
      simpa [weaveLiteral, literalChunks, templateChunksFrom, textChunk_escapeLiteral]
        using hchunks
  | cons p pieces ih =>
      obtain ⟨gap, source⟩ := p
      obtain ⟨⟨base, lexemes, hlex, hbraces⟩, hrest⟩ := List.forall_mem_cons.1 h
      rw [weaveLiteral, List.append_assoc, templateChunksFrom_escapeLiteral, List.cons_append,
        List.cons_append, templateChunksFrom, List.append_nil, List.reverse_reverse,
        textChunk_escapeLiteral]
      have hclosing := closing_of_lex hlex hbraces (weaveLiteral pieces tail)
      split
      · next source' after heq =>
          rw [hclosing] at heq
          cases heq
          rw [ih _ hrest, literalChunks]
      · next heq =>
          rw [hclosing] at heq
          cases heq

/-- A fragment is one template token. -/
theorem lex_template (base : Nat) {pieces : List (Text × Text)} (tail : Text)
    (h : ∀ p ∈ pieces, Balanced p.2) :
    ∃ span, lex ('\x60' :: weaveLiteral pieces tail ++ ['\x60']) base =
      .ok [⟨.template (literalChunks (base + 1) pieces tail), span⟩] := by
  have hclosing := closing_weaveLiteral tail h []
  have hread : Lexer.readToken base '\x60' (weaveLiteral pieces tail ++ ['\x60']) =
      .ok (.template (literalChunks (base + 1) pieces tail),
        (weaveLiteral pieces tail).length + 1) := by
    rw [← templateChunks_weaveLiteral _ tail h]
    exact Lexer.readToken_of_reading (.template rfl hclosing)
  have hdrop : (weaveLiteral pieces tail ++ ['\x60']).drop
      ((weaveLiteral pieces tail).length + 1) = [] := by simp
  rw [lex, List.cons_append, Lexer.lexFrom, if_neg (by decide), hread]
  dsimp only
  rw [hdrop, Lexer.lexFrom]
  exact ⟨_, rfl⟩

/-! ## The bound of the embedding -/

/-- What a region stands for is part of the text, and not empty. -/
theorem length_of_tiling {opening : Char} {whole : Region → Text} {tail t : Text}
    {offset : Nat} {rs : List Region} (h : Tiling opening whole tail offset rs t) :
    ∀ r ∈ rs, 0 < (whole r).length ∧ (whole r).length ≤ t.length := by
  induction h with
  | done => simp
  | @region offset r rs rest head unescaped closed start stop others ih =>
      refine List.forall_mem_cons.2 ⟨⟨List.length_pos_iff.2 fun hnil => ?_, ?_⟩,
        fun r' hr' => ?_⟩
      · rw [hnil] at head
        cases head
      · simp only [List.length_append]
        omega
      · have hrest := ih r' hr'
        simp only [List.length_append]
        omega

/-- A region of a text is shorter than the text. -/
theorem length_lt_of_mem_texts {t text : Text} (h : text ∈ (scanExpressions t).texts) :
    text.length < t.length := by
  obtain ⟨r, hr, rfl⟩ := List.mem_map.1 h
  have hle := (length_of_tiling (scanBraces_tiling '{' (by decide) t) r hr).2
  simp only [Region.enclosed, List.cons_append, List.length_cons, List.length_append] at hle
  omega

/-- A fragment is part of its text, and not empty. -/
theorem length_of_fragmentAt? {t fragment : Text} (h : fragmentAt? t = some fragment) :
    0 < fragment.length ∧ fragment.length ≤ t.length := by
  have hlength := length_of_tiling (scanTags_tiling none t)
  unfold fragmentAt? at h
  split at h
  · split at h
    · split at h
      · next r rs heq =>
          split at h
          · obtain rfl := Option.some.inj h
            exact hlength r (by rw [heq]; exact List.mem_cons_self)
          · cases h
      · cases h
    · cases h
  · cases h

/-- The bound of the embedding is no more than a bound. -/
theorem embedWith_eq_embedWith {fuel fuel' : Nat} {t : Text} (h : t.length ≤ fuel)
    (h' : t.length ≤ fuel') : embedWith fuel t = embedWith fuel' t := by
  induction fuel generalizing fuel' t with
  | zero =>
      obtain rfl := List.length_eq_zero_iff.1 (Nat.le_zero.1 h)
      cases fuel' <;> rfl
  | succ fuel ih =>
      cases t with
      | nil => cases fuel' <;> rfl
      | cons c rest =>
          cases fuel' with
          | zero => cases h'
          | succ fuel' =>
              simp only [List.length_cons, Nat.succ_le_succ_iff] at h h'
              have hrest : embedWith fuel rest = embedWith fuel' rest := ih h h'
              simp only [embedWith]
              split
              · split
                · next body after hclosing =>
                    have hlength := length_of_closing hclosing
                    have hafter : embedWith fuel after = embedWith fuel' after :=
                      ih (by omega) (by omega)
                    rw [hafter]
                · rfl
              · split
                · split
                  · rfl
                  · next d rest =>
                      simp only [List.length_cons] at h h'
                      have hafter : embedWith fuel rest = embedWith fuel' rest :=
                        ih (by omega) (by omega)
                      rw [hafter]
                · split
                  · next fragment hfragment =>
                      obtain ⟨hpos, hle⟩ := length_of_fragmentAt? hfragment
                      simp only [List.length_cons] at hle
                      have hdrop : ((c :: rest).drop fragment.length).length ≤ rest.length := by
                        simp only [List.length_drop, List.length_cons]
                        omega
                      rw [ih (Nat.le_trans hdrop h) (Nat.le_trans hdrop h')]
                      congr 2
                      refine List.map_congr_left fun text htext => ?_
                      have hlt := length_lt_of_mem_texts htext
                      exact ih (by omega) (by omega)
                  · rw [hrest]

/-! ## Fragments -/

/-- The gaps of a scan, each with the embedded region behind it. -/
def embeddedPieces (s : Scan) : List (Text × Text) :=
  s.regions.map fun r => (r.gap, embed r.text)

theorem templateOf_eq (s : Scan) :
    templateOf (s.texts.map embed) s =
      '\x60' :: weaveLiteral (embeddedPieces s) s.tail ++ ['\x60'] := by
  have hparts : ∀ rs : List Region,
      ((rs.zip ((rs.map Region.text).map embed)).flatMap fun p =>
        escapeLiteral p.1.gap ++ '$' :: '{' :: p.2 ++ ['}']) ++ escapeLiteral s.tail =
      weaveLiteral (rs.map fun r => (r.gap, embed r.text)) s.tail := by
    intro rs
    induction rs with
    | nil => rfl
    | cons r rs ih =>
        simp only [List.map_cons, weaveLiteral]
        rw [← ih]
        simp
  rw [embeddedPieces, ← hparts, templateOf, Scan.texts]
  simp

theorem embedWith_eq_embed {fuel : Nat} {t : Text} (h : t.length ≤ fuel) :
    embedWith fuel t = embed t :=
  embedWith_eq_embedWith h (Nat.le_succ _)

/-- **A fragment is embedded as one template literal**, and its regions as each would be on
its own. -/
theorem embed_fragment {t : Text} (h : fragmentAt? t = some t) :
    embed t =
      '\x60' :: weaveLiteral (embeddedPieces (scanExpressions t)) (scanExpressions t).tail ++
        ['\x60'] := by
  have hstart : ∃ rest, t = '<' :: rest := by
    unfold fragmentAt? at h
    split at h
    · exact ⟨_, rfl⟩
    · cases h
  obtain ⟨rest, rfl⟩ := hstart
  have htexts : (scanExpressions ('<' :: rest)).texts.map (embedWith ('<' :: rest).length) =
      (scanExpressions ('<' :: rest)).texts.map embed :=
    List.map_congr_left fun text htext =>
      embedWith_eq_embed (Nat.le_of_lt (length_lt_of_mem_texts htext))
  rw [← templateOf_eq, ← htexts]
  simp [embed, embedWith, literalLayer?, h]

end Stencil.Expr
