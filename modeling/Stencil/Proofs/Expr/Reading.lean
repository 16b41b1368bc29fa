import Stencil.Proofs.Expr.Grammar
import Stencil.Proofs.Expr.Rule
import Stencil.Proofs.Failure

/-!
# What is read is in the grammar

Each rule recognizes the phrases of a symbol, given that the rule for inner expressions
does and that the sources of interpolations are read rightly. So does the rule for
expressions, by induction on its bound.
-/

namespace Stencil.Expr

open Stencil.Expr.Parser

/-! ## Erasing ranges -/

theorem eraseItems_eq_map (es : List Tree) : eraseItems es = es.map Tree.erase := by
  induction es with
  | nil => rfl
  | cons e es ih => rw [eraseItems, ih, List.map_cons]

theorem eraseProperties_eq_map (ps : List (Text × Tree)) :
    eraseProperties ps = ps.map (Prod.map id Tree.erase) := by
  induction ps with
  | nil => rfl
  | cons p ps ih => rw [eraseProperties, ih, List.map_cons]; rfl

theorem erase_attach (object : Tree) (l : Link × Span) :
    (attach object l).erase = attachLink object.erase l.1.erase := by
  obtain ⟨l, span⟩ := l
  cases l <;> rfl

theorem erase_foldl_attach (links : List (Link × Span)) (object : Tree) :
    (links.foldl attach object).erase =
      (links.map fun l => l.1.erase).foldl attachLink object.erase := by
  induction links generalizing object with
  | nil => rfl
  | cons l links ih => rw [List.foldl_cons, ih, erase_attach, List.map_cons, List.foldl_cons]

theorem erase_foldl_applyBinary (others : List (BinaryOp × Tree)) (first : Tree) :
    (others.foldl applyBinary first).erase =
      (others.map (Prod.map id Tree.erase)).foldl joinOperand first.erase := by
  induction others generalizing first with
  | nil => rfl
  | cons o others ih => rw [List.foldl_cons, ih, List.map_cons, List.foldl_cons]; rfl

/-! ## Operators of a level -/

/-- The rule for the operators of a level. -/
def levelOperator : (level : Nat) → Rule BinaryOp
  | 0 => productOperator
  | 1 => sumOperator
  | 2 => comparisonOperator
  | 3 => equalityOperator
  | 4 => andOperator
  | 5 => orOperator
  | _ => fun _ r => (none, r)

/-- The rule for the operands of a level. -/
def operandRule (sub : SourceReader) (expr : Rule Tree) : (level : Nat) → Rule Tree
  | 0 => unary sub expr
  | level + 1 => joined (levelOperator level) (operandRule sub expr level)

/-! ## Terminals -/

namespace Rule

theorem recognizes_name : name.Recognizes fun ts t => ts = [.name t] := by
  refine (recognizes_token _ _).mono ?_
  rintro ts a ⟨t, ht, rfl⟩
  cases t with
  | name t =>
      cases ht
      rfl
  | _ => cases ht

theorem recognizes_key : key.Recognizes fun ts k => ∃ t, t.key? = some k ∧ ts = [t] := by
  refine (recognizes_token _ _).mono ?_
  rintro ts k ⟨t, ht, rfl⟩
  refine ⟨t, ?_, rfl⟩
  cases t <;> exact ht

theorem recognizes_unaryOperator :
    unaryOperator.Recognizes fun ts op => ts = [UnaryOp.token op] := by
  refine (recognizes_token _ _).mono ?_
  rintro ts op ⟨t, ht, rfl⟩
  cases t with
  | operator o => cases o <;> cases ht <;> rfl
  | keyword k =>
      cases k <;> cases ht
      rfl
  | _ => cases ht

theorem recognizes_levelOperator (level : Nat) : (levelOperator level).Recognizes fun ts op =>
    op.level = level ∧ ts = [.operator op.written] := by
  have hselect : ∀ f : Token → Option BinaryOp,
      (∀ t op, f t = some op → op.level = level ∧ t = .operator op.written) →
      (select f).Recognizes fun ts op => op.level = level ∧ ts = [.operator op.written] := by
    intro f hf
    refine (recognizes_token _ f).mono ?_
    rintro ts op ⟨t, ht, rfl⟩
    obtain ⟨hlevel, rfl⟩ := hf t op ht
    exact ⟨hlevel, rfl⟩
  match level with
  | 0 | 1 | 2 | 3 | 5 =>
      refine hselect _ fun t op ht => ?_
      cases t with
      | operator o => cases o <;> cases ht <;> exact ⟨rfl, rfl⟩
      | _ => cases ht
  | 4 =>
      refine (recognizes_token _ _).map ?_
      rintro ts ⟨⟩ ⟨t, ht, rfl⟩
      cases t with
      | operator o =>
          cases o <;> cases ht
          exact ⟨rfl, rfl⟩
      | _ => cases ht
  | level + 6 =>
      intro s r op s' h
      cases h

/-! ## Lists -/

theorem recognizes_commaSeparated {α : Type} {p : Rule α} {e : Entry} {g : α → e.Value}
    (hp : p.Recognizes fun ts a => Derives (.entry e) ts (g a)) :
    (commaSeparated p).Recognizes fun ts as => Derives (.entries e) ts (as.map g) := by
  -- what the repetition reads comes before any further rest of a list
  have hnext : ((mark .comma).andThen p).Recognizes fun ts a =>
      ∃ us, ts = .mark .comma :: us ∧ Derives (.entry e) us (g a) := by
    refine (recognizes_mark .comma).andThen hp ?_
    rintro ts us ⟨⟩ a rfl ha
    exact ⟨us, rfl, ha⟩
  have hmany : (many ((mark .comma).andThen p)).Recognizes fun ts as => ∀ us vs,
      Derives (.more e) us vs → Derives (.more e) (ts ++ us) (as.map g ++ vs) := by
    refine hnext.many (fun us vs h => h) ?_
    rintro ts us a as ⟨ts, rfl, ⟨first⟩⟩ ih ws vs hrest
    obtain ⟨rest⟩ := ih ws vs hrest
    rw [List.append_assoc, List.cons_append]
    exact ⟨.nextEntry first rest⟩
  have hcomma : (perhaps (mark .comma)).Recognizes fun ts _ => Derives (.more e) ts [] := by
    refine (recognizes_mark .comma).perhaps ?_ ⟨.ended e⟩
    rintro ts ⟨⟩ rfl
    exact ⟨.trailingComma e⟩
  refine .orElse ?_ (.pure ⟨.noEntries e⟩)
  refine hp.bind fun ts first hfirst => hmany.bind fun us others hothers => hcomma.map ?_
  rintro ws - hws
  obtain ⟨first⟩ := hfirst
  obtain ⟨rest⟩ := hothers ws [] hws
  rw [List.append_nil] at rest
  exact ⟨.firstEntry first rest⟩

theorem recognizes_pieces {α : Type} {p : Rule α} {k : Piece} {g : α → k.Value}
    (hp : p.Recognizes fun ts a => Derives (.piece k) ts (g a)) :
    (many p).Recognizes fun ts as => Derives (.pieces k) ts (as.map g) := by
  refine hp.many ⟨.noPieces k⟩ ?_
  rintro ts us a as ⟨first⟩ ⟨rest⟩
  exact ⟨.morePieces first rest⟩

/-! ## Atoms -/

/-- What the reader of sources reads is in the grammar. -/
def ReaderSound (sub : SourceReader) : Prop :=
  ∀ source offset e, sub source offset = .ok e →
    ∃ lexemes, lex source offset = .ok lexemes ∧
      Derives .expression (lexemes.map Lexeme.token) e.erase

variable {sub : SourceReader} {expr : Rule Tree}

theorem recognizes_literal : literal.Recognizes fun ts e => Derives .atom ts e.erase := by
  refine (recognizes_token _ _).spanned.map ?_
  rintro ts ⟨node, span⟩ ⟨t, ht, rfl⟩
  refine ⟨.literal ?_⟩
  cases t with
  | keyword k => cases k <;> cases ht <;> rfl
  | _ => cases ht <;> rfl

theorem derives_templateParts (hsub : ReaderSound sub) {chunks : List Chunk} {parts : List Part}
    (h : templateParts sub chunks = .ok parts) :
    Derives .template [.template chunks] (.template nowhere (eraseParts parts)) := by
  induction chunks generalizing parts with
  | nil =>
      obtain rfl := Except.ok.inj h
      exact ⟨.noParts⟩
  | cons chunk chunks ih =>
      cases chunk with
      | text t =>
          obtain ⟨rest, hrest, h⟩ := Except.bind_eq_ok_iff.1 h
          obtain rfl := Except.ok.inj h
          obtain ⟨drest⟩ := ih hrest
          exact ⟨.textPart t drest⟩
      | code source offset =>
          obtain ⟨e, he, h⟩ := Except.bind_eq_ok_iff.1 h
          obtain ⟨rest, hrest, h⟩ := Except.bind_eq_ok_iff.1 h
          obtain rfl := Except.ok.inj h
          obtain ⟨lexemes, hlex, ⟨inner⟩⟩ := hsub source offset e he
          obtain ⟨drest⟩ := ih hrest
          exact ⟨.codePart hlex inner drest⟩

theorem recognizes_template (hsub : ReaderSound sub) :
    (template sub).Recognizes fun ts e => Derives .template ts e.erase := by
  intro s r e s' h
  unfold template at h
  split at h
  · cases h
  · next chunks span after r' heq =>
      split at h
      · next parts hparts =>
          obtain ⟨rfl, rfl⟩ := Prod.mk.inj (Option.some.inj h)
          obtain ⟨ts, hts, t, ht, rfl⟩ :=
            (recognizes_token _ _).spanned s r _ after (congrArg Prod.fst heq)
          refine ⟨[t], hts, ?_⟩
          cases t with
          | template chunks' =>
              cases ht
              exact derives_templateParts hsub hparts
          | _ => cases ht
      · cases h

theorem recognizes_params :
    params.Recognizes fun ts names => Derives .params ts names := by
  refine .orElse (recognizes_name.map ?_) ((recognizes_commaSeparated (e := .name) (g := id)
    (recognizes_name.mono ?_)).between.mono ?_)
  · rintro ts t rfl
    exact ⟨.single t⟩
  · rintro ts t rfl
    exact ⟨.name t⟩
  · rintro ts names ⟨us, ⟨list⟩, rfl⟩
    rw [List.map_id] at list
    exact ⟨.several list⟩

variable (hsub : ReaderSound sub)
  (hexpr : expr.Recognizes fun ts e => Derives .expression ts e.erase)

include hexpr

theorem recognizes_items :
    (items expr).Recognizes fun ts es => Derives (.entries .item) ts (es.map Tree.erase) := by
  refine recognizes_commaSeparated (hexpr.mono ?_)
  rintro ts e ⟨inner⟩
  exact ⟨.item inner⟩

theorem recognizes_property :
    (property expr).Recognizes fun ts p =>
      Derives (.entry .property) ts (Prod.map id Tree.erase p) := by
  refine .orElse ?_ (recognizes_name.spanned.map ?_)
  · refine (recognizes_key.andSkip (recognizes_mark .colon)
      (N := fun ts k => ∃ t, t.key? = some k ∧ ts = [t, .mark .colon]) ?_).both hexpr ?_
    · rintro ts us k ⟨⟩ ⟨t, ht, rfl⟩ rfl
      exact ⟨t, ht, rfl⟩
    · rintro ts us k e ⟨t, ht, rfl⟩ ⟨inner⟩
      exact ⟨.property ht inner⟩
  · rintro ts ⟨t, span⟩ rfl
    exact ⟨.shorthand t⟩

theorem recognizes_array : (array expr).Recognizes fun ts e => Derives .atom ts e.erase := by
  refine (recognizes_items hexpr).between.spanned.map ?_
  rintro ts ⟨es, span⟩ ⟨us, ⟨list⟩, rfl⟩
  rw [Tree.erase, eraseItems_eq_map]
  exact ⟨.array list⟩

theorem recognizes_object : (object expr).Recognizes fun ts e => Derives .atom ts e.erase := by
  refine (recognizes_commaSeparated (recognizes_property hexpr)).between.spanned.map ?_
  rintro ts ⟨ps, span⟩ ⟨us, ⟨list⟩, rfl⟩
  rw [Tree.erase, eraseProperties_eq_map]
  exact ⟨.object list⟩

theorem recognizes_parenthesized :
    (parenthesized expr).Recognizes fun ts e => Derives .atom ts e.erase := by
  refine hexpr.between.mono ?_
  rintro ts e ⟨us, ⟨inner⟩, rfl⟩
  exact ⟨.parenthesized inner⟩

theorem recognizes_link :
    (link expr).Recognizes fun ts l => Derives (.piece .link) ts l.erase := by
  have hbracketed : (bracketed expr).Recognizes fun ts e =>
      ∃ us, Derives .expression us e.erase ∧ ts = enclosed .bracketOpen us .bracketClose :=
    hexpr.between
  refine .orElse ?_ (.orElse ?_ (.orElse ?_ (.orElse ?_ ?_)))
  · refine ((recognizes_mark .dot).andThen recognizes_name
      (N := fun ts t => ts = [.mark .dot, .name t]) ?_).map ?_
    · rintro ts us ⟨⟩ t rfl rfl
      rfl
    · rintro ts t rfl
      exact ⟨.member t⟩
  · refine ((recognizes_mark .optionalDot).andThen recognizes_name
      (N := fun ts t => ts = [.mark .optionalDot, .name t]) ?_).map ?_
    · rintro ts us ⟨⟩ t rfl rfl
      rfl
    · rintro ts t rfl
      exact ⟨.optionalMember t⟩
  · refine ((recognizes_mark .optionalDot).andThen hbracketed
      (N := fun ts e => ∃ us, Derives .expression us e.erase ∧
        ts = .mark .optionalDot :: enclosed .bracketOpen us .bracketClose) ?_).map ?_
    · rintro ts us ⟨⟩ e rfl ⟨vs, he, rfl⟩
      exact ⟨vs, he, rfl⟩
    · rintro ts e ⟨us, ⟨inner⟩, rfl⟩
      exact ⟨.optionalIndex inner⟩
  · refine hbracketed.map ?_
    rintro ts e ⟨us, ⟨inner⟩, rfl⟩
    exact ⟨.index inner⟩
  · refine (recognizes_items hexpr).between.map ?_
    rintro ts es ⟨us, ⟨list⟩, rfl⟩
    rw [Link.erase, eraseItems_eq_map]
    exact ⟨.call list⟩

theorem recognizes_branches : (branches expr).Recognizes fun ts x => ∃ us vs,
    Derives .expression us x.1.erase ∧ Derives .expression vs x.2.erase ∧
      ts = .mark .question :: (us ++ .mark .colon :: vs) := by
  refine (((recognizes_mark .question).andThen hexpr
    (N := fun ts e => ∃ us, Derives .expression us e.erase ∧ ts = .mark .question :: us)
      ?_).andSkip (recognizes_mark .colon)
    (N := fun ts e => ∃ us, Derives .expression us e.erase ∧
      ts = .mark .question :: (us ++ [.mark .colon])) ?_).both hexpr ?_
  · rintro ts us ⟨⟩ e rfl he
    exact ⟨us, he, rfl⟩
  · rintro ts us e ⟨⟩ ⟨vs, he, rfl⟩ rfl
    exact ⟨vs, he, rfl⟩
  · rintro ts us a b ⟨vs, ha, rfl⟩ hb
    exact ⟨vs, us, ha, hb, by simp⟩

theorem recognizes_arrow :
    (arrow expr).Recognizes fun ts e => Derives .expression ts e.erase := by
  refine ((recognizes_params.andSkip (recognizes_mark .arrow)
    (N := fun ts names => ∃ us, Derives .params us names ∧ ts = us ++ [.mark .arrow])
      ?_).both hexpr (N := fun ts x => Derives .expression ts (.arrow nowhere x.1 x.2.erase))
      ?_).spanned.map ?_
  · rintro ts us names ⟨⟩ hparams rfl
    exact ⟨ts, hparams, rfl⟩
  · rintro ts us names e ⟨vs, ⟨params⟩, rfl⟩ ⟨inner⟩
    rw [List.append_assoc]
    exact ⟨.arrow params inner⟩
  · rintro ts ⟨⟨names, e⟩, span⟩ h
    exact h

include hsub

theorem recognizes_atom : (atom sub expr).Recognizes fun ts e => Derives .atom ts e.erase := by
  refine recognizes_literal.orElse (.orElse ?_ ((recognizes_parenthesized hexpr).orElse
    ((recognizes_array hexpr).orElse (recognizes_object hexpr))))
  refine (recognizes_template hsub).mono ?_
  rintro ts e ⟨parts⟩
  exact ⟨.template parts⟩

theorem recognizes_chain : (chain sub expr).Recognizes fun ts e => Derives .chain ts e.erase := by
  have hlinks : (many (link expr).spanned).Recognizes fun ts links =>
      Derives (.pieces .link) ts (links.map fun l => l.1.erase) :=
    recognizes_pieces (recognizes_link hexpr).spanned
  refine (recognizes_atom hsub hexpr).bind fun ts first hfirst => hlinks.map ?_
  rintro us links ⟨rest⟩
  obtain ⟨first⟩ := hfirst
  rw [erase_foldl_attach]
  exact ⟨.chain first rest⟩

theorem recognizes_unary :
    (unary sub expr).Recognizes fun ts e => Derives (.operand 0) ts e.erase := by
  -- operators come before any operand
  have hops : (many unaryOperator.spanned).Recognizes fun ts ops => ∀ us e,
      Derives (.operand 0) us e.erase →
        Derives (.operand 0) (ts ++ us) (ops.foldr applyUnary e).erase := by
    refine recognizes_unaryOperator.spanned.many (fun us e h => h) ?_
    rintro ts us ⟨op, span⟩ ops rfl ih vs e he
    obtain ⟨operand⟩ := ih vs e he
    exact ⟨.prefixed op operand⟩
  refine hops.bind fun ts ops hops => (recognizes_chain hsub hexpr).map ?_
  rintro us e ⟨chain⟩
  exact hops us e ⟨.bare chain⟩

theorem recognizes_operandRule (level : Nat) :
    (operandRule sub expr level).Recognizes fun ts e => Derives (.operand level) ts e.erase := by
  induction level with
  | zero => exact recognizes_unary hsub hexpr
  | succ level ih =>
      have hjoin : ((levelOperator level).both (operandRule sub expr level)).Recognizes
          fun ts x => Derives (.piece (.join level)) ts (Prod.map id Tree.erase x) := by
        refine (recognizes_levelOperator level).both ih ?_
        rintro ts us op e ⟨hlevel, rfl⟩ ⟨operand⟩
        exact ⟨.join op hlevel operand⟩
      refine ih.bind fun ts first hfirst => (recognizes_pieces hjoin).map ?_
      rintro us others ⟨rest⟩
      obtain ⟨first⟩ := hfirst
      rw [erase_foldl_applyBinary]
      exact ⟨.joined first rest⟩

theorem recognizes_conditional :
    (conditional sub expr).Recognizes fun ts e => Derives .expression ts e.erase := by
  refine ((recognizes_operandRule hsub hexpr 6).both
    ((recognizes_branches hexpr).perhaps (fun _ _ h => h) (N := fun ts o =>
      match o with
      | some x => ∃ us vs, Derives .expression us x.1.erase ∧ Derives .expression vs x.2.erase ∧
          ts = .mark .question :: (us ++ .mark .colon :: vs)
      | none => ts = []) rfl)
    (N := fun ts x => ∃ us vs, ts = us ++ vs ∧ Derives (.operand 6) us x.1.erase ∧
      match x.2 with
      | some y => ∃ ws xs, Derives .expression ws y.1.erase ∧ Derives .expression xs y.2.erase ∧
          vs = .mark .question :: (ws ++ .mark .colon :: xs)
      | none => vs = []) fun ts us e o he ho => ⟨ts, us, rfl, he, ho⟩).map ?_
  rintro ts ⟨test, branches⟩ ⟨us, vs, rfl, ⟨first⟩, hbranches⟩
  cases branches with
  | none =>
      obtain rfl := hbranches
      rw [List.append_nil]
      exact ⟨.disjunction first⟩
  | some y =>
      obtain ⟨ws, xs, ⟨second⟩, ⟨third⟩, rfl⟩ := hbranches
      exact ⟨.conditional first second third⟩

omit hexpr in
/-- **What is read is in the grammar.** -/
theorem recognizes_expression (bound : Nat) :
    (expression sub bound).Recognizes fun ts e => Derives .expression ts e.erase := by
  induction bound with
  | zero =>
      intro s r e s' h
      cases h
  | succ bound ih => exact (recognizes_arrow ih).orElse (recognizes_conditional hsub ih)

end Rule

end Stencil.Expr
