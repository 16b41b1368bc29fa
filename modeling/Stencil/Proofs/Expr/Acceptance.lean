import Stencil.Proofs.Expr.Lexing
import Stencil.Proofs.Expr.Reading
import Stencil.Proofs.Expr.Unambiguous

/-!
# What is in the grammar is read

By induction on a derivation, the rule for its symbol reads its tokens wherever nothing
that follows could go on with them (`Derivation.accepted`). Where a choice is ordered
the rules before the right one must read nothing, and where a repetition stops its rule
must: in both cases because what they read would be a phrase (`Rule.Recognizes.rejects`),
and the grammar has no phrase there.

The rule for inner expressions has a bound on the tokens, which every phrase around an
expression leaves room for.
-/

namespace Stencil.Expr

open Rule Stencil.Expr.Parser

variable {σ : Symbol} {ts us rest : List Token} {sub : SourceReader} {expr : Rule Tree}

/-! ## The rules of the symbols -/

/-- What the rule for a piece gives. -/
abbrev Piece.Raw : Piece → Type
  | link => Parser.Link × Span
  | join _ => BinaryOp × Tree

/-- The rule for a piece. -/
def Piece.rule (sub : SourceReader) (expr : Rule Tree) : (p : Piece) → Rule p.Raw
  | link => (Parser.link expr).spanned
  | join level => (levelOperator level).both (operandRule sub expr level)

/-- What a piece that was read means. -/
def Piece.meaning : (p : Piece) → p.Raw → p.Value
  | link => fun l => l.1.erase
  | join _ => Prod.map id Tree.erase

/-- The rule for an entry. -/
def Entry.rule (expr : Rule Tree) : (e : Entry) → Rule e.Value
  | item => expr
  | property => Parser.property expr
  | name => Parser.name

/-- What an entry that was read means. -/
def Entry.meaning : (e : Entry) → e.Value → e.Value
  | item => Tree.erase
  | property => Prod.map id Tree.erase
  | name => id

section Sound

variable (hsub : ReaderSound sub)
  (hexpr : expr.Recognizes fun ts e => Derives .expression ts e.erase)
include hexpr

theorem Entry.recognizes_rule (e : Entry) :
    (e.rule expr).Recognizes fun ts a => Derives (.entry e) ts (e.meaning a) := by
  cases e with
  | item => exact hexpr.mono fun ts e ⟨inner⟩ => ⟨.item inner⟩
  | property => exact recognizes_property hexpr
  | name =>
      refine recognizes_name.mono ?_
      rintro ts t rfl
      exact ⟨.name t⟩

include hsub

theorem Piece.recognizes_rule (p : Piece) :
    (p.rule sub expr).Recognizes fun ts a => Derives (.piece p) ts (p.meaning a) := by
  cases p with
  | link => exact (recognizes_link hexpr).spanned
  | join level =>
      refine (recognizes_levelOperator level).both (recognizes_operandRule hsub hexpr level) ?_
      rintro ts us op e ⟨hlevel, rfl⟩ ⟨operand⟩
      exact ⟨.join op hlevel operand⟩

end Sound

/-! ## Where rules read nothing -/

theorem rejects_name (h : ∀ x, Token.name x ∉ ts.head?) : name.Rejects ts := by
  refine recognizes_name.rejects ?_
  rintro us vs x rfl rfl
  exact h x rfl

theorem rejects_literal (h : ∀ t ∈ ts.head?, t.literal? = none) : literal.Rejects ts := by
  refine Rejects.bind (Rejects.spanned (rejects_token _ fun t ht => ?_))
  have hnone := h t ht
  cases t with
  | keyword k => cases k <;> first | rfl | cases hnone
  | _ => first | rfl | cases hnone

theorem rejects_template (h : ∀ chunks, Token.template chunks ∉ ts.head?) :
    (template sub).Rejects ts := by
  intro s r hs
  have hread : ∀ f : Token → Option (List Chunk), (∀ t ∈ ts.head?, f t = none) →
      ((select f).spanned s r).1 = none :=
    fun f hf => Rejects.spanned (rejects_token [] hf) s r hs
  unfold template
  split
  · rfl
  · next heq =>
      refine absurd ((hread _ fun t ht => ?_).symm.trans (congrArg Prod.fst heq)) (by simp)
      cases t with
      | template chunks => exact absurd ht (h chunks)
      | _ => rfl

/-- A function is read only up to an arrow that follows parameters. -/
theorem rejects_arrow (h : ∀ us vs names, ts = us ++ .mark .arrow :: vs →
    ¬ Derives .params us names) : (arrow expr).Rejects ts := by
  refine Rejects.bind (Rejects.spanned (Rejects.bind ?_))
  refine (recognizes_params.andSkip (recognizes_mark .arrow)
    (N := fun ts names => ∃ us, Derives .params us names ∧ ts = us ++ [.mark .arrow])
    ?_).rejects ?_
  · rintro ts us names ⟨⟩ hparams rfl
    exact ⟨ts, hparams, rfl⟩
  · rintro ts vs names rfl ⟨us, hparams, rfl⟩
    exact h us vs names (List.append_assoc us _ vs) hparams

/-! ## Terminals -/

theorem accepts_name (x : Text) : name.Accepts [.name x] rest fun t => t = x :=
  accepts_token _ rfl

theorem accepts_literal {t : Token} {e : Tree} (h : t.literal? = some e) :
    literal.Accepts [t] rest fun e' => e'.erase = e := by
  have haccepts : ∀ node : Span → Tree, (∀ span, (node span).erase = e) → ∀ f : Token → Option _,
      f t = some node →
      ((select f).spanned.map fun p => p.1 p.2).Accepts [t] rest
        fun e' => e'.erase = e := by
    intro node hnode f hf
    refine (accepts_token [] hf).spanned.map ?_
    rintro ⟨_, span⟩ rfl
    exact hnode span
  cases t with
  | keyword k => cases k <;> cases h <;> exact haccepts _ (fun _ => rfl) _ rfl
  | _ => cases h <;> exact haccepts _ (fun _ => rfl) _ rfl

theorem accepts_key {t : Token} {k : Text} (h : t.key? = some k) :
    key.Accepts [t] rest fun k' => k' = k := by
  refine accepts_token _ ?_
  cases t <;> exact h

theorem accepts_levelOperator (op : BinaryOp) :
    (levelOperator op.level).Accepts [.operator op.written] rest fun op' => op' = op := by
  cases op with
  | and => exact Accepts.map (accepts_token (a := ()) _ rfl) fun _ _ => rfl
  | _ => exact accepts_token _ rfl

theorem accepts_template {chunks : List Chunk} {parts : List Part}
    (h : templateParts sub chunks = .ok parts) : (template sub).Accepts [.template chunks] rest
      fun e => e.erase = .template nowhere (eraseParts parts) := by
  intro s r hs
  have haccepts : ∀ f : Token → Option (List Chunk), f (.template chunks) = some chunks →
      ∀ {x}, (select f).spanned s r = x →
        ∃ span after, x.1 = some ((chunks, span), after) ∧ after.tokens = rest := by
    rintro f hf x rfl
    obtain ⟨⟨_, span⟩, after, hread, hrest, rfl⟩ := (accepts_token [] hf).spanned s r hs
    exact ⟨span, after, hread, hrest⟩
  unfold template
  split
  · next heq =>
      obtain ⟨span, after, hread, -⟩ := haccepts _ (by rfl) heq
      cases hread
  · next heq =>
      obtain ⟨span, after, hread, hrest⟩ := haccepts _ (by rfl) heq
      cases hread
      rw [h]
      exact ⟨_, _, rfl, hrest, rfl⟩

/-- An operator before what is an operand already. -/
theorem accepts_unary_prefixed (op : UnaryOp) {e : Tree}
    (h : (unary sub expr).Accepts ts rest fun e' => e'.erase = e) :
    (unary sub expr).Accepts (op.token :: ts) rest
      fun e' => e'.erase = .unary nowhere op e := by
  intro s r hs
  have hop : unaryOperator.spanned.Accepts [op.token] (ts ++ rest) fun x => x.1 = op := by
    have hselect : unaryOperator.Accepts [op.token] (ts ++ rest) fun op' => op' = op := by
      refine accepts_token _ ?_
      cases op <;> rfl
    exact hselect.spanned
  obtain ⟨⟨op', span⟩, s', hread, hs', hop'⟩ := hop s r hs
  obtain rfl : op' = op := hop'
  obtain ⟨e', s'', he', hrest, herase⟩ := h s' (unaryOperator.spanned s r).2 hs'
  refine ⟨applyUnary (op', span) e', s'', ?_, hrest, by rw [← herase]; rfl⟩
  have hmany : many unaryOperator.spanned s r =
      (many unaryOperator.spanned).map ((op', span) :: ·) s' (unaryOperator.spanned s r).2 :=
    many_of_some (recognizes_unaryOperator.spanned.shortens (by simp)) hread
  obtain ⟨ops, s₁, hops, hchain⟩ := bind_eq_some.1 he'
  refine bind_eq_some.2 ⟨(op', span) :: ops, s₁, ?_, ?_⟩
  · rw [hmany, map_apply, hops]
    rfl
  · rw [hmany, map_apply]
    rw [map_apply] at hchain ⊢
    obtain ⟨⟨operand, s₂⟩, hoperand, heq⟩ := Option.map_eq_some_iff.1 hchain
    cases heq
    rw [hoperand]
    rfl

/-! ## Derivations are read -/

/-- The reader of sources reads every source of an expression that is short enough. -/
def ReaderComplete (depth : Nat) (sub : SourceReader) : Prop :=
  ∀ source offset lexemes e, source.length < depth → lex source offset = .ok lexemes →
    Derives .expression (lexemes.map Lexeme.token) e →
      ∃ e', sub source offset = .ok e' ∧ e'.erase = e

/-- The rule for the symbol reads the tokens with this meaning. -/
def Symbol.Accepted (sub : SourceReader) (expr : Rule Tree) (ts rest : List Token) :
    (σ : Symbol) → σ.Value → Prop
  | expression, v => expr.Accepts ts rest fun e => e.erase = v
  | params, v => Parser.params.Accepts ts rest fun names => names = v
  | operand level, v => (operandRule sub expr level).Accepts ts rest fun e => e.erase = v
  | chain, v => (Parser.chain sub expr).Accepts ts rest fun e => e.erase = v
  | atom, v => (Parser.atom sub expr).Accepts ts rest fun e => e.erase = v
  | template, v => ∃ chunks parts, ts = [.template chunks] ∧
      templateParts sub chunks = .ok parts ∧ v = .template nowhere (eraseParts parts)
  | piece p, v => (p.rule sub expr).Accepts ts rest fun a => p.meaning a = v
  | pieces p, v => (many (p.rule sub expr)).Accepts ts rest fun as => as.map p.meaning = v
  | entry e, v => (e.rule expr).Accepts ts rest fun a => e.meaning a = v
  | entries e, v => (commaSeparated (e.rule expr)).Accepts ts rest fun as => as.map e.meaning = v
  | more e, v => ∃ us vs, ts = us ++ vs ∧
      (many ((mark .comma).andThen (e.rule expr))).Accepts us (vs ++ rest)
        (fun as => as.map e.meaning = v) ∧
      (perhaps (mark .comma)).Accepts vs rest fun _ => True

/-- How many tokens more than the expressions inside it a phrase has at least. -/
def Symbol.slack : Symbol → Nat
  | expression | entry _ | entries _ | more _ => 0
  | _ => 1

/-- There are at most so many tokens, and the sources in them are short enough. -/
structure Fits (depth bound : Nat) (ts : List Token) : Prop where
  within : ∀ t ∈ ts, t.Within depth
  length_le : ts.length ≤ bound

namespace Fits

variable {depth bound : Nat} {t : Token}

theorem left (h : Fits depth bound (ts ++ us)) : Fits depth bound ts :=
  ⟨fun t ht => h.within t (List.mem_append_left us ht),
    Nat.le_trans (by simp) h.length_le⟩

theorem right (h : Fits depth bound (ts ++ us)) : Fits depth bound us :=
  ⟨fun t ht => h.within t (List.mem_append_right ts ht),
    Nat.le_trans (by simp) h.length_le⟩

theorem tail (h : Fits depth (bound + 1) (t :: ts)) : Fits depth bound ts :=
  ⟨fun u hu => h.within u (List.mem_cons_of_mem t hu), Nat.le_of_succ_le_succ h.length_le⟩

theorem dropHead (h : Fits depth bound (t :: ts)) : Fits depth bound ts :=
  ⟨fun u hu => h.within u (List.mem_cons_of_mem t hu), Nat.le_of_succ_le h.length_le⟩

theorem inner {opening closing : Mark} (h : Fits depth (bound + 1) (enclosed opening ts closing)) :
    Fits depth bound ts :=
  h.tail.left

theorem chunks {c : Chunk} {chunks : List Chunk}
    (h : Fits depth bound [.template (c :: chunks)]) : Fits depth bound [.template chunks] := by
  refine ⟨fun t ht => ?_, h.length_le⟩
  obtain rfl := List.mem_singleton.1 ht
  exact fun d hd => h.within _ (List.mem_singleton_self _) d (List.mem_cons_of_mem c hd)

theorem exists_bound (h : Fits depth bound ts) (hne : ts ≠ []) :
    ∃ bound', bound = bound' + 1 :=
  Nat.exists_eq_succ_of_ne_zero fun hzero =>
    hne (List.length_eq_zero_iff.1 (Nat.le_zero.1 (hzero ▸ h.length_le)))

end Fits

/-! ### Expressions -/

theorem accepted_arrow {names : List Text} {body : Tree}
    (hparams : Parser.params.Accepts ts (.mark .arrow :: (us ++ rest)) fun n => n = names)
    (hbody : expr.Accepts us rest fun e => e.erase = body) :
    (expressionWith sub expr).Accepts (ts ++ .mark .arrow :: us) rest
      fun e => e.erase = .arrow nowhere names body := by
  have hhead : (Parser.params.andSkip (mark .arrow)).Accepts (ts ++ [.mark .arrow])
      (us ++ rest) fun n => n = names :=
    Accepts.andSkip hparams (accepts_mark .arrow)
  have hboth : ((Parser.params.andSkip (mark .arrow)).both expr).Accepts
      (ts ++ [.mark .arrow] ++ us) rest fun x => x.1 = names ∧ x.2.erase = body :=
    hhead.both hbody fun n e hn he => ⟨hn, he⟩
  rw [List.append_assoc] at hboth
  refine Accepts.orElse (hboth.spanned.map ?_)
  rintro ⟨⟨names', body'⟩, span⟩ ⟨rfl, rfl⟩
  rfl

/-- An operand is no function, and its rule comes second. -/
theorem rejects_arrow_of_operand {e : Tree} (d : Derivation (.operand 6) ts e)
    (h : Token.mark .arrow ∉ rest.head?) : (arrow expr).Rejects (ts ++ rest) := by
  refine rejects_arrow ?_
  rintro us vs names heq ⟨params⟩
  obtain rfl := params.head_of_params (by decide) d heq.symm
  exact h rfl

theorem accepted_disjunction {e : Tree} (d : Derivation (.operand 6) ts e)
    (h : (operandRule sub expr 6).Accepts ts rest fun e' => e'.erase = e)
    (hrest : Symbol.expression.EndsBefore rest) :
    (expressionWith sub expr).Accepts ts rest fun e' => e'.erase = e := by
  have hno : ∀ m : Mark, (Token.mark m).rank < 10 → Token.mark m ∉ rest.head? := by
    intro m hm hmem
    exact absurd (hrest _ hmem) (by rw [Nat.not_lt]; exact Nat.le_of_lt_succ hm)
  refine Accepts.orElse_of_rejects (rejects_arrow_of_operand d (hno .arrow (by decide))) ?_
  have hbranches : (perhaps (branches expr)).Accepts [] rest fun o => o = none :=
    Accepts.perhaps_none (Rejects.bind (Rejects.bind (Rejects.bind
      (rejects_mark (hno .question (by decide)))))) rfl
  have hboth : ((operandRule sub expr 6).both (perhaps (branches expr))).Accepts (ts ++ []) rest
      fun x => x.1.erase = e ∧ x.2 = none :=
    Accepts.both h hbranches fun a o ha ho => ⟨ha, ho⟩
  rw [List.append_nil] at hboth
  refine hboth.map ?_
  rintro ⟨test, branches⟩ ⟨rfl, rfl⟩
  rfl

theorem accepted_conditional {test consequent alternate : Tree} {vs : List Token}
    (d : Derivation (.operand 6) ts test)
    (hfirst : (operandRule sub expr 6).Accepts ts
      (.mark .question :: (us ++ .mark .colon :: vs) ++ rest) fun e => e.erase = test)
    (hsecond : expr.Accepts us (.mark .colon :: (vs ++ rest)) fun e => e.erase = consequent)
    (hthird : expr.Accepts vs rest fun e => e.erase = alternate) :
    (expressionWith sub expr).Accepts (ts ++ .mark .question :: (us ++ .mark .colon :: vs)) rest
      fun e => e.erase = .conditional nowhere test consequent alternate := by
  refine Accepts.orElse_of_rejects ?_ ?_
  · have hrejects : (arrow expr).Rejects
        (ts ++ (.mark .question :: (us ++ .mark .colon :: vs) ++ rest)) :=
      rejects_arrow_of_operand d (by simp)
    rwa [List.append_assoc]
  have hopened : ((mark .question).andThen expr).Accepts (.mark .question :: us)
      ([.mark .colon] ++ (vs ++ rest)) fun e => e.erase = consequent :=
    (accepts_mark .question).andThen hsecond
  have hmiddle : (((mark .question).andThen expr).andSkip (mark .colon)).Accepts
      (.mark .question :: us ++ [.mark .colon]) (vs ++ rest) fun e => e.erase = consequent :=
    hopened.andSkip (accepts_mark .colon)
  have hbranches : (branches expr).Accepts (.mark .question :: us ++ [.mark .colon] ++ vs) rest
      fun x => x.1.erase = consequent ∧ x.2.erase = alternate :=
    hmiddle.both hthird fun a b ha hb => ⟨ha, hb⟩
  rw [List.append_assoc] at hbranches
  refine (Accepts.both (R := fun x => x.1.erase = test ∧ ∃ y, x.2 = some y ∧
    y.1.erase = consequent ∧ y.2.erase = alternate) hfirst (hbranches.perhaps_some
      (R := fun o => ∃ y, o = some y ∧ y.1.erase = consequent ∧ y.2.erase = alternate)
      fun y hy => ⟨y, rfl, hy⟩) fun a o ha ho => ⟨ha, ho⟩).map ?_
  rintro ⟨test', _⟩ ⟨rfl, y, rfl, rfl, rfl⟩
  rfl

/-! ### Operands and atoms -/

theorem accepted_bare {e : Tree} (d : Derivation .chain ts e)
    (h : (Parser.chain sub expr).Accepts ts rest fun e' => e'.erase = e) :
    (unary sub expr).Accepts ts rest fun e' => e'.erase = e := by
  have hops : (many unaryOperator.spanned).Accepts [] (ts ++ rest) fun ops => ops = [] := by
    refine Accepts.many_nil (Rejects.spanned (recognizes_unaryOperator.rejects ?_)) rfl
    rintro us vs op heq rfl
    obtain ⟨t, ts, rfl⟩ := List.exists_cons_of_ne_nil (d.ne_nil rfl)
    exact (d.opens t rfl).2 op (List.cons.inj heq).1
  refine Accepts.bind hops fun ops hops => Accepts.map h fun e he => ?_
  subst hops
  exact he

/-- An atom that starts with a mark is no literal and no template. -/
theorem accepted_mark {m : Mark} {P : Tree → Prop}
    (h : ((parenthesized expr).orElse ((Parser.array expr).orElse (Parser.object expr))).Accepts
      (.mark m :: ts) rest P) : (Parser.atom sub expr).Accepts (.mark m :: ts) rest P :=
  Accepts.orElse_of_rejects (rejects_literal (by simp [Token.literal?]))
    (Accepts.orElse_of_rejects (rejects_template (by simp)) h)

/-! ### Links -/

theorem rejects_after_mark {α β : Type} {q : Rule α} {f : α → β} {m : Mark}
    (h : Token.mark m ∉ ts.head?) : (((mark m).andThen q).map f).Rejects ts :=
  Rejects.bind (Rejects.bind (rejects_mark h))

theorem accepts_member (x : Text) :
    (link expr).Accepts [.mark .dot, .name x] rest fun l => l.erase = .member x false := by
  have hname : ((mark .dot).andThen name).Accepts [.mark .dot, .name x] rest fun t => t = x :=
    (accepts_mark .dot).andThen (accepts_name x)
  refine Accepts.orElse (hname.map ?_)
  rintro _ rfl
  rfl

theorem accepts_optionalMember (x : Text) :
    (link expr).Accepts [.mark .optionalDot, .name x] rest fun l => l.erase = .member x true := by
  have hname : ((mark .optionalDot).andThen name).Accepts [.mark .optionalDot, .name x] rest
      fun t => t = x :=
    (accepts_mark .optionalDot).andThen (accepts_name x)
  refine Accepts.orElse_of_rejects (rejects_after_mark (by simp)) (Accepts.orElse (hname.map ?_))
  rintro _ rfl
  rfl

theorem accepts_index {key : Tree}
    (h : expr.Accepts ts (.mark .bracketClose :: rest) fun e => e.erase = key) :
    (link expr).Accepts (enclosed .bracketOpen ts .bracketClose) rest
      fun l => l.erase = .index key false := by
  refine Accepts.orElse_of_rejects (rejects_after_mark (by simp [enclosed]))
    (Accepts.orElse_of_rejects (rejects_after_mark (by simp [enclosed]))
      (Accepts.orElse_of_rejects (rejects_after_mark (by simp [enclosed]))
        (Accepts.orElse (Accepts.map (Accepts.between h) ?_))))
  rintro e rfl
  rfl

theorem accepts_optionalIndex {key : Tree}
    (h : expr.Accepts ts (.mark .bracketClose :: rest) fun e => e.erase = key) :
    (link expr).Accepts (.mark .optionalDot :: enclosed .bracketOpen ts .bracketClose) rest
      fun l => l.erase = .index key true := by
  -- a bracket after the mark is no name
  have hno_name : ((mark .optionalDot).andThen name).Rejects
      (.mark .optionalDot :: enclosed .bracketOpen ts .bracketClose ++ rest) := by
    refine ((recognizes_mark .optionalDot).andThen recognizes_name
      (N := fun ts t => ts = [.mark .optionalDot, .name t]) ?_).rejects ?_
    · rintro ts us ⟨⟩ t rfl rfl
      rfl
    · rintro us vs t heq rfl
      cases (List.cons.inj (List.cons.inj heq).2).1
  have hindex : ((mark .optionalDot).andThen (bracketed expr)).Accepts
      (.mark .optionalDot :: enclosed .bracketOpen ts .bracketClose) rest fun e => e.erase = key :=
    (accepts_mark .optionalDot).andThen (Accepts.between h)
  refine Accepts.orElse_of_rejects (rejects_after_mark (by simp))
    (Accepts.orElse_of_rejects hno_name.bind (Accepts.orElse (hindex.map ?_)))
  rintro e rfl
  rfl

theorem accepts_call {args : List Tree}
    (h : (items expr).Accepts ts (.mark .parenClose :: rest) fun es => es.map Tree.erase = args) :
    (link expr).Accepts (enclosed .parenOpen ts .parenClose) rest
      fun l => l.erase = .call args := by
  refine Accepts.orElse_of_rejects (rejects_after_mark (by simp [enclosed]))
    (Accepts.orElse_of_rejects (rejects_after_mark (by simp [enclosed]))
      (Accepts.orElse_of_rejects (rejects_after_mark (by simp [enclosed]))
        (Accepts.orElse_of_rejects (Rejects.bind (rejects_between (by simp [enclosed])))
          (Accepts.map (Accepts.between h) ?_))))
  rintro es rfl
  rw [Link.erase, eraseItems_eq_map]

/-! ### Pieces and lists -/

theorem accepts_property {t : Token} {k : Text} {e : Tree} (hkey : t.key? = some k)
    (h : expr.Accepts ts rest fun e' => e'.erase = e) :
    (property expr).Accepts (t :: .mark .colon :: ts) rest
      fun p => Prod.map id Tree.erase p = (k, e) := by
  have hhead : (key.andSkip (mark .colon)).Accepts [t, .mark .colon] (ts ++ rest)
      fun k' => k' = k :=
    Accepts.andSkip (accepts_key hkey) (accepts_mark .colon)
  refine Accepts.orElse (hhead.both h ?_)
  rintro k' e' rfl rfl
  rfl

theorem accepts_shorthand (x : Text) (hrest : (Symbol.entry .property).EndsBefore rest) :
    (property expr).Accepts [.name x] rest
      fun p => Prod.map id Tree.erase p = (x, .name nowhere x) := by
  -- no colon follows the name
  have hno_colon : (key.andSkip (mark .colon)).Rejects ([.name x] ++ rest) := by
    refine (recognizes_key.andSkip (recognizes_mark .colon)
      (N := fun ts _ => ∃ t, ts = [t, .mark .colon]) ?_).rejects ?_
    · rintro ts us k ⟨⟩ ⟨t, -, rfl⟩ rfl
      exact ⟨t, rfl⟩
    · rintro us vs k heq ⟨t, rfl⟩
      obtain ⟨-, rfl⟩ := List.cons.inj heq
      exact absurd (hrest _ rfl) (by decide)
  refine Accepts.orElse_of_rejects hno_colon.bind ((accepts_name x).spanned.map ?_)
  rintro ⟨_, span⟩ rfl
  rfl

theorem not_comma_of_endsBefore {e : Entry} (h : (Symbol.more e).EndsBefore ts) :
    Token.mark .comma ∉ ts.head? :=
  fun hmem => Nat.lt_irrefl 11 (h _ hmem)

theorem accepted_ended {e : Entry} (hrest : (Symbol.more e).EndsBefore rest) :
    (Symbol.more e).Accepted sub expr [] rest [] := by
  have hno := not_comma_of_endsBefore hrest
  exact ⟨[], [], rfl, Accepts.many_nil (Rejects.bind (rejects_mark hno)) rfl,
    Accepts.perhaps_none (rejects_mark hno) trivial⟩

section Lists

variable (hexpr : expr.Recognizes fun ts e => Derives .expression ts e.erase)
include hexpr

theorem rejects_piece (hsound : ReaderSound sub) {p : Piece}
    (hrest : (Symbol.pieces p).EndsBefore rest) : (p.rule sub expr).Rejects rest := by
  refine (p.recognizes_rule hsound hexpr).rejects ?_
  rintro us vs a rfl ⟨d⟩
  exact d.not_endsBefore_piece hrest

theorem accepted_morePieces (hsound : ReaderSound sub) {p : Piece} {v : p.Value} {vs : List p.Value}
    (hfirst : (p.rule sub expr).Accepts ts (us ++ rest) fun a => p.meaning a = v)
    (hmore : (many (p.rule sub expr)).Accepts us rest fun as => as.map p.meaning = vs) :
    (many (p.rule sub expr)).Accepts (ts ++ us) rest fun as => as.map p.meaning = v :: vs := by
  refine Accepts.many_cons ?_ hfirst hmore fun a as ha has => ?_
  · exact (p.recognizes_rule hsound hexpr).shortens fun ts a ⟨d⟩ => d.ne_nil rfl
  · rw [List.map_cons, ha, has]

theorem rejects_entry {e : Entry} (hrest : (Symbol.more e).EndsBefore rest) :
    (e.rule expr).Rejects rest := by
  refine (e.recognizes_rule hexpr).rejects ?_
  rintro us vs a rfl ⟨d⟩
  exact d.not_endsBefore_entry hrest

theorem recognizes_nextEntry (e : Entry) :
    ((mark .comma).andThen (e.rule expr)).Recognizes fun ts a =>
      ∃ us, Derives (.entry e) us (e.meaning a) ∧ ts = .mark .comma :: us := by
  refine (recognizes_mark .comma).andThen (e.recognizes_rule hexpr) ?_
  rintro ts us ⟨⟩ a rfl ha
  exact ⟨us, ha, rfl⟩

theorem rejects_nextEntry {e : Entry} (h : ∀ us, ts = .mark .comma :: us →
    (Symbol.more e).EndsBefore us) : ((mark .comma).andThen (e.rule expr)).Rejects ts := by
  refine (recognizes_nextEntry hexpr e).rejects ?_
  rintro us vs a rfl ⟨us, ⟨d⟩, rfl⟩
  exact d.not_endsBefore_entry (h _ rfl)

theorem accepted_trailingComma {e : Entry} (hrest : (Symbol.more e).EndsBefore rest) :
    (Symbol.more e).Accepted sub expr [.mark .comma] rest [] := by
  refine ⟨[], [.mark .comma], rfl, Accepts.many_nil (rejects_nextEntry hexpr ?_) rfl,
    Accepts.perhaps_some (accepts_mark .comma) fun _ _ => trivial⟩
  rintro us heq
  obtain ⟨-, rfl⟩ := List.cons.inj heq
  exact hrest

theorem accepted_nextEntry {e : Entry} {v : e.Value} {vs : List e.Value}
    (hnext : (e.rule expr).Accepts ts (us ++ rest) fun a => e.meaning a = v)
    (hmore : (Symbol.more e).Accepted sub expr us rest vs) :
    (Symbol.more e).Accepted sub expr (.mark .comma :: (ts ++ us)) rest (v :: vs) := by
  obtain ⟨us, ws, rfl, hmany, hcomma⟩ := hmore
  refine ⟨.mark .comma :: (ts ++ us), ws, by simp, ?_, hcomma⟩
  have hfirst : ((mark .comma).andThen (e.rule expr)).Accepts (.mark .comma :: ts)
      (us ++ (ws ++ rest)) fun a => e.meaning a = v := by
    rw [List.append_assoc] at hnext
    exact (accepts_mark .comma).andThen hnext
  refine Accepts.many_cons ?_ hfirst hmany fun a as ha has => ?_
  · refine (recognizes_nextEntry hexpr e).shortens ?_
    rintro ts a ⟨us, -, rfl⟩
    simp
  · rw [List.map_cons, ha, has]

end Lists

theorem accepted_firstEntry {e : Entry} {v : e.Value} {vs : List e.Value}
    (hfirst : (e.rule expr).Accepts ts (us ++ rest) fun a => e.meaning a = v)
    (hmore : (Symbol.more e).Accepted sub expr us rest vs) :
    (Symbol.entries e).Accepted sub expr (ts ++ us) rest (v :: vs) := by
  obtain ⟨us, ws, rfl, hmany, hcomma⟩ := hmore
  refine Accepts.orElse (hfirst.bind fun a ha => ?_)
  refine hmany.bind fun as has => hcomma.map fun _ _ => ?_
  rw [List.map_cons, ha, has]

/-- **What is in the grammar is read** where nothing that follows could go on with it. -/
theorem Derivation.accepted {depth : Nat} (hsound : ReaderSound sub)
    (hcomplete : ReaderComplete depth sub) {v : σ.Value} (d : Derivation σ ts v) (bound : Nat)
    (rest : List Token) (hfits : Fits depth (bound + σ.slack) ts) (hrest : σ.EndsBefore rest) :
    σ.Accepted sub (expression sub bound) ts rest v := by
  have hexpr : ∀ bound, (expression sub bound).Recognizes
      fun ts e => Derives .expression ts e.erase := recognizes_expression hsound
  induction d generalizing bound rest with
  | arrow params inner ihparams ihinner =>
      obtain ⟨bound, rfl⟩ := hfits.exists_bound (by simp)
      exact accepted_arrow (ihparams bound _ hfits.left (.cons (by decide)))
        (ihinner bound _ hfits.right.tail hrest)
  | disjunction operand ih =>
      obtain ⟨bound, rfl⟩ := hfits.exists_bound (operand.ne_nil rfl)
      exact accepted_disjunction operand (ih bound _ hfits (hrest.mono (by decide))) hrest
  | conditional first second third ihfirst ihsecond ihthird =>
      obtain ⟨bound, rfl⟩ := hfits.exists_bound (by simp)
      have hbranches := hfits.right.tail
      exact accepted_conditional first (ihfirst bound _ hfits.left (.cons (by decide)))
        (ihsecond bound _ hbranches.left (.cons (by decide)))
        (ihthird bound _ hbranches.right.dropHead hrest)
  | single x => exact Accepts.orElse ((accepts_name x).map fun t ht => by rw [ht])
  | several list ih =>
      have hlist := ih bound (.mark .parenClose :: rest) hfits.inner (.cons (by decide))
      refine Accepts.orElse_of_rejects (Rejects.bind (rejects_name (by simp [enclosed])))
        (Accepts.between (Accepts.mono hlist ?_))
      intro names' hnames
      rwa [Entry.meaning, List.map_id] at hnames
  | joined first others ihfirst ihothers =>
      have hfirst := ihfirst bound _ hfits.left (others.piece_endsBefore hrest)
      have hothers := ihothers bound rest hfits.right hrest
      refine Accepts.bind hfirst fun e he => Accepts.map hothers fun os hos => ?_
      rw [erase_foldl_applyBinary, he]
      exact congrArg (fun os => List.foldl joinOperand _ os) hos
  | prefixed op operand ih => exact accepts_unary_prefixed op (ih bound rest hfits.dropHead hrest)
  | bare chain ih => exact accepted_bare chain (ih bound rest hfits hrest)
  | chain first links ihfirst ihlinks =>
      have hfirst := ihfirst bound _ hfits.left (links.piece_endsBefore hrest)
      have hlinks := ihlinks bound rest hfits.right hrest
      refine Accepts.bind hfirst fun e he => Accepts.map hlinks fun ls hls => ?_
      rw [erase_foldl_attach, he]
      exact congrArg (fun ls => List.foldl attachLink _ ls) hls
  | literal h => exact Accepts.orElse (accepts_literal h)
  | template parts ih =>
      obtain ⟨chunks, parts', rfl, hparts, rfl⟩ := ih bound rest hfits hrest
      exact Accepts.orElse_of_rejects (rejects_literal (by simp [Token.literal?]))
        (Accepts.orElse (accepts_template hparts))
  | parenthesized inner ih =>
      have hinner := ih bound (.mark .parenClose :: rest) hfits.inner (.cons (by decide))
      exact accepted_mark (Accepts.orElse (Accepts.between hinner))
  | array list ih =>
      have hlist := ih bound (.mark .bracketClose :: rest) hfits.inner (.cons (by decide))
      refine accepted_mark (Accepts.orElse_of_rejects (rejects_between (by simp))
        (Accepts.orElse ((Accepts.between hlist).spanned.map ?_)))
      rintro ⟨es, span⟩ rfl
      rw [Tree.erase, eraseItems_eq_map]
      rfl
  | object list ih =>
      have hlist := ih bound (.mark .braceClose :: rest) hfits.inner (.cons (by decide))
      refine accepted_mark (Accepts.orElse_of_rejects (rejects_between (by simp))
        (Accepts.orElse_of_rejects
          (Rejects.bind (Rejects.spanned (rejects_between (by simp))))
          ((Accepts.between hlist).spanned.map ?_)))
      rintro ⟨ps, span⟩ rfl
      rw [Tree.erase, eraseProperties_eq_map]
      rfl
  | noParts => exact ⟨[], [], rfl, rfl, rfl⟩
  | textPart t parts ih =>
      obtain ⟨chunks, parts', hchunks, hparts, hmeaning⟩ := ih bound rest hfits.chunks hrest
      obtain ⟨⟨⟩, -⟩ := List.cons.inj hchunks
      obtain ⟨-, rfl⟩ := Tree.template.inj hmeaning
      refine ⟨_, .text t :: parts', rfl, ?_, rfl⟩
      rw [templateParts, hparts]
      rfl
  | codePart hlex inner parts ihinner ihparts =>
      obtain ⟨chunks, parts', hchunks, hparts, hmeaning⟩ := ihparts bound rest hfits.chunks hrest
      obtain ⟨⟨⟩, -⟩ := List.cons.inj hchunks
      obtain ⟨-, rfl⟩ := Tree.template.inj hmeaning
      have hshort := hfits.within _ (List.mem_singleton_self _) _ List.mem_cons_self
      obtain ⟨e', he', rfl⟩ := hcomplete _ _ _ _ hshort hlex ⟨inner⟩
      refine ⟨_, .code e' :: parts', rfl, ?_, rfl⟩
      rw [templateParts, he', Except.bind_ok, hparts]
      rfl
  | member x => exact Accepts.spanned (accepts_member x)
  | optionalMember x => exact Accepts.spanned (accepts_optionalMember x)
  | index inner ih =>
      have hinner := ih bound (.mark .bracketClose :: rest) hfits.inner (.cons (by decide))
      exact Accepts.spanned (accepts_index hinner)
  | optionalIndex inner ih =>
      have hinner := ih bound (.mark .bracketClose :: rest) hfits.dropHead.inner (.cons (by decide))
      exact Accepts.spanned (accepts_optionalIndex hinner)
  | call list ih =>
      have hlist := ih bound (.mark .parenClose :: rest) hfits.inner (.cons (by decide))
      exact Accepts.spanned (accepts_call hlist)
  | join op h operand ih =>
      subst h
      rw [← List.singleton_append]
      exact Accepts.both (accepts_levelOperator op) (ih bound rest hfits.dropHead hrest)
        fun op' e hop he => by rw [Piece.meaning, Prod.map, hop, he]; rfl
  | noPieces p => exact Accepts.many_nil (rejects_piece (hexpr bound) hsound hrest) rfl
  | morePieces first others ihfirst ihothers =>
      exact accepted_morePieces (hexpr bound) hsound
        (ihfirst bound _ hfits.left (others.piece_endsBefore hrest))
        (ihothers bound rest hfits.right hrest)
  | item inner ih => exact ih bound rest hfits hrest
  | property h inner ih =>
      exact accepts_property h (ih bound rest hfits.dropHead.dropHead (hrest.mono (by decide)))
  | shorthand x => exact accepts_shorthand x hrest
  | name x => exact accepts_name x
  | noEntries e =>
      exact Accepts.orElse_of_rejects (Rejects.bind (rejects_entry (hexpr bound) hrest))
        (Accepts.pure rfl)
  | firstEntry first others ihfirst ihothers =>
      exact accepted_firstEntry (ihfirst bound _ hfits.left (others.entry_endsBefore hrest))
        (ihothers bound rest hfits.right hrest)
  | ended e => exact accepted_ended hrest
  | trailingComma e => exact accepted_trailingComma (hexpr bound) hrest
  | nextEntry next others ihnext ihothers =>
      exact accepted_nextEntry (hexpr bound)
        (ihnext bound _ hfits.dropHead.left (others.entry_endsBefore hrest))
        (ihothers bound rest hfits.dropHead.right hrest)

end Stencil.Expr
