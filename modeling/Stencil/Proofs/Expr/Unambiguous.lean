import Stencil.Proofs.Expr.Grammar

/-!
# The grammar is unambiguous

Two phrases of one symbol at the front of the same tokens are the same phrase, with the
same derivation, if nothing that follows either could go on with it
(`Derivation.determined`). There is a lemma for each constructor of one derivation: the
first token of what is left tells which constructor the other one has. The one choice
that no token tells is that between a function and an operand: `(a)` may be either up to
the arrow, which comes after it. There an operand can only be all that the parameters are
(`head_of_params`), and no operand is followed by an arrow.
-/

namespace Stencil.Expr

variable {σ : Symbol} {ts us rest rest' : List Token}

/-- Tokens with a derivation. -/
structure Phrase (σ : Symbol) where
  tokens : List Token
  value : σ.Value
  derivation : Derivation σ tokens value

/-! ## First tokens -/

/-- The symbols with phrases that have no tokens. -/
def Symbol.isList : Symbol → Bool
  | pieces _ | entries _ | more _ => true
  | _ => false

/-- What the first token of a phrase of the symbol is like. -/
def Symbol.Opens : Symbol → Token → Prop
  | expression, t | params, t | operand _, t | entry _, t | entries _, t => t.rank < 12
  | chain, t | atom, t | template, t => t.rank < 12 ∧ ∀ op : UnaryOp, t ≠ op.token
  | piece .link, t | pieces .link, t => t.rank = 1
  | piece (.join level), t | pieces (.join level), t => t.rank = level + 2
  | more _, t => t = .mark .comma

theorem UnaryOp.rank_token_lt (op : UnaryOp) : op.token.rank < 12 := by
  cases op <;> decide

theorem UnaryOp.token_injective {op op' : UnaryOp} (h : op.token = op'.token) : op = op' := by
  cases op <;> cases op' <;> first | rfl | cases h

theorem BinaryOp.written_injective {op op' : BinaryOp} (h : op.written = op'.written) :
    op = op' := by
  cases op <;> cases op' <;> first | rfl | cases h

theorem Token.opens_of_literal? {t : Token} {e : Tree} (h : t.literal? = some e) :
    t.rank < 12 ∧ ∀ op : UnaryOp, t ≠ op.token := by
  refine ⟨?_, ?_⟩
  · cases t with
    | mark m => cases h
    | operator o => cases h
    | _ => simp [Token.rank]
  · rintro op rfl
    cases op <;> cases h

theorem Token.rank_of_key? {t : Token} {k : Text} (h : t.key? = some k) : t.rank < 12 := by
  cases t with
  | mark m => cases h
  | operator o => cases h
  | _ => simp [Token.rank]

/-- A phrase has tokens, but for lists. -/
theorem Derivation.ne_nil {v : σ.Value} (d : Derivation σ ts v) (h : σ.isList = false) :
    ts ≠ [] := by
  induction d with
  | disjunction _ ih => exact ih rfl
  | joined _ _ ih _ => exact List.append_ne_nil_of_left_ne_nil (ih rfl) _
  | bare _ ih => exact ih rfl
  | chain _ _ ih _ => exact List.append_ne_nil_of_left_ne_nil (ih rfl) _
  | template _ ih => exact ih rfl
  | item _ ih => exact ih rfl
  | noPieces | morePieces | noEntries | firstEntry | ended | trailingComma | nextEntry => cases h
  | _ => simp [enclosed]

theorem head?_append_of_ne_nil (h : ts ≠ []) : (ts ++ us).head? = ts.head? := by
  obtain ⟨t, ts, rfl⟩ := List.exists_cons_of_ne_nil h
  rfl

theorem Derivation.opens {v : σ.Value} (d : Derivation σ ts v) : ∀ t ∈ ts.head?, σ.Opens t := by
  induction d with
  | arrow params _ ih _ =>
      rw [head?_append_of_ne_nil (params.ne_nil rfl)]
      exact ih
  | disjunction _ ih => exact ih
  | conditional first _ _ ih _ _ =>
      rw [head?_append_of_ne_nil (first.ne_nil rfl)]
      exact ih
  | single => simp [Symbol.Opens, Token.rank]
  | several => simp [enclosed, Symbol.Opens, Token.rank]
  | joined first _ ih _ =>
      rw [head?_append_of_ne_nil (first.ne_nil rfl)]
      exact ih
  | prefixed op =>
      rintro t ⟨⟩
      exact op.rank_token_lt
  | bare _ ih => exact fun t ht => (ih t ht).1
  | chain first _ ih _ =>
      rw [head?_append_of_ne_nil (first.ne_nil rfl)]
      exact ih
  | literal h =>
      rintro t ⟨⟩
      exact Token.opens_of_literal? h
  | template _ ih => exact ih
  | parenthesized | array | object =>
      rintro t ⟨⟩
      exact ⟨by decide, fun op h => by cases op <;> cases h⟩
  | noParts | textPart | codePart =>
      rintro t ⟨⟩
      exact ⟨by simp [Token.rank], fun op h => by cases op <;> cases h⟩
  | member | optionalMember | index | optionalIndex | call =>
      rintro t ⟨⟩
      rfl
  | join op h =>
      rintro t ⟨⟩
      rw [Symbol.Opens, op.rank_written, h]
  | noPieces p =>
      rintro t ⟨⟩
  | @morePieces p _ _ _ _ first _ ih _ =>
      rw [head?_append_of_ne_nil (first.ne_nil rfl)]
      cases p with
      | link => exact ih
      | join level => exact ih
  | item _ ih => exact ih
  | property h =>
      rintro t ⟨⟩
      exact Token.rank_of_key? h
  | shorthand | name =>
      rintro t ⟨⟩
      simp [Symbol.Opens, Token.rank]
  | noEntries | ended =>
      rintro t ⟨⟩
  | firstEntry first _ ih _ =>
      rw [head?_append_of_ne_nil (first.ne_nil rfl)]
      exact ih
  | trailingComma | nextEntry =>
      rintro t ⟨⟩
      rfl


/-! ## What follows -/

theorem Symbol.EndsBefore.nil : σ.EndsBefore [] := by
  rintro t ⟨⟩

theorem Symbol.EndsBefore.cons {t : Token} (h : σ.reach < t.rank) : σ.EndsBefore (t :: ts) := by
  rintro _ ⟨⟩
  exact h

theorem Symbol.EndsBefore.append (hts : ∀ t ∈ ts.head?, σ.reach < t.rank) (hus : σ.EndsBefore us) :
    σ.EndsBefore (ts ++ us) := by
  cases ts with
  | nil => exact hus
  | cons t ts => exact hts

theorem Symbol.EndsBefore.mono {σ' : Symbol} (h : σ.EndsBefore ts) (hle : σ'.reach ≤ σ.reach) :
    σ'.EndsBefore ts :=
  fun t ht => Nat.lt_of_le_of_lt hle (h t ht)

/-- An operand is an operator before an operand, or an atom and what goes on with it. -/
theorem Derivation.anatomy {level : Nat} {ts : List Token} {e : Tree}
    (d : Derivation (.operand level) ts e) :
    (∃ (op : UnaryOp) (us : List Token), ts = op.token :: us) ∨
      ∃ as us a, Derives .atom as a ∧ ts = as ++ us ∧ ∀ t ∈ us.head?, t.rank ≤ level + 1 := by
  match d with
  | @Derivation.joined level _ _ _ _ first rest =>
      rcases first.anatomy with ⟨op, us, rfl⟩ | ⟨as, us, a, hatom, rfl, hus⟩
      · exact .inl ⟨op, _, rfl⟩
      · refine .inr ⟨as, _, a, hatom, List.append_assoc _ _ _, fun t ht => ?_⟩
        cases us with
        | nil => exact Nat.le_of_eq (rest.opens t ht)
        | cons u us => exact Nat.le_succ_of_le (hus t ht)
  | .prefixed op operand => exact .inl ⟨op, _, rfl⟩
  | .bare (.chain first rest) =>
      exact .inr ⟨_, _, _, ⟨first⟩, rfl, fun t ht => Nat.le_of_eq (rest.opens t ht)⟩

/-- An operand that starts with a name is no more than the name if what follows that is
too loose. -/
theorem Derivation.eq_of_name {level : Nat} {e : Tree} (d : Derivation (.operand level) ts e)
    {x : Text} (h : ts ++ rest = .name x :: us) (hus : ∀ t ∈ us.head?, level + 1 < t.rank) :
    ts = [.name x] := by
  rcases d.anatomy with ⟨op, vs, rfl⟩ | ⟨as, vs, a, ⟨atom⟩, rfl, hvs⟩
  · obtain ⟨hop, -⟩ := List.cons.inj h
    cases op <;> cases hop
  · cases atom with
    | literal =>
        obtain ⟨rfl, rfl⟩ := List.cons.inj h
        cases vs with
        | nil => rfl
        | cons v vs => exact absurd (hvs v rfl) (Nat.not_le.2 (hus v rfl))
    | template parts => cases parts <;> cases (List.cons.inj h).1
    | parenthesized | array | object => cases (List.cons.inj h).1

/-- The same for an expression. -/
theorem Derivation.expression_eq_of_name {e : Tree} (d : Derivation .expression ts e)
    {x : Text} (h : ts ++ rest = .name x :: us) (hus : ∀ t ∈ us.head?, 9 < t.rank) :
    ts = [.name x] := by
  cases d with
  | arrow params body =>
      cases params with
      | single =>
          obtain ⟨-, rfl⟩ := List.cons.inj h
          exact absurd (hus _ rfl) (by decide)
      | several => cases (List.cons.inj h).1
  | disjunction operand =>
      exact operand.eq_of_name h fun t ht => Nat.lt_trans (by decide) (hus t ht)
  | conditional first =>
      rw [List.append_assoc] at h
      have hname := first.eq_of_name h fun t ht => Nat.lt_trans (by decide) (hus t ht)
      subst hname
      obtain ⟨-, rfl⟩ := List.cons.inj h
      exact absurd (hus _ rfl) (by decide)

/-- An operand where the parameters of a function stand is the parameters, and the arrow
follows it. -/
theorem Derivation.head_of_params {level : Nat} (hlevel : level < 8) {names : List Text} {e : Tree}
    (params : Derivation .params ts names) (d : Derivation (.operand level) us e)
    (h : ts ++ .mark .arrow :: rest = us ++ rest') : rest' = .mark .arrow :: rest := by
  have loose : ∀ t ∈ (Token.mark .arrow :: rest).head?, level + 1 < t.rank := by
    rintro t ⟨⟩
    exact Nat.succ_lt_succ hlevel
  cases params with
  | single x =>
      obtain rfl := d.eq_of_name h.symm loose
      exact (List.cons.inj h).2.symm
  | @several ts _ list =>
      rcases d.anatomy with ⟨op, vs, rfl⟩ | ⟨as, vs, a, ⟨atom⟩, rfl, hvs⟩
      · cases op <;> cases (List.cons.inj h).1
      · cases atom with
        | literal hliteral =>
            obtain ⟨rfl, -⟩ := List.cons.inj h
            cases hliteral
        | template parts => cases parts <;> cases (List.cons.inj h).1
        | array | object => cases (List.cons.inj h).1
        | @parenthesized us _ inner =>
            simp only [enclosed, List.cons_append, List.append_assoc, List.nil_append,
              List.cons.injEq, true_and] at h
            cases list with
            | noEntries =>
                -- an expression does not start with the closing mark
                obtain ⟨u, us, rfl⟩ := List.exists_cons_of_ne_nil (inner.ne_nil rfl)
                obtain ⟨rfl, -⟩ := List.cons.inj h
                exact absurd (inner.opens _ rfl) (Nat.lt_irrefl 12)
            | firstEntry first more =>
                cases first with
                | name =>
                    obtain rfl : us = [.name _] := by
                      refine inner.expression_eq_of_name h.symm fun t ht => ?_
                      cases more with
                      | ended =>
                          obtain ⟨⟩ := ht
                          decide
                      | trailingComma | nextEntry =>
                          obtain ⟨⟩ := ht
                          decide
                    cases more with
                    | ended =>
                        obtain ⟨-, h⟩ := List.cons.inj h
                        obtain ⟨-, h⟩ := List.cons.inj h
                        cases vs with
                        | nil => exact h.symm
                        | cons v vs =>
                            obtain ⟨rfl, -⟩ := List.cons.inj h
                            exact absurd (hvs _ rfl) (Nat.not_le.2 (loose _ rfl))
                    | trailingComma | nextEntry =>
                        obtain ⟨-, h⟩ := List.cons.inj h
                        cases (List.cons.inj h).1

/-! ## Uniqueness -/

theorem enclosed_inj {opening closing : Mark}
    (h : enclosed opening ts closing ++ rest = enclosed opening us closing ++ rest') :
    ts ++ .mark closing :: rest = us ++ .mark closing :: rest' := by
  simpa [enclosed] using h

/-- A piece is followed by another, or by what follows all of them. -/
theorem Derivation.piece_endsBefore {p : Piece} {vs : List p.Value}
    (d : Derivation (.pieces p) ts vs) (h : (Symbol.pieces p).EndsBefore rest) :
    (Symbol.piece p).EndsBefore (ts ++ rest) := by
  cases p with
  | link =>
      refine .append (fun t ht => ?_) (h.mono (by decide))
      rw [d.opens t ht]
      exact Nat.zero_lt_one
  | join level =>
      refine .append (fun t ht => ?_) (h.mono (Nat.le_succ _))
      rw [d.opens t ht]
      exact Nat.lt_succ_self _

/-- An entry is followed by a comma, or by what follows the list. -/
theorem Derivation.entry_endsBefore {e : Entry} {vs : List e.Value}
    (d : Derivation (.more e) ts vs) (h : (Symbol.more e).EndsBefore rest) :
    (Symbol.entry e).EndsBefore (ts ++ rest) := by
  have hreach : (Symbol.entry e).reach < 11 := by cases e <;> decide
  refine .append (fun t ht => ?_) (h.mono (Nat.le_of_lt hreach))
  rw [d.opens t ht]
  exact hreach

/-- A list does not end before another piece. -/
theorem Derivation.not_endsBefore_piece {p : Piece} {v : p.Value}
    (d : Derivation (.piece p) ts v) : ¬ (Symbol.pieces p).EndsBefore (ts ++ us) := by
  intro h
  obtain ⟨t, ts, rfl⟩ := List.exists_cons_of_ne_nil (d.ne_nil rfl)
  have hrank := d.opens t rfl
  have hlt := h t rfl
  cases p with
  | link => exact Nat.ne_of_gt hlt hrank
  | join level => exact Nat.ne_of_gt hlt hrank

/-- A list does not end before another entry. -/
theorem Derivation.not_endsBefore_entry {e : Entry} {v : e.Value}
    (d : Derivation (.entry e) ts v) : ¬ (Symbol.more e).EndsBefore (ts ++ us) := by
  intro h
  obtain ⟨t, ts, rfl⟩ := List.exists_cons_of_ne_nil (d.ne_nil rfl)
  exact absurd (d.opens t rfl) (Nat.not_lt.2 (h t rfl))

/-- Any phrase of the symbol at the front of the same tokens is this one, if no more of
what follows could belong to either. -/
def Derivation.Determined {v : σ.Value} (d : Derivation σ ts v) : Prop :=
  ∀ ⦃ts' : List Token⦄ ⦃v' : σ.Value⦄ (d' : Derivation σ ts' v') ⦃rest rest' : List Token⦄,
    ts ++ rest = ts' ++ rest' → σ.EndsBefore rest → σ.EndsBefore rest' →
      (⟨ts, v, d⟩ : Phrase σ) = ⟨ts', v', d'⟩

namespace Derivation.Determined

/-! ### Expressions -/

section

variable {names : List Text} {body test consequent alternate : Tree} {vs : List Token}

theorem arrow {params : Derivation .params ts names} {inner : Derivation .expression us body}
    (hparams : params.Determined) (hinner : inner.Determined) :
    (Derivation.arrow params inner).Determined := by
  intro ts' v' d' rest rest' h hrest hrest'
  rw [List.append_assoc, List.cons_append] at h
  cases d' with
  | arrow params' inner' =>
      rw [List.append_assoc, List.cons_append] at h
      cases hparams params' h (.cons (by decide)) (.cons (by decide))
      obtain ⟨-, h⟩ := List.cons.inj (List.append_cancel_left h)
      cases hinner inner' h hrest hrest'
      rfl
  | disjunction operand =>
      obtain rfl := params.head_of_params (by decide) operand h
      exact absurd (hrest' _ rfl) (by decide)
  | conditional first =>
      rw [List.append_assoc] at h
      cases params.head_of_params (by decide) first h

theorem disjunction {operand : Derivation (.operand 6) ts test} (hoperand : operand.Determined) :
    (Derivation.disjunction operand).Determined := by
  intro ts' v' d' rest rest' h hrest hrest'
  cases d' with
  | arrow params' inner' =>
      rw [List.append_assoc, List.cons_append] at h
      obtain rfl := params'.head_of_params (by decide) operand h.symm
      exact absurd (hrest _ rfl) (by decide)
  | disjunction operand' =>
      cases hoperand operand' h (hrest.mono (by decide)) (hrest'.mono (by decide))
      rfl
  | conditional first' second' third' =>
      rw [List.append_assoc, List.cons_append] at h
      cases hoperand first' h (hrest.mono (by decide)) (.cons (by decide))
      obtain rfl := List.append_cancel_left h
      exact absurd (hrest _ rfl) (by decide)

theorem conditional {first : Derivation (.operand 6) ts test}
    {second : Derivation .expression us consequent} {third : Derivation .expression vs alternate}
    (hfirst : first.Determined) (hsecond : second.Determined) (hthird : third.Determined) :
    (Derivation.conditional first second third).Determined := by
  intro ts' v' d' rest rest' h hrest hrest'
  rw [List.append_assoc, List.cons_append, List.append_assoc, List.cons_append] at h
  cases d' with
  | arrow params' inner' =>
      rw [List.append_assoc, List.cons_append] at h
      cases params'.head_of_params (by decide) first h.symm
  | disjunction operand' =>
      cases hfirst operand' h (.cons (by decide)) (hrest'.mono (by decide))
      obtain rfl := List.append_cancel_left h
      exact absurd (hrest' _ rfl) (by decide)
  | conditional first' second' third' =>
      rw [List.append_assoc, List.cons_append, List.append_assoc, List.cons_append] at h
      cases hfirst first' h (.cons (by decide)) (.cons (by decide))
      obtain ⟨-, h⟩ := List.cons.inj (List.append_cancel_left h)
      cases hsecond second' h (.cons (by decide)) (.cons (by decide))
      obtain ⟨-, h⟩ := List.cons.inj (List.append_cancel_left h)
      cases hthird third' h hrest hrest'
      rfl

theorem single (x : Text) : (Derivation.single x).Determined := by
  intro ts' v' d' rest rest' h hrest hrest'
  cases d' with
  | single x' =>
      obtain ⟨⟨⟩, -⟩ := List.cons.inj h
      rfl
  | several => cases (List.cons.inj h).1

theorem several {list : Derivation (.entries .name) ts names} (hlist : list.Determined) :
    (Derivation.several list).Determined := by
  intro ts' v' d' rest rest' h hrest hrest'
  cases d' with
  | single => cases (List.cons.inj h).1
  | several list' =>
      cases hlist list' (enclosed_inj h) (.cons (by decide)) (.cons (by decide))
      rfl

end

/-! ### Operands -/

section

variable {level : Nat} {e : Tree}

theorem joined {others : List (BinaryOp × Tree)} {first : Derivation (.operand level) ts e}
    {list : Derivation (.pieces (.join level)) us others} (hfirst : first.Determined)
    (hlist : list.Determined) : (Derivation.joined first list).Determined := by
  intro ts' v' d' rest rest' h hrest hrest'
  cases d' with
  | joined first' list' =>
      rw [List.append_assoc, List.append_assoc] at h
      cases hfirst first' h (list.piece_endsBefore hrest) (list'.piece_endsBefore hrest')
      cases hlist list' (List.append_cancel_left h) hrest hrest'
      rfl

theorem prefixed {op : UnaryOp} {operand : Derivation (.operand 0) ts e}
    (hoperand : operand.Determined) : (Derivation.prefixed op operand).Determined := by
  intro ts' v' d' rest rest' h hrest hrest'
  cases d' with
  | prefixed op' operand' =>
      obtain ⟨hop, hts⟩ := List.cons.inj h
      cases UnaryOp.token_injective hop
      cases hoperand operand' hts hrest hrest'
      rfl
  | bare chain' =>
      obtain ⟨t, ts, rfl⟩ := List.exists_cons_of_ne_nil (chain'.ne_nil rfl)
      exact absurd (List.cons.inj h).1.symm ((chain'.opens t rfl).2 op)

theorem bare {chain : Derivation .chain ts e} (hchain : chain.Determined) :
    (Derivation.bare chain).Determined := by
  intro ts' v' d' rest rest' h hrest hrest'
  cases d' with
  | prefixed op' operand' =>
      obtain ⟨t, ts, rfl⟩ := List.exists_cons_of_ne_nil (chain.ne_nil rfl)
      exact absurd (List.cons.inj h).1 ((chain.opens t rfl).2 op')
  | bare chain' =>
      cases hchain chain' h hrest hrest'
      rfl

theorem chain {links : List Parser.Link} {first : Derivation .atom ts e}
    {list : Derivation (.pieces .link) us links} (hfirst : first.Determined)
    (hlist : list.Determined) : (Derivation.chain first list).Determined := by
  intro ts' v' d' rest rest' h hrest hrest'
  cases d' with
  | chain first' list' =>
      rw [List.append_assoc, List.append_assoc] at h
      cases hfirst first' h (list.piece_endsBefore hrest) (list'.piece_endsBefore hrest')
      cases hlist list' (List.append_cancel_left h) hrest hrest'
      rfl

end

/-! ### Atoms -/

section

variable {e : Tree}

theorem literal {t : Token} (ht : t.literal? = some e) : (Derivation.literal ht).Determined := by
  intro ts' v' d' rest rest' h hrest hrest'
  cases d' with
  | literal ht' =>
      obtain ⟨rfl, -⟩ := List.cons.inj h
      cases ht.symm.trans ht'
      rfl
  | template parts' =>
      cases parts' <;>
        (obtain ⟨rfl, -⟩ := List.cons.inj h
         cases ht)
  | parenthesized | array | object =>
      obtain ⟨rfl, -⟩ := List.cons.inj h
      cases ht

theorem template {parts : Derivation .template ts e} (hparts : parts.Determined) :
    (Derivation.template parts).Determined := by
  intro ts' v' d' rest rest' h hrest hrest'
  cases d' with
  | template parts' =>
      cases hparts parts' h hrest hrest'
      rfl
  | literal ht' =>
      cases parts <;>
        (obtain ⟨rfl, -⟩ := List.cons.inj h
         cases ht')
  | parenthesized | array | object => cases parts <;> cases (List.cons.inj h).1

theorem parenthesized {inner : Derivation .expression ts e} (hinner : inner.Determined) :
    (Derivation.parenthesized inner).Determined := by
  intro ts' v' d' rest rest' h hrest hrest'
  cases d' with
  | parenthesized inner' =>
      cases hinner inner' (enclosed_inj h) (.cons (by decide)) (.cons (by decide))
      rfl
  | literal ht' =>
      obtain ⟨rfl, -⟩ := List.cons.inj h
      cases ht'
  | template parts' => cases parts' <;> cases (List.cons.inj h).1
  | array | object => cases (List.cons.inj h).1

theorem array {items : List Tree} {list : Derivation (.entries .item) ts items}
    (hlist : list.Determined) : (Derivation.array list).Determined := by
  intro ts' v' d' rest rest' h hrest hrest'
  cases d' with
  | array list' =>
      cases hlist list' (enclosed_inj h) (.cons (by decide)) (.cons (by decide))
      rfl
  | literal ht' =>
      obtain ⟨rfl, -⟩ := List.cons.inj h
      cases ht'
  | template parts' => cases parts' <;> cases (List.cons.inj h).1
  | parenthesized | object => cases (List.cons.inj h).1

theorem object {properties : List (Text × Tree)}
    {list : Derivation (.entries .property) ts properties} (hlist : list.Determined) :
    (Derivation.object list).Determined := by
  intro ts' v' d' rest rest' h hrest hrest'
  cases d' with
  | object list' =>
      cases hlist list' (enclosed_inj h) (.cons (by decide)) (.cons (by decide))
      rfl
  | literal ht' =>
      obtain ⟨rfl, -⟩ := List.cons.inj h
      cases ht'
  | template parts' => cases parts' <;> cases (List.cons.inj h).1
  | parenthesized | array => cases (List.cons.inj h).1

end

/-! ### Templates -/

section

variable {chunks : List Chunk} {parts : List Part}
  {others : Derivation .template [.template chunks] (.template nowhere parts)}

theorem noParts : Derivation.noParts.Determined := by
  intro ts' v' d' rest rest' h hrest hrest'
  cases d' with
  | noParts => rfl
  | textPart | codePart => cases (List.cons.inj h).1

theorem textPart {t : Text} (hothers : others.Determined) :
    (Derivation.textPart t others).Determined := by
  intro ts' v' d' rest rest' h hrest hrest'
  cases d' with
  | textPart t' others' =>
      obtain ⟨⟨⟩, -⟩ := List.cons.inj h
      cases hothers others' rfl .nil .nil
      rfl
  | noParts | codePart => cases (List.cons.inj h).1

theorem codePart {source : Text} {offset : Nat} {lexemes : List Lexeme} {e : Tree}
    (hlex : lex source offset = .ok lexemes)
    {inner : Derivation .expression (lexemes.map Lexeme.token) e} (hinner : inner.Determined)
    (hothers : others.Determined) : (Derivation.codePart hlex inner others).Determined := by
  intro ts' v' d' rest rest' h hrest hrest'
  cases d' with
  | codePart hlex' inner' others' =>
      obtain ⟨⟨⟩, -⟩ := List.cons.inj h
      obtain rfl := Except.ok.inj (hlex.symm.trans hlex')
      cases hinner inner' rfl .nil .nil
      cases hothers others' rfl .nil .nil
      rfl
  | noParts | textPart => cases (List.cons.inj h).1

end

/-! ### Pieces -/

section

variable {key : Tree}

theorem member (x : Text) : (Derivation.member x).Determined := by
  intro ts' v' d' rest rest' h hrest hrest'
  cases d' with
  | member x' =>
      obtain ⟨-, hname⟩ := List.cons.inj h
      obtain ⟨⟨⟩, -⟩ := List.cons.inj hname
      rfl
  | _ => cases (List.cons.inj h).1

theorem optionalMember (x : Text) : (Derivation.optionalMember x).Determined := by
  intro ts' v' d' rest rest' h hrest hrest'
  cases d' with
  | optionalMember x' =>
      obtain ⟨-, hname⟩ := List.cons.inj h
      obtain ⟨⟨⟩, -⟩ := List.cons.inj hname
      rfl
  | optionalIndex =>
      obtain ⟨-, hname⟩ := List.cons.inj h
      cases (List.cons.inj hname).1
  | _ => cases (List.cons.inj h).1

theorem index {inner : Derivation .expression ts key} (hinner : inner.Determined) :
    (Derivation.index inner).Determined := by
  intro ts' v' d' rest rest' h hrest hrest'
  cases d' with
  | index inner' =>
      cases hinner inner' (enclosed_inj h) (.cons (by decide)) (.cons (by decide))
      rfl
  | _ => cases (List.cons.inj h).1

theorem optionalIndex {inner : Derivation .expression ts key} (hinner : inner.Determined) :
    (Derivation.optionalIndex inner).Determined := by
  intro ts' v' d' rest rest' h hrest hrest'
  cases d' with
  | optionalIndex inner' =>
      obtain ⟨-, hindex⟩ := List.cons.inj h
      cases hinner inner' (enclosed_inj hindex) (.cons (by decide)) (.cons (by decide))
      rfl
  | optionalMember =>
      obtain ⟨-, hname⟩ := List.cons.inj h
      cases (List.cons.inj hname).1
  | _ => cases (List.cons.inj h).1

theorem call {args : List Tree} {list : Derivation (.entries .item) ts args}
    (hlist : list.Determined) : (Derivation.call list).Determined := by
  intro ts' v' d' rest rest' h hrest hrest'
  cases d' with
  | call list' =>
      cases hlist list' (enclosed_inj h) (.cons (by decide)) (.cons (by decide))
      rfl
  | _ => cases (List.cons.inj h).1

theorem join {level : Nat} {op : BinaryOp} (hlevel : op.level = level)
    {operand : Derivation (.operand level) ts key} (hoperand : operand.Determined) :
    (Derivation.join op hlevel operand).Determined := by
  intro ts' v' d' rest rest' h hrest hrest'
  cases d' with
  | join op' hlevel' operand' =>
      obtain ⟨hop, hts⟩ := List.cons.inj h
      cases BinaryOp.written_injective (Token.operator.inj hop)
      cases hoperand operand' hts hrest hrest'
      rfl

theorem noPieces (p : Piece) : (Derivation.noPieces p).Determined := by
  intro ts' v' d' rest rest' h hrest hrest'
  cases d' with
  | noPieces => rfl
  | morePieces first' others' =>
      obtain rfl := h
      rw [List.append_assoc] at hrest
      exact absurd hrest first'.not_endsBefore_piece

theorem morePieces {p : Piece} {v : p.Value} {vs : List p.Value}
    {first : Derivation (.piece p) ts v} {others : Derivation (.pieces p) us vs}
    (hfirst : first.Determined) (hothers : others.Determined) :
    (Derivation.morePieces first others).Determined := by
  intro ts' v' d' rest rest' h hrest hrest'
  cases d' with
  | noPieces =>
      obtain rfl := h
      rw [List.append_assoc] at hrest'
      exact absurd hrest' first.not_endsBefore_piece
  | morePieces first' others' =>
      rw [List.append_assoc, List.append_assoc] at h
      cases hfirst first' h (others.piece_endsBefore hrest) (others'.piece_endsBefore hrest')
      cases hothers others' (List.append_cancel_left h) hrest hrest'
      rfl

end

/-! ### Lists -/

section

variable {e : Tree} {entry : Entry} {v : entry.Value} {vs : List entry.Value}
  {first : Derivation (.entry entry) ts v} {others : Derivation (.more entry) us vs}

theorem item {inner : Derivation .expression ts e} (hinner : inner.Determined) :
    (Derivation.item inner).Determined := by
  intro ts' v' d' rest rest' h hrest hrest'
  cases d' with
  | item inner' =>
      cases hinner inner' h hrest hrest'
      rfl

theorem property {t : Token} {k : Text} (hkey : t.key? = some k)
    {inner : Derivation .expression ts e} (hinner : inner.Determined) :
    (Derivation.property hkey inner).Determined := by
  intro ts' v' d' rest rest' h hrest hrest'
  cases d' with
  | property hkey' inner' =>
      obtain ⟨rfl, hts⟩ := List.cons.inj h
      cases hkey.symm.trans hkey'
      obtain ⟨-, hts⟩ := List.cons.inj hts
      cases hinner inner' hts (hrest.mono (by decide)) (hrest'.mono (by decide))
      rfl
  | shorthand x =>
      obtain ⟨-, rfl⟩ := List.cons.inj h
      exact absurd (hrest' _ rfl) (by decide)

theorem shorthand (x : Text) : (Derivation.shorthand x).Determined := by
  intro ts' v' d' rest rest' h hrest hrest'
  cases d' with
  | property hkey' inner' =>
      obtain ⟨-, rfl⟩ := List.cons.inj h
      exact absurd (hrest _ rfl) (by decide)
  | shorthand x' =>
      obtain ⟨⟨⟩, -⟩ := List.cons.inj h
      rfl

theorem name (x : Text) : (Derivation.name x).Determined := by
  intro ts' v' d' rest rest' h hrest hrest'
  cases d' with
  | name x' =>
      obtain ⟨⟨⟩, -⟩ := List.cons.inj h
      rfl

theorem noEntries (entry : Entry) : (Derivation.noEntries entry).Determined := by
  intro ts' v' d' rest rest' h hrest hrest'
  cases d' with
  | noEntries => rfl
  | firstEntry first' others' =>
      obtain rfl := h
      rw [List.append_assoc] at hrest
      exact absurd hrest first'.not_endsBefore_entry

theorem firstEntry (hfirst : first.Determined) (hothers : others.Determined) :
    (Derivation.firstEntry first others).Determined := by
  intro ts' v' d' rest rest' h hrest hrest'
  cases d' with
  | noEntries =>
      obtain rfl := h
      rw [List.append_assoc] at hrest'
      exact absurd hrest' first.not_endsBefore_entry
  | firstEntry first' others' =>
      rw [List.append_assoc, List.append_assoc] at h
      cases hfirst first' h (others.entry_endsBefore hrest) (others'.entry_endsBefore hrest')
      cases hothers others' (List.append_cancel_left h) hrest hrest'
      rfl

theorem ended (entry : Entry) : (Derivation.ended entry).Determined := by
  intro ts' v' d' rest rest' h hrest hrest'
  cases d' with
  | ended => rfl
  | trailingComma | nextEntry =>
      obtain rfl := h
      exact absurd (hrest _ rfl) (Nat.lt_irrefl 11)

theorem trailingComma (entry : Entry) : (Derivation.trailingComma entry).Determined := by
  intro ts' v' d' rest rest' h hrest hrest'
  cases d' with
  | ended =>
      obtain rfl := h
      exact absurd (hrest' _ rfl) (Nat.lt_irrefl 11)
  | trailingComma => rfl
  | nextEntry first' others' =>
      rw [List.cons_append, List.cons_append, List.append_assoc] at h
      obtain rfl := (List.cons.inj h).2
      exact absurd hrest first'.not_endsBefore_entry

theorem nextEntry (hfirst : first.Determined) (hothers : others.Determined) :
    (Derivation.nextEntry first others).Determined := by
  intro ts' v' d' rest rest' h hrest hrest'
  cases d' with
  | ended =>
      obtain rfl := h
      exact absurd (hrest' _ rfl) (Nat.lt_irrefl 11)
  | trailingComma =>
      rw [List.cons_append, List.append_assoc] at h
      obtain rfl := (List.cons.inj h).2
      exact absurd hrest' first.not_endsBefore_entry
  | nextEntry first' others' =>
      rw [List.cons_append, List.append_assoc, List.cons_append, List.append_assoc] at h
      obtain ⟨-, hts⟩ := List.cons.inj h
      cases hfirst first' hts (others.entry_endsBefore hrest) (others'.entry_endsBefore hrest')
      cases hothers others' (List.append_cancel_left hts) hrest hrest'
      rfl

end

end Derivation.Determined

/-- **The grammar is unambiguous.** Two phrases at the front of the same tokens are the
same if no more of what follows could belong to either. -/
theorem Derivation.determined {v : σ.Value} (d : Derivation σ ts v) : d.Determined := by
  induction d with
  | arrow _ _ hparams hinner => exact hparams.arrow hinner
  | disjunction _ hoperand => exact hoperand.disjunction
  | conditional _ _ _ hfirst hsecond hthird => exact hfirst.conditional hsecond hthird
  | single x => exact .single x
  | several _ hlist => exact hlist.several
  | joined _ _ hfirst hlist => exact hfirst.joined hlist
  | prefixed _ _ hoperand => exact hoperand.prefixed
  | bare _ hchain => exact hchain.bare
  | chain _ _ hfirst hlist => exact hfirst.chain hlist
  | literal ht => exact .literal ht
  | template _ hparts => exact hparts.template
  | parenthesized _ hinner => exact hinner.parenthesized
  | array _ hlist => exact hlist.array
  | object _ hlist => exact hlist.object
  | noParts => exact .noParts
  | textPart _ _ hothers => exact hothers.textPart
  | codePart hlex _ _ hinner hothers => exact .codePart hlex hinner hothers
  | member x => exact .member x
  | optionalMember x => exact .optionalMember x
  | index _ hinner => exact hinner.index
  | optionalIndex _ hinner => exact hinner.optionalIndex
  | call _ hlist => exact hlist.call
  | join _ hlevel _ hoperand => exact .join hlevel hoperand
  | noPieces p => exact .noPieces p
  | morePieces _ _ hfirst hothers => exact hfirst.morePieces hothers
  | item _ hinner => exact hinner.item
  | property hkey _ hinner => exact .property hkey hinner
  | shorthand x => exact .shorthand x
  | name x => exact .name x
  | noEntries entry => exact .noEntries entry
  | firstEntry _ _ hfirst hothers => exact hfirst.firstEntry hothers
  | ended entry => exact .ended entry
  | trailingComma entry => exact .trailingComma entry
  | nextEntry _ _ hfirst hothers => exact hfirst.nextEntry hothers

end Stencil.Expr
