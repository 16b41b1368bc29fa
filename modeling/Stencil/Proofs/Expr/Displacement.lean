import Stencil.Proofs.Expr.Placement
import Stencil.Proofs.Expr.Seating

/-!
# Reading a source further on

A source that stands further on is read as the same tree or with the same failure, and all
ranges are moved by as much: nothing in the reader looks at where a token stands but to say
where a tree or a failure is. `Moves` says this of a rule, run on tokens that are moved and
with a reach that is moved. There is one lemma for each way to build a rule, and then one for
each rule of the grammar.
-/

namespace Stencil.Expr

open Stencil.Expr.Parser

/-! ## Moving trees and failures -/

mutual

/-- A tree that stands `k` bytes further on. -/
def Tree.shift (k : Nat) : Tree → Tree
  | .undefined s => .undefined (s.shift k)
  | .null s => .null (s.shift k)
  | .bool s b => .bool (s.shift k) b
  | .number s x => .number (s.shift k) x
  | .string s t => .string (s.shift k) t
  | .template s parts => .template (s.shift k) (shiftParts k parts)
  | .name s t => .name (s.shift k) t
  | .array s items => .array (s.shift k) (shiftItems k items)
  | .object s properties => .object (s.shift k) (shiftProperties k properties)
  | .member s e property optional => .member (s.shift k) (e.shift k) property optional
  | .index s e key optional => .index (s.shift k) (e.shift k) (key.shift k) optional
  | .call s callee args => .call (s.shift k) (callee.shift k) (shiftItems k args)
  | .arrow s params body => .arrow (s.shift k) params (body.shift k)
  | .unary s op operand => .unary (s.shift k) op (operand.shift k)
  | .binary s op lhs rhs => .binary (s.shift k) op (lhs.shift k) (rhs.shift k)
  | .conditional s test consequent alternate =>
      .conditional (s.shift k) (test.shift k) (consequent.shift k) (alternate.shift k)

/-- Parts of a template that stand `k` bytes further on. -/
def shiftParts (k : Nat) : List Part → List Part
  | [] => []
  | .text t :: parts => .text t :: shiftParts k parts
  | .code e :: parts => .code (e.shift k) :: shiftParts k parts

/-- Trees that stand `k` bytes further on. -/
def shiftItems (k : Nat) : List Tree → List Tree
  | [] => []
  | e :: es => e.shift k :: shiftItems k es

/-- Properties of an object that stand `k` bytes further on. -/
def shiftProperties (k : Nat) : List (Text × Tree) → List (Text × Tree)
  | [] => []
  | (key, e) :: properties => (key, e.shift k) :: shiftProperties k properties

end

theorem shiftItems_eq_map (k : Nat) (es : List Tree) : shiftItems k es = es.map (Tree.shift k) := by
  induction es with
  | nil => rfl
  | cons e es ih => rw [shiftItems, ih, List.map_cons]

theorem shiftProperties_eq_map (k : Nat) (ps : List (Text × Tree)) :
    shiftProperties k ps = ps.map (Prod.map id (Tree.shift k)) := by
  induction ps with
  | nil => rfl
  | cons p ps ih => rw [shiftProperties, ih, List.map_cons]; rfl

theorem Tree.span_shift (k : Nat) (e : Tree) : (e.shift k).span = e.span.shift k := by
  cases e <;> rfl

/-- A link that stands `k` bytes further on. -/
def Parser.Link.shift (k : Nat) : Parser.Link → Parser.Link
  | .member property optional => .member property optional
  | .index key optional => .index (key.shift k) optional
  | .call args => .call (shiftItems k args)

theorem shift_attach (k : Nat) (object : Tree) (l : Parser.Link × Span) :
    (attach object l).shift k = attach (object.shift k) (l.1.shift k, l.2.shift k) := by
  obtain ⟨l, span⟩ := l
  cases l
  all_goals
    simp only [attach, Tree.shift, Parser.Link.shift, Tree.span_shift]
    rfl

theorem shift_foldl_attach {k : Nat} (links : List (Parser.Link × Span)) (first : Tree) :
    (links.foldl attach first).shift k =
      (links.map (Prod.map (Parser.Link.shift k) (Span.shift k))).foldl attach
        (first.shift k) := by
  induction links generalizing first with
  | nil => rfl
  | cons l links ih =>
      rw [List.foldl_cons, ih, shift_attach]
      rfl

theorem shift_foldr_applyUnary {k : Nat} (ops : List (UnaryOp × Span)) (operand : Tree) :
    (ops.foldr applyUnary operand).shift k =
      (ops.map (Prod.map id (Span.shift k))).foldr applyUnary (operand.shift k) := by
  induction ops with
  | nil => rfl
  | cons op ops ih =>
      rw [List.map_cons, List.foldr_cons, List.foldr_cons, ← ih]
      simp only [applyUnary, Tree.shift, Tree.span_shift]
      rfl

theorem shift_foldl_applyBinary {k : Nat} (others : List (BinaryOp × Tree)) (first : Tree) :
    (others.foldl applyBinary first).shift k =
      (others.map (Prod.map id (Tree.shift k))).foldl applyBinary (first.shift k) := by
  induction others generalizing first with
  | nil => rfl
  | cons o others ih =>
      rw [List.foldl_cons, ih, List.map_cons, List.foldl_cons]
      simp only [applyBinary, Tree.shift, Prod.map_fst, Prod.map_snd, Tree.span_shift]
      rfl

/-- A syntax error whose source stands `k` bytes further on. -/
def Malformed.shift (k : Nat) : Malformed → Malformed
  | .unexpected found expected => .unexpected (found.map (Token.shift k)) expected
  | m => m

/-- A cause of failure in a source that stands `k` bytes further on. -/
def Cause.shift (k : Nat) : Cause → Cause
  | .malformed m => .malformed (m.shift k)
  | .runtime t => .runtime t

/-- A failure in a source that stands `k` bytes further on. -/
def ExprError.shift (k : Nat) (e : ExprError) : ExprError :=
  ⟨e.cause.shift k, e.span.shift k⟩

theorem Token.describe_shift (k : Nat) (t : Token) : (t.shift k).describe = t.describe := by
  cases t <;> rfl

/-- The wording of a failure does not say where it is. -/
theorem ExprError.message_shift (k : Nat) (e : ExprError) : (e.shift k).message = e.message := by
  obtain ⟨cause, span⟩ := e
  cases cause with
  | malformed m =>
      cases m with
      | unexpected found expected =>
          cases found with
          | none => rfl
          | some t => exact congrArg ("Unexpected ".toList ++ ·) (t.describe_shift k)
      | _ => rfl
  | runtime t => rfl

theorem ExprError.expected_shift (k : Nat) (e : ExprError) :
    (e.shift k).expected = e.expected := by
  obtain ⟨cause, span⟩ := e
  cases cause with
  | malformed m => cases m <;> rfl
  | runtime t => rfl

/-- What is read of a source, where that stands `k` bytes further on. -/
def shiftOutcome {α : Type} (k : Nat) (f : α → α) : Except ExprError α → Except ExprError α
  | .ok a => .ok (f a)
  | .error e => .error (e.shift k)

/-! ## Tokens -/

variable {offset : Nat} {t : Text} {k : Nat}

theorem readToken_shift_error {c : Char} {rest : Text} {e : ExprError}
    (h : Lexer.readToken offset c rest = .error e) :
    Lexer.readToken (k + offset) c rest = .error (e.shift k) := by
  -- a failure is as wide further on
  have moved : ∀ (m : Malformed) (width : Nat), m.shift k = m →
      (⟨.malformed m, ⟨k + offset, k + offset + width⟩⟩ : ExprError) =
        ExprError.shift k ⟨.malformed m, ⟨offset, offset + width⟩⟩ := by
    intro m width hm
    rw [ExprError.shift, Cause.shift, hm, Span.shift, Nat.add_assoc]
  unfold Lexer.readToken at h ⊢
  dsimp only at h ⊢
  split at h
  · cases h
  · next start =>
      rw [if_neg start]
      split at h
      · next quote =>
          rw [if_pos quote]
          split at h
          · cases h
          · cases h
            rw [moved _ _ rfl]
      · next quotes =>
          rw [if_neg quotes]
          split at h
          · next backtick =>
              rw [if_pos backtick]
              split at h
              · cases h
              · cases h
                rw [moved _ _ rfl]
          · next backtick =>
              rw [if_neg backtick]
              split at h
              · cases h
              · split at h
                · cases h
                · cases h
                  rw [moved _ _ rfl]

theorem lexFrom_shift_error {e : ExprError} (h : Lexer.lexFrom offset t = .error e) :
    Lexer.lexFrom (k + offset) t = .error (e.shift k) := by
  fun_induction Lexer.lexFrom offset t with
  | case1 => cases h
  | case2 offset c rest hblank ih =>
      rw [Lexer.lexFrom, if_pos hblank, Nat.add_assoc]
      exact ih h
  | case3 offset c rest hblank e' hread =>
      cases h
      rw [Lexer.lexFrom, if_neg hblank, readToken_shift_error hread]
  | case4 offset c rest hblank token more hread stop e' hothers ih =>
      cases h
      have hstop : k + offset + c.utf8Size + Text.byteLength (rest.take more) = k + stop := by
        simp only [stop, Nat.add_assoc]
      rw [Lexer.lexFrom, if_neg hblank, readToken_shift k hread]
      dsimp only
      rw [hstop, ih hothers]
  | case5 => cases h

/-- **A source has the same tokens further on, or fails alike.** -/
theorem lex_shift (k : Nat) (source : Text) (base : Nat) :
    lex source (k + base) = shiftOutcome k (List.map (Lexeme.shift k)) (lex source base) := by
  cases h : lex source base with
  | ok lexemes => exact lexFrom_shift k h
  | error e => exact lexFrom_shift_error h

/-! ## Ways to build a rule -/

/-- Tokens that stand `k` bytes further on. -/
def Remaining.shift (k : Nat) (s : Remaining) : Remaining :=
  ⟨s.lexemes.map (Lexeme.shift k), s.position, k + s.stop⟩

/-- An obstacle that stands `k` bytes further on. -/
def Obstacle.shift (k : Nat) : Obstacle → Obstacle
  | .expected what => .expected what
  | .failed e => .failed (e.shift k)

/-- A reach in tokens that stand `k` bytes further on. -/
def Reach.shift (k : Nat) (r : Reach) : Reach :=
  ⟨r.position, r.obstacle.shift k⟩

theorem Reach.note_shift (r : Reach) (position : Nat) (what : List Expectation) :
    (r.shift k).note position what = (r.note position what).shift k := by
  obtain ⟨reached, obstacle⟩ := r
  unfold Reach.note Reach.shift
  dsimp only
  by_cases hfurther : reached < position
  · rw [if_pos hfurther, if_pos hfurther]
    rfl
  · rw [if_neg hfurther, if_neg hfurther]
    by_cases hless : position < reached
    · rw [if_pos hless, if_pos hless]
    · rw [if_neg hless, if_neg hless]
      cases obstacle <;> rfl

theorem Reach.noteFailed_shift (r : Reach) (position : Nat) (e : ExprError) :
    (r.shift k).noteFailed position (e.shift k) = (r.noteFailed position e).shift k := by
  obtain ⟨reached, obstacle⟩ := r
  unfold Reach.noteFailed Reach.shift
  dsimp only
  by_cases hfurther : reached < position
  · rw [if_pos hfurther, if_pos hfurther]
    rfl
  · rw [if_neg hfurther, if_neg hfurther]
    by_cases hless : position < reached
    · rw [if_pos hless, if_pos hless]
    · rw [if_neg hless, if_neg hless]
      cases obstacle <;> rfl

namespace Rule

variable {α β γ δ : Type}

/-- Where the first rule reads something and leaves a reach, the second rule reads the same
off tokens that stand `k` bytes further on and leaves the same reach, all of it moved. -/
def Moves (k : Nat) (g : α → β) (p : Rule α) (q : Rule β) : Prop :=
  ∀ s r, q (s.shift k) (r.shift k) =
    ((p s r).1.map (Prod.map g (Remaining.shift k)), (p s r).2.shift k)

variable {g : α → β} {h : γ → δ} {p p' : Rule α} {q q' : Rule β}

theorem Moves.pure (a : α) : Moves k g (Rule.pure a) (Rule.pure (g a)) :=
  fun _ _ => rfl

theorem Moves.bind {f : α → Rule γ} {f' : β → Rule δ} (hp : Moves k g p q)
    (hf : ∀ a, Moves k h (f a) (f' (g a))) : Moves k h (p.bind f) (q.bind f') := by
  intro s r
  unfold Rule.bind
  rw [hp s r]
  cases hread : p s r with
  | mk read reach =>
      cases read with
      | none => rfl
      | some x => exact hf x.1 x.2 reach

theorem Moves.map {u : α → γ} {u' : β → δ} (hp : Moves k g p q)
    (hu : ∀ a, h (u a) = u' (g a)) : Moves k h (p.map u) (q.map u') := by
  refine hp.bind fun a => ?_
  rw [← hu]
  exact .pure (u a)

theorem Moves.andThen {p₂ : Rule γ} {q₂ : Rule δ} (hp : Moves k g p q) (hq : Moves k h p₂ q₂) :
    Moves k h (p.andThen p₂) (q.andThen q₂) :=
  hp.bind fun _ => hq

theorem Moves.andSkip {p₂ : Rule γ} {q₂ : Rule δ} (hp : Moves k g p q) (hq : Moves k h p₂ q₂) :
    Moves k g (p.andSkip p₂) (q.andSkip q₂) :=
  hp.bind fun a => hq.bind fun _ => .pure a

theorem Moves.both {p₂ : Rule γ} {q₂ : Rule δ} (hp : Moves k g p q) (hq : Moves k h p₂ q₂) :
    Moves k (Prod.map g h) (p.both p₂) (q.both q₂) :=
  hp.bind fun _ => hq.map fun _ => rfl

theorem Moves.orElse (hp : Moves k g p q) (hp' : Moves k g p' q') :
    Moves k g (p.orElse p') (q.orElse q') := by
  intro s r
  unfold Rule.orElse
  rw [hp s r]
  cases hread : p s r with
  | mk read reach =>
      cases read with
      | none => exact hp' s reach
      | some x => rfl

theorem Moves.perhaps (hp : Moves k g p q) :
    Moves k (Option.map g) (Rule.perhaps p) (Rule.perhaps q) := by
  have hsome : Moves k (Option.map g) (p.map some) (q.map some) := hp.map fun _ => rfl
  exact hsome.orElse (.pure none)

theorem Moves.many (hp : Moves k g p q) : Moves k (List.map g) (Rule.many p) (Rule.many q) := by
  have upTo : ∀ count, Moves k (List.map g) (manyUpTo p count) (manyUpTo q count) := by
    intro count
    induction count with
    | zero => exact .pure []
    | succ count ih =>
        intro s r
        unfold manyUpTo
        rw [hp s r]
        cases hread : p s r with
        | mk read reach =>
            cases read with
            | none => rfl
            | some x =>
                have hlater : Moves k (List.map g) ((manyUpTo p count).map (x.1 :: ·))
                    ((manyUpTo q count).map (g x.1 :: ·)) := ih.map fun _ => rfl
                exact hlater x.2 reach
  intro s r
  have hlength : (s.shift k).lexemes.length = s.lexemes.length := List.length_map _
  rw [Rule.many, hlength]
  exact upTo (s.lexemes.length + 1) s r

theorem Moves.spanned (hp : Moves k g p q) :
    Moves k (Prod.map g (Span.shift k)) p.spanned q.spanned := by
  intro s r
  have hstart : ((s.shift k).lexemes.head?.elim (s.shift k).stop fun l => l.span.start) =
      k + s.lexemes.head?.elim s.stop fun l => l.span.start := by
    cases hs : s.lexemes with
    | nil => simp [Remaining.shift, hs]
    | cons l lexemes => simp [Remaining.shift, hs, Lexeme.shift, Span.shift]
  unfold Rule.spanned
  rw [hp s r, hstart]
  cases hread : p s r with
  | mk read reach =>
      cases read with
      | none => rfl
      | some x => rfl

theorem moves_token (what : List Expectation) {f : Token → Option α} {f' : Token → Option β}
    (hf : ∀ t, f' (t.shift k) = (f t).map g) : Moves k g (token what f) (token what f') := by
  intro s r
  obtain ⟨lexemes, position, stop⟩ := s
  cases lexemes with
  | nil => exact Prod.ext rfl (r.note_shift position what)
  | cons l lexemes =>
      simp only [token, Remaining.shift, List.map_cons, Lexeme.shift, hf]
      cases f l.token with
      | none => exact Prod.ext rfl (r.note_shift position what)
      | some a => rfl

/-- A rule for one token that is no template reads the same. -/
theorem moves_plain (what : List Expectation) {f : Token → Option α}
    (hf : ∀ chunks, f (.template chunks) = none) : Moves k id (token what f) (token what f) := by
  refine moves_token what fun t => ?_
  rw [Option.map_id]
  cases t with
  | template chunks => exact (hf _).trans (hf _).symm
  | _ => rfl

theorem moves_mark (m : Mark) : Moves k id (mark m) (mark m) := by
  unfold mark
  exact moves_plain _ fun _ => rfl

theorem moves_finish : Moves k id finish finish := by
  intro s r
  obtain ⟨lexemes, position, stop⟩ := s
  cases lexemes with
  | nil => rfl
  | cons l lexemes => exact Prod.ext rfl (r.note_shift position _)

theorem Moves.between (opening closing : Mark) (hp : Moves k g p q) :
    Moves k g (Rule.between opening closing p) (Rule.between opening closing q) :=
  ((moves_mark opening).andThen hp).andSkip (moves_mark closing)

theorem Moves.commaSeparated (hp : Moves k g p q) :
    Moves k (List.map g) (Rule.commaSeparated p) (Rule.commaSeparated q) := by
  refine .orElse (hp.bind fun first => ?_) (.pure [])
  refine (((moves_mark .comma).andThen hp).many).bind fun others => ?_
  exact (moves_mark .comma).perhaps.map fun _ => rfl

/-! ## Rules of the grammar -/

/-- The reader of sources reads them alike further on. -/
def ReaderMoves (k : Nat) (sub : SourceReader) : Prop :=
  ∀ t offset, sub t (k + offset) = shiftOutcome k (Tree.shift k) (sub t offset)

variable {sub : SourceReader} {expr : Rule Tree}

theorem moves_name : Moves k id name name := by
  unfold name select
  exact moves_plain _ fun _ => rfl

theorem moves_literal : Moves k (Tree.shift k) literal literal := by
  intro s r
  obtain ⟨lexemes, position, stop⟩ := s
  cases lexemes with
  | nil => exact Prod.ext rfl (r.note_shift position [])
  | cons l lexemes =>
      obtain ⟨t, span⟩ := l
      cases t with
      | keyword word =>
          cases word with
          | typeof => exact Prod.ext rfl (r.note_shift position [])
          | _ => rfl
      | name | number | string => rfl
      | _ => exact Prod.ext rfl (r.note_shift position [])

theorem templateParts_shift (hsub : ReaderMoves k sub) (chunks : List Chunk) :
    templateParts sub (chunks.map (Chunk.shift k)) =
      shiftOutcome k (shiftParts k) (templateParts sub chunks) := by
  induction chunks with
  | nil => rfl
  | cons chunk chunks ih =>
      cases chunk with
      | text t =>
          simp only [List.map_cons, Chunk.shift, templateParts, ih]
          cases templateParts sub chunks <;> rfl
      | code t offset =>
          simp only [List.map_cons, Chunk.shift, templateParts, hsub t offset, ih]
          cases sub t offset with
          | error e => rfl
          | ok e => cases templateParts sub chunks <;> rfl

theorem moves_template (hsub : ReaderMoves k sub) :
    Moves k (Tree.shift k) (template sub) (template sub) := by
  intro s r
  obtain ⟨lexemes, position, stop⟩ := s
  cases lexemes with
  | nil => exact Prod.ext rfl (r.note_shift position [])
  | cons l lexemes =>
      obtain ⟨t, span⟩ := l
      cases t with
      | template chunks =>
          simp only [template, Rule.spanned, select, token, Remaining.shift, List.map_cons,
            Lexeme.shift, Token.shift, templateParts_shift hsub]
          cases templateParts sub chunks with
          | ok parts => rfl
          | error e => exact Prod.ext rfl (r.noteFailed_shift (position + 1) e)
      | _ => exact Prod.ext rfl (r.note_shift position [])

section

variable (hexpr : Moves k (Tree.shift k) expr expr)
include hexpr

theorem moves_array : Moves k (Tree.shift k) (array expr) (array expr) := by
  refine (hexpr.commaSeparated.between .bracketOpen .bracketClose).spanned.map ?_
  rintro ⟨items, span⟩
  rw [Tree.shift, shiftItems_eq_map]
  rfl

theorem moves_property :
    Moves k (Prod.map id (Tree.shift k)) (property expr) (property expr) := by
  have hkey : Moves k id key key := by
    unfold key select
    exact moves_plain _ fun _ => rfl
  exact ((hkey.andSkip (moves_mark .colon)).both hexpr).orElse
    (moves_name.spanned.map fun _ => rfl)

theorem moves_object : Moves k (Tree.shift k) (object expr) (object expr) := by
  refine ((moves_property hexpr).commaSeparated.between .braceOpen .braceClose).spanned.map ?_
  rintro ⟨properties, span⟩
  rw [Tree.shift, shiftProperties_eq_map]
  rfl

theorem moves_link : Moves k (Link.shift k) (link expr) (link expr) := by
  have hmember : ∀ m : Mark, Moves k id ((mark m).andThen name) ((mark m).andThen name) :=
    fun m => (moves_mark m).andThen moves_name
  have hbracketed := hexpr.between .bracketOpen .bracketClose
  refine .orElse ?_ (.orElse ?_ (.orElse ?_ (.orElse ?_ ?_)))
  · exact (hmember .dot).map fun _ => rfl
  · exact (hmember .optionalDot).map fun _ => rfl
  · exact ((moves_mark .optionalDot).andThen hbracketed).map fun _ => rfl
  · exact hbracketed.map fun _ => rfl
  · refine (hexpr.commaSeparated.between .parenOpen .parenClose).map fun args => ?_
    rw [Link.shift, shiftItems_eq_map]

variable (hsub : ReaderMoves k sub)
include hsub

theorem moves_atom : Moves k (Tree.shift k) (atom sub expr) (atom sub expr) :=
  moves_literal.orElse ((moves_template hsub).orElse
    ((hexpr.between .parenOpen .parenClose).orElse
      ((moves_array hexpr).orElse (moves_object hexpr))))

theorem moves_chain : Moves k (Tree.shift k) (chain sub expr) (chain sub expr) :=
  (moves_atom hexpr hsub).bind fun first =>
    (moves_link hexpr).spanned.many.map fun links => shift_foldl_attach links first

theorem moves_unary : Moves k (Tree.shift k) (unary sub expr) (unary sub expr) := by
  have hop : Moves k id unaryOperator unaryOperator := by
    unfold unaryOperator select
    exact moves_plain _ fun _ => rfl
  exact hop.spanned.many.bind fun ops =>
    (moves_chain hexpr hsub).map fun operand => shift_foldr_applyUnary ops operand

omit hexpr hsub in
theorem moves_levelOperator (level : Nat) :
    Moves k id (levelOperator level) (levelOperator level) := by
  match level with
  | 0 | 1 | 2 | 3 | 5 =>
      dsimp only [levelOperator, productOperator, sumOperator, comparisonOperator,
        equalityOperator, orOperator, select]
      exact moves_plain _ fun _ => rfl
  | 4 =>
      have hand : Moves k id (operator .and) (operator .and) := by
        unfold operator
        exact moves_plain _ fun _ => rfl
      exact hand.map fun _ => rfl
  | level + 6 => exact fun _ _ => rfl

theorem moves_operandRule (level : Nat) :
    Moves k (Tree.shift k) (operandRule sub expr level) (operandRule sub expr level) := by
  induction level with
  | zero => exact moves_unary hexpr hsub
  | succ level ih =>
      exact ih.bind fun first => ((moves_levelOperator level).both ih).many.map fun others =>
        shift_foldl_applyBinary others first

theorem moves_conditional :
    Moves k (Tree.shift k) (conditional sub expr) (conditional sub expr) := by
  have hbranches : Moves k (Prod.map (Tree.shift k) (Tree.shift k)) (branches expr)
      (branches expr) :=
    (((moves_mark .question).andThen hexpr).andSkip (moves_mark .colon)).both hexpr
  refine ((moves_operandRule hexpr hsub 6).both hbranches.perhaps).map ?_
  rintro ⟨test, branches⟩
  cases branches with
  | none => rfl
  | some y =>
      obtain ⟨consequent, alternate⟩ := y
      simp only [Tree.shift, Prod.map_apply, Option.map_some, Tree.span_shift]
      rfl

omit hsub in
theorem moves_arrow : Moves k (Tree.shift k) (arrow expr) (arrow expr) := by
  have hparams : Moves k id params params := by
    have hone : Moves k id (name.map fun t => [t]) (name.map fun t => [t]) :=
      moves_name.map fun _ => rfl
    have hlist := (moves_name (k := k)).commaSeparated.between .parenOpen .parenClose
    rw [List.map_id_fun] at hlist
    exact hone.orElse hlist
  exact ((hparams.andSkip (moves_mark .arrow)).both hexpr).spanned.map fun _ => rfl

end

theorem moves_expression (hsub : ReaderMoves k sub) (bound : Nat) :
    Moves k (Tree.shift k) (expression sub bound) (expression sub bound) := by
  induction bound with
  | zero => exact fun _ _ => rfl
  | succ bound ih => exact (moves_arrow ih).orElse (moves_conditional ih hsub)

end Rule

/-! ## Sources -/

open Rule

theorem failure_shift (lexemes : List Lexeme) (stop : Nat) (r : Reach) :
    failure (lexemes.map (Lexeme.shift k)) (k + stop) (r.shift k) =
      (failure lexemes stop r).shift k := by
  obtain ⟨position, obstacle⟩ := r
  cases obstacle with
  | failed e => rfl
  | expected what =>
      simp only [Parser.failure, Reach.shift, Obstacle.shift, List.getElem?_map, List.getLast?_map]
      cases lexemes[position]? with
      | some l => rfl
      | none => cases lexemes.getLast? <;> rfl

theorem parseTokens_shift {sub : SourceReader} (hsub : ReaderMoves k sub) (lexemes : List Lexeme)
    (stop : Nat) : parseTokens sub (lexemes.map (Lexeme.shift k)) (k + stop) =
      shiftOutcome k (Tree.shift k) (parseTokens sub lexemes stop) := by
  have hrule := (moves_expression hsub (lexemes.length + 1)).andSkip moves_finish
  have hread : ((expression sub (lexemes.length + 1)).andSkip finish)
      ⟨lexemes.map (Lexeme.shift k), 0, k + stop⟩ Reach.start = _ :=
    hrule ⟨lexemes, 0, stop⟩ Reach.start
  unfold parseTokens
  dsimp only
  rw [List.length_map, hread]
  cases ((expression sub (lexemes.length + 1)).andSkip finish) ⟨lexemes, 0, stop⟩ Reach.start with
  | mk read reach =>
      cases read with
      | some x => rfl
      | none => exact congrArg Except.error (failure_shift lexemes stop reach)

theorem withoutExpected_shift (e : ExprError) :
    withoutExpected (e.shift k) = (withoutExpected e).shift k := by
  obtain ⟨cause, span⟩ := e
  cases cause with
  | malformed m => cases m <;> rfl
  | runtime t => rfl

theorem parseNested_shift (depth : Nat) : ReaderMoves k (parseNested depth) := by
  induction depth with
  | zero => exact fun _ _ => rfl
  | succ depth ih =>
      have hsub : ReaderMoves k (nestedReader depth) := by
        intro t offset
        unfold nestedReader
        rw [ih t offset]
        cases parseNested depth t offset with
        | ok e => rfl
        | error e => exact congrArg Except.error (withoutExpected_shift e)
      intro t offset
      unfold parseNested
      rw [lex_shift]
      cases lex t offset with
      | error e => rfl
      | ok lexemes =>
          have htokens := parseTokens_shift hsub lexemes (offset + Text.byteLength t)
          rw [← Nat.add_assoc] at htokens
          exact htokens

/-- **A source is read alike wherever it stands**, with all ranges moved. -/
theorem parseAt_shift (k : Nat) (source : Text) (base : Nat) :
    parseAt source (k + base) = shiftOutcome k (Tree.shift k) (parseAt source base) :=
  parseNested_shift (source.length + 1) source base

/-- **Ranges are those of the outermost source.** In a tree that is read off a source, each
node stands in the source where its range says, inside the node above it and behind the nodes
before it, and a name is what stands there; so it is in interpolations too, however deep. And
where the source stands makes no difference but to the ranges, which are moved by as much, of
trees as of failures. -/
theorem parseAt_faithful (source : Text) (base : Nat) :
    (∀ e, parseAt source base = .ok e → e.Faithful source base) ∧
    parseAt source base = shiftOutcome base (Tree.shift base) (parseAt source 0) ∧
    ∀ failure, parseAt source 0 = .error failure → ∃ moved,
      parseAt source base = .error moved ∧ moved.span = failure.span.shift base ∧
        moved.message = failure.message ∧ moved.expected = failure.expected := by
  have hshift := parseAt_shift base source 0
  rw [Nat.add_zero] at hshift
  refine ⟨fun e h => faithful_of_parseAt h, hshift, fun failure h => ?_⟩
  rw [h] at hshift
  exact ⟨failure.shift base, hshift, rfl, failure.message_shift base, failure.expected_shift base⟩

/-- An expression in a template stands where it does in the source of the template. -/
theorem parseAt_faithful_interpolation :
    ∃ e, parseAt "`<li>${item.name}</li>`".toList 3 = .ok e ∧
      e.Faithful "`<li>${item.name}</li>`".toList 3 ∧
      e.children.map Tree.span = [⟨10, 19⟩] := by
  have hread : (parseAt "`<li>${item.name}</li>`".toList 3).toOption.map
      (fun e => e.children.map Tree.span) = some [⟨10, 19⟩] := by decide +kernel
  obtain ⟨e, he, hspans⟩ := Option.map_eq_some_iff.1 hread
  have hparse := Except.toOption_eq_some_iff.1 he
  exact ⟨e, hparse, (parseAt_faithful _ _).1 e hparse, hspans⟩

end Stencil.Expr
