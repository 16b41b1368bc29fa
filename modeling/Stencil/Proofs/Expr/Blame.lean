import Stencil.Proofs.Expr.Pointing

/-!
# Failures of readers say where they are

A source that cannot be read fails at what stands in it (`points_of_parseAt`). A failure of the
lexer stands where the token does that it cannot read. A syntax error is told from the reach of
the rules: a token, the end of the source, or a failure inside an interpolation of a template,
which stands in the source where its chunk says. That a rule leaves such a reach is `Blames`;
there is one lemma for each way to build a rule, and then one for each rule of the grammar.

With the failures of evaluations (`points_of_evaluate`) these are all the failures there are
(`points_of_evaluateText`).
-/

namespace Stencil.Expr

open Stencil.Expr.Parser

variable {source t : Text} {base offset stop : Nat} {e : ExprError}

/-! ## Tokens -/

/-- A syntax error points into a source that has something at its range. -/
theorem points_malformed {m : Malformed} {span : Span} (h : Text.Holds source base span t) :
    ExprError.Points source base ⟨.malformed m, span⟩ where
  text _ := ⟨t, h⟩
  undefined x hx := by cases hx

/-- A syntax error with an empty range points anywhere. -/
theorem points_empty {m : Malformed} {span : Span} (h : span.stop ≤ span.start) :
    ExprError.Points source base ⟨.malformed m, span⟩ where
  text hlt := absurd hlt (Nat.not_lt.2 h)
  undefined x hx := by cases hx

/-- What belongs to a string that is not closed is at the start of the text. -/
theorem prefix_of_stringBody {quote : Char} {n : Nat} (h : Lexer.stringBody quote t = .inr n) :
    ∃ u, u <+: t ∧ Text.byteLength u = n := by
  fun_induction Lexer.stringBody quote t generalizing n with
  | case1 | case2 | case3 =>
      cases h
      exact ⟨[], List.nil_prefix, rfl⟩
  | case4 | case6 | case7 => cases h
  | case5 c rest _ m hm ih =>
      cases h
      obtain ⟨u, hu, rfl⟩ := ih hm
      refine ⟨'\\' :: c :: u, (List.prefix_append_right_inj ['\\', c]).2 hu, ?_⟩
      rw [Text.byteLength_cons, Text.byteLength_cons, Nat.add_assoc]
      rfl
  | case8 c rest _ _ _ m hm ih =>
      cases h
      obtain ⟨u, hu, rfl⟩ := ih hm
      exact ⟨c :: u, (List.prefix_append_right_inj [c]).2 hu, Text.byteLength_cons c u⟩

/-- A token that cannot be read fails at characters of the text. -/
theorem points_readToken {c : Char} {rest : Text} (h : Lexer.readToken offset c rest = .error e)
    (ht : Text.Holds source base ⟨offset, stop⟩ (c :: rest)) : e.Points source base := by
  -- the first character and some of those behind it
  have front : ∀ {u : Text} {width : Nat} {m : Malformed}, u <+: rest →
      c.utf8Size + Text.byteLength u = width →
      ExprError.Points source base ⟨.malformed m, ⟨offset, offset + width⟩⟩ := by
    rintro u width m ⟨v, rfl⟩ rfl
    have hheld := Text.Holds.left (t := c :: u) ht
    rw [Text.byteLength_cons] at hheld
    exact points_malformed hheld
  unfold Lexer.readToken at h
  dsimp only at h
  split at h
  · cases h
  split at h
  · next quote =>
      split at h
      · cases h
      · next n hbody =>
          cases h
          obtain ⟨u, hu, rfl⟩ := prefix_of_stringBody hbody
          have hsize : c.utf8Size = 1 := by
            rcases (by simpa using quote : c = '\'' ∨ c = '"') with rfl | rfl <;> rfl
          exact front hu (by rw [hsize])
  split at h
  · next backtick =>
      subst backtick
      split at h
      · cases h
      · cases h
        exact front List.nil_prefix rfl
  split at h
  · cases h
  split at h
  · cases h
  · cases h
    exact front List.nil_prefix rfl

/-- **A source with no tokens fails at what stands in it.** -/
theorem points_lexFrom (h : Lexer.lexFrom offset t = .error e)
    (ht : Text.Holds source base ⟨offset, stop⟩ t) : e.Points source base := by
  fun_induction Lexer.lexFrom offset t with
  | case1 => cases h
  | case2 offset c rest _ ih => exact ih h (Text.Holds.right (t := [c]) ht)
  | case3 offset c rest _ e' hread =>
      cases h
      exact points_readToken hread ht
  | case4 offset c rest _ token more hread after e' hothers ih =>
      cases h
      have hsplit : c :: rest = (c :: rest.take more) ++ rest.drop more := by simp
      rw [hsplit] at ht
      have hrest := ht.right
      rw [Text.byteLength_cons, ← Nat.add_assoc] at hrest
      exact ih hothers hrest
  | case5 => cases h

/-! ## Ways to build a rule -/

/-- If an interpolation has failed, the failure says where it is. -/
def Reach.Points (source : Text) (base : Nat) (r : Reach) : Prop :=
  ∀ e, r.obstacle = .failed e → e.Points source base

namespace Reach

theorem Points.note {r : Reach} (h : r.Points source base) (position : Nat)
    (what : List Expectation) : (r.note position what).Points source base := by
  intro e he
  unfold Reach.note at he
  split at he
  · cases he
  split at he
  · exact h e he
  split at he
  · cases he
  · exact h e he

theorem Points.noteFailed {r : Reach} (h : r.Points source base) (position : Nat)
    (hfailed : e.Points source base) : (r.noteFailed position e).Points source base := by
  intro e' he
  unfold Reach.noteFailed at he
  split at he
  · cases he
    exact hfailed
  split at he
  · exact h e' he
  split at he
  · cases he
    exact hfailed
  · exact h e' he

end Reach

namespace Rule

variable {α β : Type}

/-- On tokens that stand in the source, the rule leaves such tokens, and it notes only failures
that say where they are. -/
def Blames (source : Text) (base : Nat) (p : Rule α) : Prop :=
  ∀ s r, s.Placed source base → r.Points source base →
    (p s r).2.Points source base ∧ ∀ x ∈ (p s r).1, x.2.Placed source base

variable {p p' : Rule α} {q : Rule β} {f : α → Rule β}

theorem Blames.pure (a : α) : Blames source base (Rule.pure a) := by
  intro s r hs hr
  refine ⟨hr, fun x hx => ?_⟩
  cases hx
  exact hs

/-- What the rule comes to, once it is known. -/
theorem Blames.outcome (hp : Blames source base p) {s : Remaining} {r : Reach}
    (hs : s.Placed source base) (hr : r.Points source base)
    {read : Option (α × Remaining)} {reach : Reach} (h : p s r = (read, reach)) :
    reach.Points source base ∧ ∀ x ∈ read, x.2.Placed source base := by
  have := hp s r hs hr
  rwa [h] at this

theorem Blames.bind (hp : Blames source base p) (hf : ∀ a, Blames source base (f a)) :
    Blames source base (p.bind f) := by
  intro s r hs hr
  unfold Rule.bind
  split
  · next a s' r' heq =>
      obtain ⟨hreach, hleft⟩ := hp.outcome hs hr heq
      exact hf a s' r' (hleft _ rfl) hreach
  · next r' heq => exact ⟨(hp.outcome hs hr heq).1, nofun⟩

theorem Blames.map (hp : Blames source base p) (g : α → β) : Blames source base (p.map g) :=
  hp.bind fun a => .pure (g a)

theorem Blames.andSkip (hp : Blames source base p) (hq : Blames source base q) :
    Blames source base (p.andSkip q) :=
  hp.bind fun a => hq.bind fun _ => .pure a

theorem Blames.andThen (hp : Blames source base p) (hq : Blames source base q) :
    Blames source base (p.andThen q) :=
  hp.bind fun _ => hq

theorem Blames.both (hp : Blames source base p) (hq : Blames source base q) :
    Blames source base (p.both q) :=
  hp.bind fun a => hq.map fun b => (a, b)

theorem Blames.orElse (hp : Blames source base p) (hp' : Blames source base p') :
    Blames source base (p.orElse p') := by
  intro s r hs hr
  unfold Rule.orElse
  split
  · next x r' heq => exact hp.outcome hs hr heq
  · next r' heq => exact hp' s r' hs (hp.outcome hs hr heq).1

theorem Blames.perhaps (hp : Blames source base p) : Blames source base (Rule.perhaps p) :=
  (hp.map some).orElse (.pure none)

theorem Blames.many (hp : Blames source base p) : Blames source base (Rule.many p) := by
  have upTo : ∀ count, Blames source base (manyUpTo p count) := by
    intro count
    induction count with
    | zero => exact .pure []
    | succ count ih =>
        intro s r hs hr
        unfold manyUpTo
        split
        · next r' heq =>
            refine ⟨(hp.outcome hs hr heq).1, fun x hx => ?_⟩
            cases hx
            exact hs
        · next a s' r' heq =>
            obtain ⟨hreach, hleft⟩ := hp.outcome hs hr heq
            exact ih.map (a :: ·) s' r' (hleft _ rfl) hreach
  exact fun s => upTo (s.lexemes.length + 1) s

theorem Blames.spanned (hp : Blames source base p) : Blames source base p.spanned := by
  intro s r hs hr
  unfold Rule.spanned
  split
  · next r' heq => exact ⟨(hp.outcome hs hr heq).1, nofun⟩
  · next a after r' heq =>
      obtain ⟨hreach, hleft⟩ := hp.outcome hs hr heq
      refine ⟨hreach, fun x hx => ?_⟩
      cases hx
      exact hleft _ rfl

theorem blames_token (what : List Expectation) (f : Token → Option α) :
    Blames source base (token what f) := by
  intro s r hs hr
  obtain ⟨lexemes, position, stop⟩ := s
  cases lexemes with
  | nil => exact ⟨hr.note position what, nofun⟩
  | cons l lexemes =>
      obtain ⟨-, hplaced⟩ := List.forall_mem_cons.1 hs.placed
      obtain ⟨-, hordered⟩ := List.pairwise_cons.1 hs.ordered
      unfold token
      dsimp only
      split
      · refine ⟨hr, fun x hx => ?_⟩
        cases hx
        exact ⟨hplaced, hordered⟩
      · exact ⟨hr.note position what, nofun⟩

theorem blames_finish : Blames source base finish := by
  intro s r hs hr
  unfold finish
  split
  · refine ⟨hr, fun x hx => ?_⟩
    cases hx
    exact hs
  · exact ⟨hr.note _ _, nofun⟩

theorem Blames.between (opening closing : Mark) (hp : Blames source base p) :
    Blames source base (Rule.between opening closing p) :=
  ((blames_token _ _).andThen hp).andSkip (blames_token _ _)

theorem Blames.commaSeparated (hp : Blames source base p) :
    Blames source base (Rule.commaSeparated p) := by
  refine .orElse (hp.bind fun first => ?_) (.pure [])
  exact (((blames_token _ _).andThen hp).many).bind fun others =>
    (blames_token _ _).perhaps.map fun _ => first :: others

/-! ## Rules of the grammar -/

/-- The reader of sources fails at what stands in them. -/
def ReaderPoints (sub : SourceReader) : Prop :=
  ∀ t offset e, sub t offset = .error e → e.Points t offset

variable {sub : SourceReader} {expr : Rule Tree}

theorem blames_name : Blames source base name :=
  blames_token _ _

/-- An interpolation that fails stands where its chunk says. -/
theorem points_templateParts (hsub : ReaderPoints sub) {chunks : List Chunk} {start : Nat}
    (hchunks : ChunksIn source base stop start chunks)
    (h : templateParts sub chunks = .error e) : e.Points source base := by
  induction chunks generalizing start with
  | nil => cases h
  | cons chunk chunks ih =>
      cases chunk with
      | text t =>
          have hrest : ChunksIn source base stop start chunks := hchunks
          cases hparts : templateParts sub chunks with
          | ok parts =>
              rw [templateParts, hparts] at h
              cases h
          | error e' =>
              rw [templateParts, hparts] at h
              cases h
              exact ih hrest hparts
      | code t offset =>
          obtain ⟨-, -, ht, hrest⟩ := hchunks
          cases hcode : sub t offset with
          | error e' =>
              rw [templateParts, hcode] at h
              cases h
              exact (hsub t offset _ hcode).within ht
          | ok node =>
              cases hparts : templateParts sub chunks with
              | ok parts =>
                  rw [templateParts, hcode, hparts] at h
                  cases h
              | error e' =>
                  rw [templateParts, hcode, hparts] at h
                  cases h
                  exact ih hrest hparts

theorem blames_template (hsub : ReaderPoints sub) : Blames source base (template sub) := by
  intro s r hs hr
  unfold template
  split
  · next r' heq => exact ⟨((blames_token _ _).spanned.outcome hs hr heq).1, nofun⟩
  · next chunks span after r' heq =>
      obtain ⟨hreach, hleft⟩ := (blames_token _ _).spanned.outcome hs hr heq
      split
      · refine ⟨hreach, fun x hx => ?_⟩
        cases hx
        exact hleft _ rfl
      · next e hparts =>
          obtain ⟨-, ⟨-, t, ht, hspells⟩, -⟩ :=
            (relates_token _ _).spanned s r _ _ hs (congrArg Prod.fst heq)
          dsimp only at ht
          cases t with
          | template chunks' =>
              cases ht
              exact ⟨hreach.noteFailed _ (points_templateParts hsub hspells hparts), nofun⟩
          | _ => cases ht

section

variable (hexpr : Blames source base expr)
include hexpr

theorem blames_array : Blames source base (array expr) :=
  (hexpr.commaSeparated.between .bracketOpen .bracketClose).spanned.map _

theorem blames_object : Blames source base (object expr) := by
  have hkey : Blames source base key := blames_token _ _
  have hproperty : Blames source base (property expr) :=
    ((hkey.andSkip (blames_token _ _)).both hexpr).orElse (blames_name.spanned.map _)
  exact (hproperty.commaSeparated.between .braceOpen .braceClose).spanned.map _

theorem blames_link : Blames source base (link expr) := by
  have hmember : ∀ m : Mark, Blames source base ((mark m).andThen name) :=
    fun m => (blames_token _ _).andThen blames_name
  have hbracketed : Blames source base (bracketed expr) := hexpr.between .bracketOpen .bracketClose
  refine .orElse ?_ (.orElse ?_ (.orElse ?_ (.orElse ?_ ?_)))
  · exact (hmember .dot).map _
  · exact (hmember .optionalDot).map _
  · exact ((blames_token _ _).andThen hbracketed).map _
  · exact hbracketed.map _
  · exact (hexpr.commaSeparated.between .parenOpen .parenClose).map _

theorem blames_arrow : Blames source base (arrow expr) := by
  have hparams : Blames source base params :=
    (blames_name.map _).orElse (blames_name.commaSeparated.between .parenOpen .parenClose)
  exact ((hparams.andSkip (blames_token _ _)).both hexpr).spanned.map _

variable (hsub : ReaderPoints sub)
include hsub

theorem blames_atom : Blames source base (atom sub expr) :=
  ((blames_token _ _).spanned.map _).orElse ((blames_template hsub).orElse
    ((hexpr.between .parenOpen .parenClose).orElse
      ((blames_array hexpr).orElse (blames_object hexpr))))

theorem blames_chain : Blames source base (chain sub expr) :=
  (blames_atom hexpr hsub).bind fun _ => (blames_link hexpr).spanned.many.map _

theorem blames_unary : Blames source base (unary sub expr) := by
  have hop : Blames source base unaryOperator := blames_token _ _
  exact hop.spanned.many.bind fun _ => (blames_chain hexpr hsub).map _

omit hexpr hsub in
theorem blames_levelOperator (level : Nat) : Blames source base (levelOperator level) := by
  match level with
  | 0 | 1 | 2 | 3 | 5 => exact blames_token _ _
  | 4 => exact (blames_token _ _).map _
  | level + 6 => exact fun _ _ _ hr => ⟨hr, nofun⟩

theorem blames_operandRule (level : Nat) : Blames source base (operandRule sub expr level) := by
  induction level with
  | zero => exact blames_unary hexpr hsub
  | succ level ih => exact ih.bind fun _ => ((blames_levelOperator level).both ih).many.map _

theorem blames_conditional : Blames source base (conditional sub expr) := by
  have hbranches : Blames source base (branches expr) :=
    (((blames_token _ _).andThen hexpr).andSkip (blames_token _ _)).both hexpr
  exact ((blames_operandRule hexpr hsub 6).both hbranches.perhaps).map _

end

theorem blames_expression (hsub : ReaderPoints sub) (bound : Nat) :
    Blames source base (expression sub bound) := by
  induction bound with
  | zero => exact fun _ _ _ hr => ⟨hr, nofun⟩
  | succ bound ih => exact (blames_arrow ih).orElse (blames_conditional ih hsub)

end Rule

/-! ## Sources -/

open Rule

/-- A syntax error is at a token or behind all of them, or it is what an interpolation failed
with. -/
theorem points_failure {lexemes : List Lexeme} (hplaced : ∀ l ∈ lexemes, l.Placed source base)
    {r : Reach} (hr : r.Points source base) :
    (Parser.failure lexemes (base + Text.byteLength source) r).Points source base := by
  unfold Parser.failure
  split
  · next e heq => exact hr e heq
  split
  · next l hl =>
      obtain ⟨t, -, ht⟩ := (hplaced l (List.mem_of_getElem? hl)).text
      exact points_malformed ht
  · refine points_empty ?_
    cases hlast : lexemes.getLast? with
    | none => exact Nat.le_refl _
    | some l =>
        obtain ⟨t, -, ht⟩ := (hplaced l (List.mem_of_getLast? hlast)).text
        exact ht.inside.2

theorem points_parseTokens {sub : SourceReader} (hsub : ReaderPoints sub) {lexemes : List Lexeme}
    (hplaced : ∀ l ∈ lexemes, l.Placed source base) (hordered : lexemes.Pairwise Lexeme.Before)
    (h : parseTokens sub lexemes (base + Text.byteLength source) = .error e) :
    e.Points source base := by
  obtain ⟨hreach, -⟩ := (blames_expression hsub (lexemes.length + 1)).andSkip blames_finish
    ⟨lexemes, 0, base + Text.byteLength source⟩ Reach.start ⟨hplaced, hordered⟩ nofun
  unfold parseTokens at h
  dsimp only at h
  split at h
  · cases h
  · next r heq =>
      cases h
      rw [heq] at hreach
      exact points_failure hplaced hreach

theorem ExprError.Points.withoutExpected (h : e.Points source base) :
    (withoutExpected e).Points source base := by
  obtain ⟨cause, span⟩ := e
  cases cause with
  | runtime trouble => exact h
  | malformed m =>
      cases m with
      | unexpected found what => exact ⟨h.text, fun x hx => by cases hx⟩
      | _ => exact h

theorem readerPoints_parseNested (depth : Nat) : ReaderPoints (parseNested depth) := by
  induction depth with
  | zero =>
      intro t offset e h
      cases h
      exact points_empty (Nat.le_refl _)
  | succ depth ih =>
      have hsub : ReaderPoints (nestedReader depth) := by
        intro t offset e h
        unfold nestedReader at h
        cases hread : parseNested depth t offset with
        | ok node =>
            rw [hread] at h
            cases h
        | error e' =>
            rw [hread] at h
            cases h
            exact (ih t offset e' hread).withoutExpected
      intro t offset e h
      unfold parseNested at h
      have ht : Text.Holds t offset ⟨offset, offset + Text.byteLength t⟩ t :=
        ⟨[], [], by simp, rfl⟩
      cases hlex : lex t offset with
      | error e' =>
          rw [hlex] at h
          cases h
          exact points_lexFrom hlex ht
      | ok lexemes =>
          rw [hlex] at h
          obtain ⟨hplaced, hordered⟩ := placed_of_lex hlex
          exact points_parseTokens hsub hplaced hordered h

/-- **A source that cannot be read fails at what stands in it.** -/
theorem points_of_parseAt (h : parseAt source base = .error e) : e.Points source base :=
  readerPoints_parseNested (source.length + 1) source base e h

/-- **An expression fails at what stands in it**, after its markup has become templates. -/
theorem points_of_evaluateText {c : Context} {limits : Limits}
    (h : evaluateText (Globals.within c) limits source = .error e) :
    e.Points (embed source) 0 := by
  unfold evaluateText evaluate at h
  cases hparse : parse (embed source) with
  | error e' =>
      rw [hparse] at h
      cases h
      exact points_of_parseAt hparse
  | ok tree =>
      rw [hparse] at h
      cases hvalue : tree.evaluate (Globals.within c) limits with
      | error e' =>
          rw [Except.bind_ok, hvalue] at h
          cases h
          exact points_of_evaluate (faithful_of_parseAt hparse) hvalue
      | ok v =>
          rw [Except.bind_ok, hvalue] at h
          cases h

end Stencil.Expr
