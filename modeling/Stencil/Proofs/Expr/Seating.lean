import Stencil.Proofs.Expr.Faithful
import Stencil.Proofs.Expr.Lexemes
import Stencil.Proofs.Expr.Parsing

/-!
# Trees stand where they were read

A rule is seen here with the tokens that are left before and after it: `Relates` says how
what is read stands to them. The trees in it are `Seated`: they are faithful to the source,
they are between the start of the first token that has been read and the end of the last,
and they come in order. There is one lemma for each way to build a rule, and then one for
each rule of the grammar.

A token that has been read ends before the next one starts, so what is read first is behind
what is read afterwards (`Seated.append`). Before any token has been read, there is no last
one, which is why a rule that may read nothing has a case of its own (`SeatedIfRead`).
-/

namespace Stencil.Expr

open Stencil.Expr.Parser

/-- The trees in a link. -/
def Parser.Link.children : Parser.Link → List Tree
  | .member _ _ => []
  | .index key _ => [key]
  | .call args => args

/-- Where the next token starts, or where the last one ended if there is none. -/
def Remaining.next (s : Remaining) : Nat :=
  s.lexemes.head?.elim s.stop fun l => l.span.start

/-- The tokens that are left stand in a source where they say, in the order of the source. -/
structure Remaining.Placed (source : Text) (base : Nat) (s : Remaining) : Prop where
  placed : ∀ l ∈ s.lexemes, l.Placed source base
  ordered : s.lexemes.Pairwise Lexeme.Before

/-- Tokens have been read, and the trees in what has been read are a row where they were. -/
structure Seated (source : Text) (base : Nat) (s : Remaining) (es : List Tree)
    (s' : Remaining) : Prop where
  row : Row source base ⟨s.next, s'.stop⟩ es
  /-- What is left comes later. -/
  later : s'.stop ≤ s'.next

/-- If tokens have been read, the trees in it are seated; if not, there are none. -/
def SeatedIfRead (source : Text) (base : Nat) (s : Remaining) (es : List Tree)
    (s' : Remaining) : Prop :=
  s' = s ∧ es = [] ∨ Seated source base s es s'

variable {source : Text} {base : Nat} {s s' s'' : Remaining} {es fs : List Tree} {e : Tree}

namespace Seated

/-- Trees that are read one after another come in this order. -/
theorem append (h : Seated source base s es s') (h' : Seated source base s' fs s'') :
    Seated source base s (es ++ fs) s'' :=
  ⟨h.row.append h'.row h.later, h'.later⟩

/-- The trees as the children of a node around them. -/
theorem around (h : Seated source base s es s') (hrow : Row source base e.span es)
    (hstart : s.next ≤ e.span.start) (hstop : e.span.stop ≤ s'.stop) (hchildren : e.children = es)
    (hnamed : ∀ span t, e = .name span t → Text.Holds source base span t) :
    Seated source base s [e] s' :=
  ⟨h.row.single (hrow.node hchildren hnamed) hstart hstop, h.later⟩

/-- A node around all that has been read. -/
theorem spanned (h : Seated source base s es s') (hspan : e.span = ⟨s.next, s'.stop⟩)
    (hchildren : e.children = es)
    (hnamed : ∀ span t, e = .name span t → Text.Holds source base span t) :
    Seated source base s [e] s' := by
  refine h.around ?_ ?_ ?_ hchildren hnamed
  · rw [hspan]
    exact h.row
  · rw [hspan]
  · rw [hspan]

end Seated

namespace SeatedIfRead

theorem none (s : Remaining) : SeatedIfRead source base s [] s :=
  .inl ⟨rfl, rfl⟩

theorem append (h : SeatedIfRead source base s es s') (h' : SeatedIfRead source base s' fs s'') :
    SeatedIfRead source base s (es ++ fs) s'' := by
  rcases h with ⟨rfl, rfl⟩ | h
  · exact h'
  · rcases h' with ⟨rfl, rfl⟩ | h'
    · rw [List.append_nil]
      exact .inr h
    · exact .inr (h.append h')

end SeatedIfRead

theorem Seated.appendIfRead (h : Seated source base s es s')
    (h' : SeatedIfRead source base s' fs s'') : Seated source base s (es ++ fs) s'' := by
  rcases h' with ⟨rfl, rfl⟩ | h'
  · rwa [List.append_nil]
  · exact h.append h'

/-! ## Ways to build a rule -/

namespace Rule

variable {α β : Type}

/-- What the rule reads stands so to the tokens that were left before it and after it. -/
def Relates (source : Text) (base : Nat) (p : Rule α)
    (P : Remaining → α → Remaining → Prop) : Prop :=
  ∀ s r a s', s.Placed source base → (p s r).1 = some (a, s') → s'.Placed source base ∧ P s a s'

variable {p q : Rule α} {f : α → Rule β} {P : Remaining → α → Remaining → Prop}
  {Q : Remaining → β → Remaining → Prop}

theorem Relates.pure {a : α} (h : ∀ s, P s a s) : Relates source base (Rule.pure a) P := by
  intro s r a' s' hs hread
  cases hread
  exact ⟨hs, h s⟩

theorem Relates.mono {P' : Remaining → α → Remaining → Prop} (hp : Relates source base p P)
    (h : ∀ s a s', P s a s' → P' s a s') : Relates source base p P' := by
  intro s r a s' hs hread
  obtain ⟨hs', hP⟩ := hp s r a s' hs hread
  exact ⟨hs', h s a s' hP⟩

theorem Relates.bind {Q : α → Remaining → β → Remaining → Prop}
    {R : Remaining → β → Remaining → Prop} (hp : Relates source base p P)
    (hf : ∀ a, Relates source base (f a) (Q a))
    (h : ∀ s a s' b s'', P s a s' → Q a s' b s'' → R s b s'') :
    Relates source base (p.bind f) R := by
  intro s r b s'' hs hread
  obtain ⟨a, s', ha, hb⟩ := bind_eq_some.1 hread
  obtain ⟨hs', hP⟩ := hp s r a s' hs ha
  obtain ⟨hs'', hQ⟩ := hf a _ _ _ _ hs' hb
  exact ⟨hs'', h s a s' b s'' hP hQ⟩

theorem Relates.map {g : α → β} (hp : Relates source base p P)
    (h : ∀ s a s', P s a s' → Q s (g a) s') : Relates source base (p.map g) Q := by
  refine hp.bind (fun a => Relates.pure (P := fun s b s' => b = g a ∧ s' = s) ?_) ?_
  · exact fun s => ⟨rfl, rfl⟩
  · rintro s a s' b s'' hP ⟨rfl, rfl⟩
    exact h s a s'' hP

/-- One thing after another, and a function of both. -/
theorem Relates.bindMap {γ : Type} {q : Rule β} {g : α → β → γ}
    {R : Remaining → γ → Remaining → Prop} (hp : Relates source base p P)
    (hq : Relates source base q Q)
    (h : ∀ s a s' b s'', P s a s' → Q s' b s'' → R s (g a b) s'') :
    Relates source base (p.bind fun a => q.map (g a)) R := by
  refine hp.bind (fun a => hq.map (Q := fun s c s' => ∃ b, c = g a b ∧ Q s b s') ?_) ?_
  · exact fun s b s' hQ => ⟨b, rfl, hQ⟩
  · rintro s a s' c s'' hP ⟨b, rfl, hQ⟩
    exact h s a s' b s'' hP hQ

theorem Relates.both {q : Rule β} {R : Remaining → α × β → Remaining → Prop}
    (hp : Relates source base p P) (hq : Relates source base q Q)
    (h : ∀ s a s' b s'', P s a s' → Q s' b s'' → R s (a, b) s'') :
    Relates source base (p.both q) R :=
  hp.bindMap hq h

theorem Relates.andSkip {q : Rule β} {R : Remaining → α → Remaining → Prop}
    (hp : Relates source base p P) (hq : Relates source base q Q)
    (h : ∀ s a s' b s'', P s a s' → Q s' b s'' → R s a s'') :
    Relates source base (p.andSkip q) R :=
  hp.bindMap hq h

theorem Relates.andThen {q : Rule β} {R : Remaining → β → Remaining → Prop}
    (hp : Relates source base p P) (hq : Relates source base q Q)
    (h : ∀ s a s' b s'', P s a s' → Q s' b s'' → R s b s'') :
    Relates source base (p.andThen q) R :=
  hp.bind (fun _ => hq) h

theorem Relates.orElse (hp : Relates source base p P) (hq : Relates source base q P) :
    Relates source base (p.orElse q) P := by
  intro s r a s' hs hread
  rcases orElse_eq_some.1 hread with hread | ⟨-, hread⟩
  · exact hp _ _ _ _ hs hread
  · exact hq _ _ _ _ hs hread

theorem Relates.perhaps {R : Remaining → Option α → Remaining → Prop}
    (hp : Relates source base p P) (hsome : ∀ s a s', P s a s' → R s (some a) s')
    (hnone : ∀ s, R s none s) : Relates source base (Rule.perhaps p) R :=
  (hp.map hsome).orElse (.pure hnone)

theorem Relates.many {R : Remaining → List α → Remaining → Prop} (hp : Relates source base p P)
    (hnil : ∀ s, R s [] s)
    (hcons : ∀ s a s' as s'', P s a s' → R s' as s'' → R s (a :: as) s'') :
    Relates source base (Rule.many p) R := by
  have upTo : ∀ count, Relates source base (Rule.manyUpTo p count) R := by
    intro count
    induction count with
    | zero => exact .pure hnil
    | succ count ih =>
        intro s r as s'' hs hread
        unfold Rule.manyUpTo at hread
        split at hread
        · cases hread
          exact ⟨hs, hnil s⟩
        · next a s' r' heq =>
            obtain ⟨hs', hP⟩ := hp s r a s' hs (by rw [heq])
            rw [map_apply] at hread
            obtain ⟨⟨bs, t⟩, hlater, heq⟩ := Option.map_eq_some_iff.1 hread
            cases heq
            obtain ⟨hs'', hR⟩ := ih _ _ _ _ hs' hlater
            exact ⟨hs'', hcons s a s' bs t hP hR⟩
  exact fun s => upTo (s.lexemes.length + 1) s

/-- With the range from the first token that has been read through the last. -/
theorem Relates.spanned (hp : Relates source base p P) :
    Relates source base p.spanned fun s x s' => P s x.1 s' ∧ x.2 = ⟨s.next, s'.stop⟩ := by
  intro s r x s' hs hread
  obtain ⟨hp', hspan⟩ := spanned_eq_some.1 hread
  obtain ⟨hs', hP⟩ := hp s r x.1 s' hs hp'
  exact ⟨hs', hP, hspan⟩

theorem relates_token (what : List Expectation) (f : Token → Option α) :
    Relates source base (token what f) fun s a s' => Seated source base s [] s' ∧
      ∃ t, f t = some a ∧ t.Spells source base ⟨s.next, s'.stop⟩ := by
  intro s r a s' hs hread
  obtain ⟨lexemes, position, stop⟩ := s
  cases lexemes with
  | nil => cases hread
  | cons l lexemes =>
      unfold token at hread
      dsimp only at hread
      split at hread
      · next hf =>
          cases hread
          obtain ⟨hl, hplaced⟩ := List.forall_mem_cons.1 hs.placed
          obtain ⟨hbefore, hordered⟩ := List.pairwise_cons.1 hs.ordered
          refine ⟨⟨hplaced, hordered⟩, ⟨⟨hl.text, by simp, by simp, .nil⟩, ?_⟩, l.token, hf,
            hl.spells⟩
          cases lexemes with
          | nil => exact Nat.le_refl _
          | cons m lexemes => exact hbefore m List.mem_cons_self
      · cases hread

theorem relates_mark (m : Mark) :
    Relates source base (mark m) fun s _ s' => Seated source base s [] s' :=
  (relates_token _ _).mono fun _ _ _ h => h.1

theorem Relates.between {trees : α → List Tree} {opening closing : Mark}
    (hp : Relates source base p fun s a s' => SeatedIfRead source base s (trees a) s') :
    Relates source base (Rule.between opening closing p) fun s a s' =>
      Seated source base s (trees a) s' := by
  refine Relates.andSkip ((relates_mark opening).andThen hp
    (R := fun s a s' => Seated source base s (trees a) s') ?_) (relates_mark closing) ?_
  · exact fun s _ s' a s'' hopening ha => hopening.appendIfRead ha
  · intro s a s' _ s'' ha hclosing
    rw [← List.append_nil (trees a)]
    exact ha.append hclosing

theorem Relates.commaSeparated {trees : α → List Tree}
    (hp : Relates source base p fun s a s' => Seated source base s (trees a) s') :
    Relates source base (Rule.commaSeparated p) fun s as s' =>
      SeatedIfRead source base s (as.flatMap trees) s' := by
  have hnext : Relates source base ((mark .comma).andThen p) fun s a s' =>
      Seated source base s (trees a) s' :=
    (relates_mark .comma).andThen hp fun s _ s' a s'' hcomma ha => hcomma.append ha
  have hmany : Relates source base (Rule.many ((mark .comma).andThen p)) fun s as s' =>
      SeatedIfRead source base s (as.flatMap trees) s' :=
    hnext.many (fun s => .none s) fun s a s' as s'' ha has => (SeatedIfRead.append (.inr ha) has)
  have hcomma : Relates source base (Rule.perhaps (mark .comma)) fun s _ s' =>
      SeatedIfRead source base s [] s' :=
    (relates_mark .comma).perhaps (fun _ _ _ h => .inr h) fun s => .none s
  refine .orElse (hp.bind (Q := fun first s as s' => ∃ others, as = first :: others ∧
    SeatedIfRead source base s (others.flatMap trees) s') (fun first => ?_) ?_)
    (.pure fun s => .none s)
  · refine hmany.bindMap hcomma ?_
    intro s others s' _ s'' hothers hcomma
    refine ⟨others, rfl, ?_⟩
    rw [← List.append_nil (others.flatMap trees)]
    exact hothers.append hcomma
  · rintro s first s' as s'' hfirst ⟨others, rfl, hothers⟩
    exact .inr (hfirst.appendIfRead hothers)

/-! ## Atoms -/

/-- The reader of sources reads trees that are faithful to them. -/
def ReaderFaithful (sub : SourceReader) : Prop :=
  ∀ t offset e, sub t offset = .ok e → e.Faithful t offset

variable {sub : SourceReader} {expr : Rule Tree}

theorem relates_name : Relates source base name fun s t s' =>
    Seated source base s [] s' ∧ Text.Holds source base ⟨s.next, s'.stop⟩ t := by
  refine (relates_token _ _).mono ?_
  rintro s a s' ⟨hseated, t, ht, hspells⟩
  cases t with
  | name t =>
      cases ht
      exact ⟨hseated, hspells⟩
  | _ => cases ht

/-- A name as a value stands where the name does. -/
theorem seated_name {t : Text} (h : Seated source base s [] s')
    (ht : Text.Holds source base ⟨s.next, s'.stop⟩ t) :
    Seated source base s [.name ⟨s.next, s'.stop⟩ t] s' := by
  refine h.spanned rfl rfl ?_
  rintro span u heq
  cases heq
  exact ht

theorem relates_literal :
    Relates source base literal fun s e s' => Seated source base s [e] s' := by
  refine (relates_token _ _).spanned.map ?_
  rintro s ⟨node, span⟩ s' ⟨⟨hseated, t, ht, hspells⟩, hspan⟩
  dsimp only at hspan ht ⊢
  subst hspan
  cases t with
  | name t =>
      cases ht
      exact seated_name hseated hspells
  | keyword k =>
      cases k <;> cases ht
      all_goals exact hseated.spanned rfl rfl nofun
  | number | string =>
      cases ht
      exact hseated.spanned rfl rfl nofun
  | _ => cases ht

/-- The interpolations of a template are read where they stand. -/
theorem faithful_templateParts (hsub : ReaderFaithful sub) {chunks : List Chunk}
    {parts : List Part} (h : templateParts sub chunks = .ok parts) {start stop : Nat}
    (hchunks : ChunksIn source base stop start chunks) :
    (∀ e ∈ parts.filterMap Part.code?,
      e.Faithful source base ∧ start ≤ e.span.start ∧ e.span.stop ≤ stop) ∧
      (parts.filterMap Part.code?).Pairwise Tree.Before := by
  induction chunks generalizing parts start with
  | nil =>
      cases h
      simp
  | cons chunk chunks ih =>
      cases chunk with
      | text t =>
          obtain ⟨rest, hrest, h⟩ := Except.bind_eq_ok_iff.1 h
          cases h
          exact ih hrest hchunks
      | code t offset =>
          obtain ⟨e, he, h⟩ := Except.bind_eq_ok_iff.1 h
          obtain ⟨rest, hrest, h⟩ := Except.bind_eq_ok_iff.1 h
          cases h
          obtain ⟨hfirst, hlast, ht, hlater⟩ := hchunks
          obtain ⟨hplaced, hordered⟩ := ih hrest hlater
          have hfaithful := hsub t offset e he
          obtain ⟨u, -, hu⟩ := hfaithful.placed.text
          have hinside := hu.inside
          refine ⟨List.forall_mem_cons.2 ⟨⟨hfaithful.within ht, ?_, ?_⟩, fun e' he' => ?_⟩,
            List.pairwise_cons.2 ⟨fun e' he' => ?_, hordered⟩⟩
          · omega
          · omega
          · obtain ⟨hfaithful', hstart, hstop⟩ := hplaced e' he'
            exact ⟨hfaithful', by omega, hstop⟩
          · have := (hplaced e' he').2.1
            simp only [Tree.Before]
            omega

theorem relates_template (hsub : ReaderFaithful sub) :
    Relates source base (template sub) fun s e s' => Seated source base s [e] s' := by
  intro s r e s' hs hread
  unfold template at hread
  split at hread
  · cases hread
  · next chunks span after r' heq =>
      split at hread
      · next parts hparts =>
          cases hread
          obtain ⟨hs', ⟨hseated, t, ht, hspells⟩, hspan⟩ :=
            (relates_token _ _).spanned s r _ _ hs (congrArg Prod.fst heq)
          refine ⟨hs', ?_⟩
          dsimp only at hspan ht
          subst hspan
          cases t with
          | template chunks' =>
              cases ht
              obtain ⟨hplaced, hordered⟩ := faithful_templateParts hsub hparts hspells
              have hrow : Row source base ⟨s.next, s'.stop⟩ (parts.filterMap Part.code?) :=
                ⟨hseated.row.text, fun e he => (hplaced e he).1, fun e he => (hplaced e he).2,
                  hordered⟩
              exact Seated.spanned ⟨hrow, hseated.later⟩ rfl rfl nofun
          | _ => cases ht
      · cases hread

section

variable (hexpr : Relates source base expr fun s e s' => Seated source base s [e] s')
include hexpr

theorem relates_items :
    Relates source base (items expr) fun s es s' => SeatedIfRead source base s es s' :=
  hexpr.commaSeparated.mono fun s es s' h => by simpa using h

theorem relates_array :
    Relates source base (array expr) fun s e s' => Seated source base s [e] s' := by
  refine (relates_items hexpr).between.spanned.map ?_
  rintro s ⟨es, span⟩ s' ⟨hseated, hspan⟩
  exact hseated.spanned hspan rfl nofun

theorem relates_property :
    Relates source base (property expr) fun s p s' => Seated source base s [p.2] s' := by
  have hkey : Relates source base key fun s _ s' => Seated source base s [] s' :=
    (relates_token _ _).mono fun _ _ _ h => h.1
  refine .orElse ?_ (relates_name.spanned.map ?_)
  · refine (hkey.andSkip (relates_mark .colon) (R := fun s _ s' => Seated source base s [] s')
      ?_).both hexpr ?_
    · exact fun s _ s' _ s'' hkey hcolon => hkey.append hcolon
    · exact fun s _ s' e s'' hkey he => hkey.append he
  · rintro s ⟨t, span⟩ s' ⟨⟨hseated, ht⟩, hspan⟩
    dsimp only at hspan ht ⊢
    subst hspan
    exact seated_name hseated ht

theorem relates_object :
    Relates source base (object expr) fun s e s' => Seated source base s [e] s' := by
  refine (relates_property hexpr).commaSeparated.between.spanned.map ?_
  rintro s ⟨ps, span⟩ s' ⟨hseated, hspan⟩
  exact hseated.spanned hspan List.map_eq_flatMap nofun

theorem relates_enclosed (opening closing : Mark) :
    Relates source base (between opening closing expr) fun s e s' =>
      Seated source base s [e] s' := by
  have hinner : Relates source base expr fun s e s' => SeatedIfRead source base s [e] s' :=
    hexpr.mono fun _ _ _ h => .inr h
  exact hinner.between

/-! ## Links -/

theorem relates_link :
    Relates source base (link expr) fun s l s' => Seated source base s l.children s' := by
  have hmember : ∀ m : Mark, Relates source base ((mark m).andThen name) fun s _ s' =>
      Seated source base s [] s' := fun m =>
    (relates_mark m).andThen relates_name fun s _ s' _ s'' hmark hname => hmark.append hname.1
  have hbracketed := relates_enclosed hexpr .bracketOpen .bracketClose
  refine .orElse ?_ (.orElse ?_ (.orElse ?_ (.orElse ?_ ?_)))
  · exact (hmember .dot).map fun _ _ _ h => h
  · exact (hmember .optionalDot).map fun _ _ _ h => h
  · refine ((relates_mark .optionalDot).andThen hbracketed
      (R := fun s e s' => Seated source base s [e] s') ?_).map fun _ _ _ h => h
    exact fun s _ s' e s'' hmark he => hmark.append he
  · exact hbracketed.map fun _ _ _ h => h
  · exact (relates_items hexpr).between.map fun _ _ _ h => h

omit hexpr in
/-- A link goes around what it is attached to. -/
theorem seated_attach {object : Tree} {l : Link} (hobject : Seated source base s [object] s')
    (hl : Seated source base s' l.children s'') :
    Seated source base s [attach object (l, ⟨s'.next, s''.stop⟩)] s'' := by
  have hboth := hobject.append hl
  have hspan : (attach object (l, ⟨s'.next, s''.stop⟩)).span = ⟨object.span.start, s''.stop⟩ := by
    cases l <;> rfl
  have hstart := (hobject.row.inside object List.mem_cons_self).1
  refine hboth.around ?_ ?_ ?_ ?_ ?_
  · rw [hspan]
    exact hboth.row.fromHead
  · rw [hspan]
    exact hstart
  · rw [hspan]
  · cases l <;> rfl
  · cases l <;> nofun

variable (hsub : ReaderFaithful sub)
include hsub

theorem relates_atom :
    Relates source base (atom sub expr) fun s e s' => Seated source base s [e] s' :=
  relates_literal.orElse ((relates_template hsub).orElse
    ((relates_enclosed hexpr .parenOpen .parenClose).orElse
      ((relates_array hexpr).orElse (relates_object hexpr))))

theorem relates_chain :
    Relates source base (chain sub expr) fun s e s' => Seated source base s [e] s' := by
  -- links go around whatever stands before them
  have hlinks : Relates source base (many (link expr).spanned) fun s ls s' => ∀ s₀ first,
      Seated source base s₀ [first] s → Seated source base s₀ [ls.foldl attach first] s' := by
    refine (relates_link hexpr).spanned.many (fun s s₀ first h => h) ?_
    rintro s ⟨l, span⟩ s' ls s'' ⟨hl, hspan⟩ ih s₀ first hfirst
    dsimp only at hspan hl
    subst hspan
    exact ih s₀ _ (seated_attach hfirst hl)
  exact (relates_atom hexpr hsub).bindMap hlinks fun s first s' ls s'' hfirst hls =>
    hls s first hfirst

theorem relates_unary :
    Relates source base (unary sub expr) fun s e s' => Seated source base s [e] s' := by
  have hop : Relates source base unaryOperator fun s _ s' => Seated source base s [] s' :=
    (relates_token _ _).mono fun _ _ _ h => h.1
  -- operators go around whatever stands behind them
  have hops : Relates source base (many unaryOperator.spanned) fun s ops s' => ∀ e s'',
      Seated source base s' [e] s'' → Seated source base s [ops.foldr applyUnary e] s'' := by
    refine hop.spanned.many (fun s e s'' h => h) ?_
    rintro s ⟨op, span⟩ s' ops t ⟨hop, hspan⟩ ih e s'' he
    dsimp only at hspan
    subst hspan
    have hoperand := ih e s'' he
    have hboth := hop.append hoperand
    exact hboth.around (hboth.row.toLast []) (Nat.le_refl _)
      (hoperand.row.inside _ List.mem_cons_self).2 rfl nofun
  exact hops.bindMap (relates_chain hexpr hsub) fun s ops s' e s'' hops he => hops e s'' he

omit hsub in
omit hexpr in
theorem relates_levelOperator (level : Nat) :
    Relates source base (levelOperator level) fun s _ s' => Seated source base s [] s' := by
  match level with
  | 0 | 1 | 2 | 3 | 5 => exact (relates_token _ _).mono fun _ _ _ h => h.1
  | 4 => exact (relates_token _ _).map fun _ _ _ h => h.1
  | level + 6 =>
      intro s r op s' _ hread
      cases hread

omit hsub in
omit hexpr in
/-- An operator goes around its two operands. -/
theorem seated_applyBinary {lhs rhs : Tree} {op : BinaryOp}
    (hlhs : Seated source base s [lhs] s') (hrhs : Seated source base s' [rhs] s'') :
    Seated source base s [applyBinary lhs (op, rhs)] s'' := by
  have hboth := hlhs.append hrhs
  exact hboth.around (hboth.row.fromHead.toLast [lhs])
    (hlhs.row.inside lhs List.mem_cons_self).1 (hrhs.row.inside rhs List.mem_cons_self).2 rfl nofun

theorem relates_operandRule (level : Nat) : Relates source base (operandRule sub expr level)
    fun s e s' => Seated source base s [e] s' := by
  induction level with
  | zero => exact relates_unary hexpr hsub
  | succ level ih =>
      have hjoin : Relates source base ((levelOperator level).both (operandRule sub expr level))
          fun s x s' => Seated source base s [x.2] s' :=
        (relates_levelOperator level).both ih fun s _ s' e s'' hop he => hop.append he
      have hothers : Relates source base
          (many ((levelOperator level).both (operandRule sub expr level))) fun s xs s' =>
            ∀ s₀ first, Seated source base s₀ [first] s →
              Seated source base s₀ [xs.foldl applyBinary first] s' := by
        refine hjoin.many (fun s s₀ first h => h) ?_
        rintro s ⟨op, rhs⟩ s' xs s'' hrhs ih s₀ first hfirst
        exact ih s₀ _ (seated_applyBinary hfirst hrhs)
      exact ih.bindMap hothers fun s first s' xs s'' hfirst hxs => hxs s first hfirst

omit hsub in
theorem relates_branches : Relates source base (branches expr) fun s x s' =>
    Seated source base s [x.1, x.2] s' := by
  refine (((relates_mark .question).andThen hexpr
    (R := fun s e s' => Seated source base s [e] s') ?_).andSkip (relates_mark .colon)
    (R := fun s e s' => Seated source base s [e] s') ?_).both hexpr ?_
  · exact fun s _ s' e s'' hmark he => hmark.append he
  · exact fun s e s' _ s'' he hmark => he.append hmark
  · exact fun s a s' b s'' ha hb => ha.append hb

theorem relates_conditional :
    Relates source base (conditional sub expr) fun s e s' => Seated source base s [e] s' := by
  have hbranches : Relates source base (perhaps (branches expr)) fun s o s' =>
      SeatedIfRead source base s (o.elim [] fun x => [x.1, x.2]) s' :=
    (relates_branches hexpr).perhaps (fun _ _ _ h => .inr h) fun s => .none s
  refine ((relates_operandRule hexpr hsub 6).both hbranches (R := fun s x s' =>
    Seated source base s (x.1 :: x.2.elim [] fun y => [y.1, y.2]) s') ?_).map ?_
  · exact fun s e s' o s'' he ho => he.appendIfRead ho
  · rintro s ⟨test, branches⟩ s' h
    cases branches with
    | none => exact h
    | some y =>
        obtain ⟨consequent, alternate⟩ := y
        have hends : alternate ∈ [test, consequent, alternate] := by simp
        exact h.around (h.row.fromHead.toLast [test, consequent])
          (h.row.inside test List.mem_cons_self).1 (h.row.inside alternate hends).2 rfl nofun

omit hsub hexpr in
theorem relates_params :
    Relates source base params fun s _ s' => Seated source base s [] s' := by
  have hname : Relates source base name fun s _ s' => Seated source base s [] s' :=
    relates_name.mono fun _ _ _ h => h.1
  refine .orElse (hname.map fun _ _ _ h => h) ?_
  have hlist : Relates source base (commaSeparated name) fun s names s' =>
      SeatedIfRead source base s (names.flatMap fun _ => []) s' :=
    Relates.commaSeparated hname
  refine hlist.between.mono fun s names s' h => ?_
  rwa [List.flatMap_eq_nil_iff.2 fun _ _ => rfl] at h

omit hsub in
theorem relates_arrow :
    Relates source base (arrow expr) fun s e s' => Seated source base s [e] s' := by
  refine ((relates_params.andSkip (relates_mark .arrow)
    (R := fun s _ s' => Seated source base s [] s') ?_).both hexpr
    (R := fun s x s' => Seated source base s [x.2] s') ?_).spanned.map ?_
  · exact fun s _ s' _ s'' hparams harrow => hparams.append harrow
  · exact fun s _ s' e s'' hparams he => hparams.append he
  · rintro s ⟨⟨names, body⟩, span⟩ s' ⟨hseated, hspan⟩
    exact hseated.spanned hspan rfl nofun

end

/-- **What is read stands where it was read.** -/
theorem relates_expression (hsub : ReaderFaithful sub) (bound : Nat) :
    Relates source base (expression sub bound) fun s e s' => Seated source base s [e] s' := by
  induction bound with
  | zero =>
      intro s r e s' _ hread
      cases hread
  | succ bound ih => exact (relates_arrow ih).orElse (relates_conditional ih hsub)

end Rule

/-! ## Sources -/

open Rule

theorem faithful_of_parseTokens {sub : SourceReader} (hsub : ReaderFaithful sub)
    {lexemes : List Lexeme} (hplaced : ∀ l ∈ lexemes, l.Placed source base)
    (hordered : lexemes.Pairwise Lexeme.Before) {stop : Nat} {e : Tree}
    (h : parseTokens sub lexemes stop = .ok e) : e.Faithful source base := by
  obtain ⟨s, hread⟩ := parseTokens_eq_ok_iff.1 h
  obtain ⟨e', s', he', hfinish⟩ := bind_eq_some.1 hread
  obtain ⟨a, s'', -, hpure⟩ := bind_eq_some.1 hfinish
  cases hpure
  obtain ⟨-, hseated⟩ := relates_expression hsub _ _ _ _ _ ⟨hplaced, hordered⟩ he'
  exact hseated.row.faithful e List.mem_cons_self

theorem readerFaithful_nested (depth : Nat) : ReaderFaithful (nestedReader depth) := by
  induction depth with
  | zero =>
      intro t offset e h
      cases mapError_eq_ok_iff.1 h
  | succ depth ih =>
      intro t offset e h
      obtain ⟨lexemes, hlex, hparse⟩ := parseNested_eq_ok_iff.1 (mapError_eq_ok_iff.1 h)
      obtain ⟨hplaced, hordered⟩ := placed_of_lex hlex
      exact faithful_of_parseTokens ih hplaced hordered hparse

/-- **A source is read as a tree that is faithful to it.** -/
theorem faithful_of_parseAt (h : parseAt source base = .ok e) : e.Faithful source base :=
  readerFaithful_nested (source.length + 1) source base e (mapError_eq_ok_iff.2 h)

end Stencil.Expr
