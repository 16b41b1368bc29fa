import Stencil.Expr.Rule

/-!
# Rules and languages

A rule is seen here as what it reads off the tokens that are left; where they stand
and how far the reach is makes no difference to that. `Recognizes` is soundness for a
language: what a rule reads is in it. `Accepts` is completeness at one place: the rule
reads these tokens where those follow. For a choice that comes second, and for the end
of a repetition, one also needs that a rule reads nothing (`Rejects`), which follows
from soundness.

There is one lemma of each kind for each way to build a rule.
-/

namespace Stencil.Expr

/-- The tokens that are left, without their ranges. -/
def Remaining.tokens (s : Remaining) : List Token :=
  s.lexemes.map Lexeme.token

theorem Remaining.length_tokens (s : Remaining) : s.tokens.length = s.lexemes.length :=
  List.length_map _

namespace Rule

variable {α β : Type}

/-- What the rule reads is in the language. -/
def Recognizes (p : Rule α) (L : List Token → α → Prop) : Prop :=
  ∀ s r a s', (p s r).1 = some (a, s') → ∃ ts, s.tokens = ts ++ s'.tokens ∧ L ts a

/-- The rule reads the tokens `ts` where `rest` follows, and what it gives has the property. -/
def Accepts (p : Rule α) (ts rest : List Token) (P : α → Prop) : Prop :=
  ∀ s r, s.tokens = ts ++ rest → ∃ a s', (p s r).1 = some (a, s') ∧ s'.tokens = rest ∧ P a

/-- The rule reads nothing off the tokens. -/
def Rejects (p : Rule α) (ts : List Token) : Prop :=
  ∀ s r, s.tokens = ts → (p s r).1 = none

/-- The rule reads at least one token. -/
def Shortens (p : Rule α) : Prop :=
  ∀ s r a s', (p s r).1 = some (a, s') → s'.lexemes.length < s.lexemes.length

variable {p q : Rule α} {f : α → Rule β} {L : List Token → α → Prop} {M : List Token → β → Prop}
  {P : α → Prop} {Q : β → Prop} {ts us rest : List Token}

/-! ## One step after another -/

theorem bind_eq_some {s s'' : Remaining} {r : Reach} {b : β} :
    ((p.bind f) s r).1 = some (b, s'') ↔
      ∃ a s', (p s r).1 = some (a, s') ∧ (f a s' (p s r).2).1 = some (b, s'') := by
  unfold Rule.bind
  split
  · next a s' r' heq =>
      rw [heq]
      constructor
      · intro h
        exact ⟨a, s', rfl, h⟩
      · rintro ⟨_, _, hfirst, h⟩
        obtain ⟨rfl, rfl⟩ := Prod.mk.inj (Option.some.inj hfirst)
        exact h
  · next heq => simp [heq]

theorem map_apply (g : α → β) (s : Remaining) (r : Reach) :
    (p.map g) s r = ((p s r).1.map (Prod.map g id), (p s r).2) := by
  unfold Rule.map Rule.bind
  split
  · next heq => simp [heq, Rule.pure]
  · next heq => simp [heq]

theorem Recognizes.pure {a : α} (h : L [] a) : Recognizes (Rule.pure a) L := by
  intro s r a' s' hs
  obtain ⟨rfl, rfl⟩ := Prod.mk.inj (Option.some.inj hs)
  exact ⟨[], rfl, h⟩

theorem Recognizes.mono {L' : List Token → α → Prop} (hp : Recognizes p L)
    (h : ∀ ts a, L ts a → L' ts a) : Recognizes p L' := by
  intro s r a s' hs
  obtain ⟨ts, htokens, hL⟩ := hp s r a s' hs
  exact ⟨ts, htokens, h ts a hL⟩

theorem Recognizes.bind (hp : Recognizes p L)
    (hf : ∀ ts a, L ts a → Recognizes (f a) fun us b => M (ts ++ us) b) :
    Recognizes (p.bind f) M := by
  intro s r b s'' h
  obtain ⟨a, s', ha, hb⟩ := bind_eq_some.1 h
  obtain ⟨ts, hts, hL⟩ := hp s r a s' ha
  obtain ⟨us, hus, hM⟩ := hf ts a hL _ _ _ _ hb
  exact ⟨ts ++ us, by rw [hts, hus, List.append_assoc], hM⟩

theorem Recognizes.map {g : α → β} (hp : Recognizes p L) (h : ∀ ts a, L ts a → M ts (g a)) :
    Recognizes (p.map g) M :=
  hp.bind fun ts a hL => .pure (by rw [List.append_nil]; exact h ts a hL)

theorem Recognizes.andThen {q : Rule β} {N : List Token → β → Prop} (hp : Recognizes p L)
    (hq : Recognizes q M) (h : ∀ ts us a b, L ts a → M us b → N (ts ++ us) b) :
    Recognizes (p.andThen q) N :=
  hp.bind fun ts a hL => hq.mono fun us b hM => h ts us a b hL hM

theorem Recognizes.andSkip {q : Rule β} {N : List Token → α → Prop} (hp : Recognizes p L)
    (hq : Recognizes q M) (h : ∀ ts us a b, L ts a → M us b → N (ts ++ us) a) :
    Recognizes (p.andSkip q) N := by
  refine hp.bind fun ts a hL => hq.bind fun us b hM => .pure ?_
  rw [List.append_nil]
  exact h ts us a b hL hM

theorem Recognizes.both {q : Rule β} {N : List Token → α × β → Prop} (hp : Recognizes p L)
    (hq : Recognizes q M) (h : ∀ ts us a b, L ts a → M us b → N (ts ++ us) (a, b)) :
    Recognizes (p.both q) N :=
  hp.bind fun ts a hL => hq.map fun us b hM => h ts us a b hL hM

theorem Accepts.pure {a : α} (h : P a) : Accepts (Rule.pure a) [] rest P :=
  fun s _ hs => ⟨a, s, rfl, hs, h⟩

theorem Accepts.mono {P' : α → Prop} (hp : Accepts p ts rest P) (h : ∀ a, P a → P' a) :
    Accepts p ts rest P' := by
  intro s r hs
  obtain ⟨a, s', ha, hrest, hP⟩ := hp s r hs
  exact ⟨a, s', ha, hrest, h a hP⟩

theorem Accepts.bind (hp : Accepts p ts (us ++ rest) P)
    (hf : ∀ a, P a → Accepts (f a) us rest Q) : Accepts (p.bind f) (ts ++ us) rest Q := by
  intro s r hs
  obtain ⟨a, s', ha, hrest, hP⟩ := hp s r (hs.trans (List.append_assoc ts us rest))
  obtain ⟨b, s'', hb, hrest', hQ⟩ := hf a hP s' (p s r).2 hrest
  exact ⟨b, s'', bind_eq_some.2 ⟨a, s', ha, hb⟩, hrest', hQ⟩

theorem Accepts.map {g : α → β} (hp : Accepts p ts rest P) (h : ∀ a, P a → Q (g a)) :
    Accepts (p.map g) ts rest Q := by
  have hbind : Accepts (p.map g) (ts ++ []) rest Q :=
    Accepts.bind hp fun a hP => Accepts.pure (h a hP)
  rwa [List.append_nil] at hbind

theorem Accepts.andThen {q : Rule β} (hp : Accepts p ts (us ++ rest) P)
    (hq : Accepts q us rest Q) : Accepts (p.andThen q) (ts ++ us) rest Q :=
  hp.bind fun _ _ => hq

theorem Accepts.andSkip {q : Rule β} (hp : Accepts p ts (us ++ rest) P)
    (hq : Accepts q us rest Q) : Accepts (p.andSkip q) (ts ++ us) rest P :=
  hp.bind fun _ hP => hq.map fun _ _ => hP

theorem Accepts.both {q : Rule β} {R : α × β → Prop} (hp : Accepts p ts (us ++ rest) P)
    (hq : Accepts q us rest Q) (h : ∀ a b, P a → Q b → R (a, b)) :
    Accepts (p.both q) (ts ++ us) rest R :=
  hp.bind fun a hP => hq.map fun b hQ => h a b hP hQ

/-- What a sound rule could read is not there. -/
theorem Recognizes.rejects (hp : Recognizes p L) (h : ∀ us vs a, ts = us ++ vs → ¬ L us a) :
    Rejects p ts := by
  intro s r hs
  cases hread : (p s r).1 with
  | none => rfl
  | some x =>
      obtain ⟨us, hus, hL⟩ := hp s r x.1 x.2 hread
      exact absurd hL (h us _ x.1 (hs.symm.trans hus))

theorem Rejects.bind (hp : Rejects p ts) : Rejects (p.bind f) ts := by
  intro s r hs
  have hnone := hp s r hs
  unfold Rule.bind
  split
  · next heq => simp [heq] at hnone
  · rfl

theorem Recognizes.shortens (hp : Recognizes p L) (h : ∀ ts a, L ts a → ts ≠ []) : Shortens p := by
  intro s r a s' hread
  obtain ⟨ts, hts, hL⟩ := hp s r a s' hread
  rw [← s.length_tokens, ← s'.length_tokens, hts, List.length_append]
  have := List.length_pos_iff.2 (h ts a hL)
  omega

/-! ## Choice -/

theorem orElse_eq_some {s s' : Remaining} {r : Reach} {a : α} :
    ((p.orElse q) s r).1 = some (a, s') ↔
      (p s r).1 = some (a, s') ∨ (p s r).1 = none ∧ (q s (p s r).2).1 = some (a, s') := by
  unfold Rule.orElse
  split
  · next heq => simp [heq]
  · next heq => simp [heq]

theorem Recognizes.orElse (hp : Recognizes p L) (hq : Recognizes q L) :
    Recognizes (p.orElse q) L := by
  intro s r a s' h
  rcases orElse_eq_some.1 h with h | ⟨-, h⟩
  · exact hp _ _ _ _ h
  · exact hq _ _ _ _ h

theorem Accepts.orElse (hp : Accepts p ts rest P) : Accepts (p.orElse q) ts rest P := by
  intro s r hs
  obtain ⟨a, s', ha, hrest, hP⟩ := hp s r hs
  exact ⟨a, s', orElse_eq_some.2 (.inl ha), hrest, hP⟩

theorem Accepts.orElse_of_rejects (hp : Rejects p (ts ++ rest)) (hq : Accepts q ts rest P) :
    Accepts (p.orElse q) ts rest P := by
  intro s r hs
  obtain ⟨a, s', ha, hrest, hP⟩ := hq s (p s r).2 hs
  exact ⟨a, s', orElse_eq_some.2 (.inr ⟨hp s r hs, ha⟩), hrest, hP⟩

theorem Recognizes.perhaps {N : List Token → Option α → Prop} (hp : Recognizes p L)
    (hsome : ∀ ts a, L ts a → N ts (some a)) (hnone : N [] none) :
    Recognizes (Rule.perhaps p) N :=
  (hp.map hsome).orElse (.pure hnone)

theorem Accepts.perhaps_some {R : Option α → Prop} (hp : Accepts p ts rest P)
    (h : ∀ a, P a → R (some a)) : Accepts (Rule.perhaps p) ts rest R :=
  (hp.map h).orElse

theorem Accepts.perhaps_none {R : Option α → Prop} (hp : Rejects p rest) (h : R none) :
    Accepts (Rule.perhaps p) [] rest R :=
  Accepts.orElse_of_rejects hp.bind (Accepts.pure h)

/-! ## Repetition -/

theorem Recognizes.manyUpTo {N : List Token → List α → Prop} (hp : Recognizes p L) (hnil : N [] [])
    (hcons : ∀ ts us a as, L ts a → N us as → N (ts ++ us) (a :: as)) (count : Nat) :
    Recognizes (Rule.manyUpTo p count) N := by
  induction count with
  | zero => exact .pure hnil
  | succ count ih =>
      intro s r as s'' h
      unfold Rule.manyUpTo at h
      split at h
      · obtain ⟨rfl, rfl⟩ := Prod.mk.inj (Option.some.inj h)
        exact ⟨[], rfl, hnil⟩
      · next a s' r' heq =>
          obtain ⟨ts, hts, hL⟩ := hp s r a s' (by rw [heq])
          have hlater : Recognizes ((Rule.manyUpTo p count).map (a :: ·))
              fun us as => N (ts ++ us) as :=
            ih.map fun us as hN => hcons ts us a as hL hN
          obtain ⟨us, hus, hN⟩ := hlater _ _ _ _ h
          exact ⟨ts ++ us, by rw [hts, hus, List.append_assoc], hN⟩

theorem Recognizes.many {N : List Token → List α → Prop} (hp : Recognizes p L) (hnil : N [] [])
    (hcons : ∀ ts us a as, L ts a → N us as → N (ts ++ us) (a :: as)) :
    Recognizes (Rule.many p) N :=
  fun s => hp.manyUpTo hnil hcons (s.lexemes.length + 1) s

/-- A bound on the repetitions that is never reached makes no difference. -/
theorem manyUpTo_of_lt (hp : Shortens p) {m n : Nat} {s : Remaining} (hm : s.lexemes.length < m)
    (hn : s.lexemes.length < n) (r : Reach) : manyUpTo p m s r = manyUpTo p n s r := by
  induction m generalizing n s r with
  | zero => omega
  | succ m ih =>
      obtain ⟨n, rfl⟩ := Nat.exists_eq_add_of_lt (Nat.zero_lt_of_lt hn)
      rw [Nat.zero_add]
      unfold manyUpTo
      split
      · rfl
      · next a s' r' heq =>
          have hshort := hp s r a s' (by rw [heq])
          have hsame := ih (n := n) (s := s') (by omega) (by omega) r'
          unfold Rule.map Rule.bind
          rw [hsame]

theorem many_of_some (hp : Shortens p) {s s' : Remaining} {r : Reach} {a : α}
    (h : (p s r).1 = some (a, s')) : many p s r = (many p).map (a :: ·) s' (p s r).2 := by
  have hshort := hp s r a s' h
  have hsame : ∀ r, manyUpTo p s.lexemes.length s' r = manyUpTo p (s'.lexemes.length + 1) s' r :=
    manyUpTo_of_lt hp hshort (Nat.lt_succ_self _)
  change manyUpTo p (s.lexemes.length + 1) s r = (manyUpTo p (s'.lexemes.length + 1)).map _ s' _
  rw [manyUpTo]
  dsimp only
  split
  · next heq => simp [heq] at h
  · next heq =>
      rw [heq] at h ⊢
      obtain ⟨rfl, rfl⟩ := Prod.mk.inj (Option.some.inj h)
      unfold Rule.map Rule.bind
      rw [hsame]

theorem Accepts.many_nil {R : List α → Prop} (hp : Rejects p rest) (h : R []) :
    Accepts (Rule.many p) [] rest R := by
  intro s r hs
  have hnone := hp s r hs
  refine ⟨[], s, ?_, hs, h⟩
  change (manyUpTo p (s.lexemes.length + 1) s r).1 = _
  unfold Rule.manyUpTo
  split
  · rfl
  · next heq => simp [heq] at hnone

theorem Accepts.many_cons {R S : List α → Prop} (hshort : Shortens p)
    (hp : Accepts p ts (us ++ rest) P) (hmany : Accepts (Rule.many p) us rest R)
    (h : ∀ a as, P a → R as → S (a :: as)) : Accepts (Rule.many p) (ts ++ us) rest S := by
  intro s r hs
  obtain ⟨a, s', ha, hrest, hP⟩ := hp s r (hs.trans (List.append_assoc ts us rest))
  have hlater : Accepts ((Rule.many p).map (a :: ·)) us rest S :=
    hmany.map fun as hR => h a as hP hR
  rw [many_of_some hshort ha]
  exact hlater s' (p s r).2 hrest

/-! ## Ranges -/

theorem spanned_eq_some {s s' : Remaining} {r : Reach} {x : α × Span} :
    (p.spanned s r).1 = some (x, s') ↔
      (p s r).1 = some (x.1, s') ∧
        x.2 = ⟨s.lexemes.head?.elim s.stop fun l => l.span.start, s'.stop⟩ := by
  unfold Rule.spanned
  split
  · next heq => simp [heq]
  · next heq =>
      obtain ⟨a, span⟩ := x
      simp only [heq, Option.some.injEq, Prod.mk.injEq]
      constructor
      · rintro ⟨⟨rfl, rfl⟩, rfl⟩
        exact ⟨⟨rfl, rfl⟩, rfl⟩
      · rintro ⟨⟨rfl, rfl⟩, rfl⟩
        exact ⟨⟨rfl, rfl⟩, rfl⟩

theorem Recognizes.spanned (hp : Recognizes p L) :
    Recognizes p.spanned fun ts x => L ts x.1 :=
  fun s r x s' h => hp s r x.1 s' (spanned_eq_some.1 h).1

theorem Accepts.spanned (hp : Accepts p ts rest P) :
    Accepts p.spanned ts rest fun x => P x.1 := by
  intro s r hs
  obtain ⟨a, s', ha, hrest, hP⟩ := hp s r hs
  exact ⟨(a, _), s', spanned_eq_some.2 ⟨ha, rfl⟩, hrest, hP⟩

theorem Rejects.spanned (hp : Rejects p ts) : Rejects p.spanned ts := by
  intro s r hs
  cases h : (p.spanned s r).1 with
  | none => rfl
  | some x => exact absurd ((hp s r hs).symm.trans (spanned_eq_some.1 h).1) (by simp)

/-! ## Single tokens -/

theorem recognizes_token (what : List Expectation) (f : Token → Option α) :
    Recognizes (token what f) fun ts a => ∃ t, f t = some a ∧ ts = [t] := by
  intro s r a s' h
  obtain ⟨lexemes, position, stop⟩ := s
  cases lexemes with
  | nil => exact absurd h (by simp [token])
  | cons l lexemes =>
      unfold token at h
      dsimp only at h
      split at h
      · next hf =>
          obtain ⟨rfl, rfl⟩ := Prod.mk.inj (Option.some.inj h)
          exact ⟨[l.token], rfl, l.token, hf, rfl⟩
      · exact absurd h (by simp)

theorem accepts_token (what : List Expectation) {f : Token → Option α} {t : Token} {a : α}
    (h : f t = some a) : Accepts (token what f) [t] rest fun b => b = a := by
  intro s r hs
  obtain ⟨lexemes, position, stop⟩ := s
  cases lexemes with
  | nil => exact absurd hs (by simp [Remaining.tokens])
  | cons l lexemes =>
      obtain ⟨hl, hrest⟩ := List.cons.inj hs
      refine ⟨a, ⟨lexemes, position + 1, l.span.stop⟩, ?_, hrest, rfl⟩
      simp only [token, hl, h]

theorem rejects_token (what : List Expectation) {f : Token → Option α}
    (h : ∀ t ∈ ts.head?, f t = none) : Rejects (token what f) ts := by
  refine (recognizes_token what f).rejects ?_
  rintro us vs a rfl ⟨t, ht, rfl⟩
  rw [h t rfl] at ht
  cases ht

theorem recognizes_mark (m : Mark) : Recognizes (mark m) fun ts _ => ts = [.mark m] := by
  refine (recognizes_token _ _).mono ?_
  rintro ts ⟨⟩ ⟨t, ht, rfl⟩
  cases t with
  | mark n =>
      by_cases hm : m = n
      · rw [hm]
      · simp [hm] at ht
  | _ => cases ht

theorem accepts_mark (m : Mark) : Accepts (mark m) [.mark m] rest fun _ => True :=
  (accepts_token (a := ()) _ (if_pos rfl)).mono fun _ _ => trivial

theorem rejects_mark {m : Mark} (h : Token.mark m ∉ ts.head?) : Rejects (mark m) ts := by
  refine rejects_token _ fun t ht => ?_
  cases t with
  | mark n =>
      have hne : m ≠ n := by
        rintro rfl
        exact h ht
      exact if_neg hne
  | _ => rfl

theorem Recognizes.between {opening closing : Mark} (hp : Recognizes p L) :
    Recognizes (Rule.between opening closing p) fun ts a =>
      ∃ us, L us a ∧ ts = .mark opening :: (us ++ [.mark closing]) := by
  refine Recognizes.andSkip ((recognizes_mark opening).andThen hp
    (N := fun ts a => ∃ us, L us a ∧ ts = .mark opening :: us) ?_) (recognizes_mark closing) ?_
  · rintro ts us ⟨⟩ a rfl hL
    exact ⟨us, hL, rfl⟩
  · rintro ts us a ⟨⟩ ⟨vs, hL, rfl⟩ rfl
    exact ⟨vs, hL, rfl⟩

theorem Accepts.between {opening closing : Mark}
    (hp : Accepts p ts (.mark closing :: rest) P) :
    Accepts (Rule.between opening closing p) (.mark opening :: (ts ++ [.mark closing])) rest P := by
  have hopened : Accepts ((mark opening).andThen p) (.mark opening :: ts)
      ([.mark closing] ++ rest) P :=
    (accepts_mark opening).andThen hp
  exact hopened.andSkip (accepts_mark closing)

theorem rejects_between {opening closing : Mark} (h : Token.mark opening ∉ ts.head?) :
    Rejects (between opening closing p) ts :=
  (rejects_mark h).bind.bind

end Rule

end Stencil.Expr
