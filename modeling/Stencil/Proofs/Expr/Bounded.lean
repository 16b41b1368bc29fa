import Stencil.Proofs.Expr.Interaction

/-!
# Evaluation inside bounds

Nothing in the meaning of an expression bounds how deep visits and calls of methods nest; a
definition has to. `runWithin` is the evaluation inside two bounds, with anything at all in
the place of what lies beyond them. `run` is the case where that fails (`runWithin_failing`).

Evaluations settle if all with enough room come to one outcome, which then owes nothing to
the bounds and to what is beyond. Whatever evaluations are put together with runs finitely
many others, and so settles if they do.
-/

namespace Stencil.Expr

namespace Evaluator

/-! ## The bounded evaluator -/

/-- What is taken for visits and calls beyond the bounds. -/
structure Beyond where
  visit : Visit
  call : Span → Call

/-- Calls a function, given how to run an arrow function, and what to take for a method that
is called deeper inside others than a bound. -/
def callWithin (beyond : Call) (enter : Enter) (span : Span) : (calls : Nat) → Call
  | _, .closure _ params body frames, args => enter params body frames args
  | _, .helper h, args => h.apply args span
  | 0, .method m, args => beyond (.method m) args
  | calls + 1, .method m, args =>
      applyMethod (fun f args => callWithin beyond enter span calls f args) m args span

section Unbounded

-- only calls of methods look at the bounds
variable (beyond : Call) (enter : Enter) (span : Span) (calls : Nat) (args : List Value)

@[simp]
theorem callWith_closure (id : Identity) (params : List Text) (body : Tree) (frames : Frames) :
    callWith enter span calls (.closure id params body frames) args =
      enter params body frames args := by
  cases calls <;> rfl

@[simp]
theorem callWith_helper (h : Helper) :
    callWith enter span calls (.helper h) args = h.apply args span := by
  cases calls <;> rfl

@[simp]
theorem callWithin_closure (id : Identity) (params : List Text) (body : Tree) (frames : Frames) :
    callWithin beyond enter span calls (.closure id params body frames) args =
      enter params body frames args := by
  cases calls <;> rfl

@[simp]
theorem callWithin_helper (h : Helper) :
    callWithin beyond enter span calls (.helper h) args = h.apply args span := by
  cases calls <;> rfl

end Unbounded

/-- Visits a node, with a bound on the nesting of method calls. -/
def nodeWithin (setting : Setting) (beyond : Beyond) (calls : Nat) (visit : Visit)
    (frames : Frames) (depth : Nat) (e : Tree) : Eval (Option Value) :=
  match e with
  | .call span callee args => do
      link false (← visit frames depth callee) fun target => do
        match target with
        | .function f =>
            let values ← args.mapM (value visit frames depth)
            callWithin (beyond.call span) (enter setting.limits visit depth span) span calls f values
        | _ => Eval.fail callee.span (.notAFunction callee.describe)
  | e => node setting visit frames depth e

/-- Visits a node, with bounds on the nesting of method calls and of visits. -/
def runWithin (setting : Setting) (beyond : Beyond) (calls : Nat) : (visits : Nat) → Visit
  | 0 => beyond.visit
  | visits + 1 => fun frames depth e => do
      Eval.tick setting.limits e.span
      nodeWithin setting beyond calls (runWithin setting beyond calls visits) frames depth e

/-- All visits and calls beyond the bounds fail. -/
def failing (limits : Limits) : Beyond where
  visit _ _ e := Eval.fail e.span (.stepsExhausted limits.steps)
  call span _ _ := Eval.fail span .methodsTooDeep

theorem callWithin_failing (limits : Limits) (enter : Enter) (span : Span) (calls : Nat) :
    callWithin ((failing limits).call span) enter span calls = callWith enter span calls := by
  induction calls with
  | zero =>
      funext f args
      cases f <;> rfl
  | succ calls ih =>
      funext f args
      cases f with
      | closure | helper => rfl
      | method m => rw [callWithin, callWith, ih]

theorem nodeWithin_failing (setting : Setting) (visit : Visit) :
    nodeWithin setting (failing setting.limits) methodAllowance visit = node setting visit := by
  funext frames depth e
  cases e with
  | call span callee args =>
      have hcall := callWithin_failing setting.limits (enter setting.limits visit depth span) span
        methodAllowance
      rw [nodeWithin, hcall]
      rfl
  | _ => rfl

/-- **The evaluation is one inside bounds.** -/
theorem runWithin_failing (setting : Setting) (visits : Nat) :
    runWithin setting (failing setting.limits) methodAllowance visits = run setting visits := by
  induction visits with
  | zero => rfl
  | succ visits ih =>
      funext frames depth e
      rw [runWithin, run, ih, nodeWithin_failing]

end Evaluator

/-- The value of an expression, from an evaluation inside bounds. -/
def Tree.evaluateWithin (globals : Globals) (limits : Limits) (beyond : Evaluator.Beyond)
    (calls visits : Nat) (e : Tree) : Except ExprError Value :=
  (Evaluator.value (Evaluator.runWithin ⟨globals, limits⟩ beyond calls visits) [] 0 e).run' {}

theorem Tree.evaluateWithin_failing (globals : Globals) (limits : Limits) (e : Tree) :
    e.evaluateWithin globals limits (Evaluator.failing limits) Evaluator.methodAllowance
      (limits.steps + 1) = e.evaluate globals limits := by
  have hrun := Evaluator.runWithin_failing ⟨globals, limits⟩ (limits.steps + 1)
  exact congrArg (fun visit => (Evaluator.value visit [] 0 e).run' {}) hrun

/-! ## Evaluations that settle -/

/-- Methods were called deeper inside one another than the allowance. -/
def ExprError.IsTooDeep (e : ExprError) : Prop :=
  ∃ span, e = .runtime span .methodsTooDeep

/-- From some progress, the evaluations with enough room all come to one outcome, which is as
said if it is a value, and which `x` comes to as well unless it is stopped by the allowance. -/
def Settles {ι α : Type} (room : ι → Nat) (P : α → Progress → Prop) (x : Eval α)
    (F : ι → Eval α) (p : Progress) : Prop :=
  ∃ r, (∃ bound, ∀ i, bound ≤ room i → F i p = r) ∧
    (∀ a q, r = .ok (a, q) → P a q) ∧ Unless ExprError.IsTooDeep (x p) r

namespace Settles

variable {ι κ α β : Type} {room : ι → Nat} {P : α → Progress → Prop} {Q : β → Progress → Prop}
  {p : Progress}

/-- What does not look at the bounds settles. -/
theorem const {x : Eval α} (h : ∀ a q, x p = .ok (a, q) → P a q) :
    Settles room P x (fun _ => x) p :=
  ⟨x p, ⟨0, fun _ _ => rfl⟩, h, .refl _⟩

theorem pure {a : α} (h : P a p) : Settles room P (pure a) (fun _ => Pure.pure a) p :=
  const fun _ _ hok => by
    cases hok
    exact h

theorem fail (span : Span) (t : Trouble) :
    Settles room P (Eval.fail span t) (fun _ => Eval.fail span t) p :=
  const fun _ _ hok => by cases hok

theorem mono {P' : α → Progress → Prop} {x : Eval α} {F : ι → Eval α}
    (h : Settles room P x F p) (himp : ∀ a q, P a q → P' a q) : Settles room P' x F p := by
  obtain ⟨r, hsettled, hP, hx⟩ := h
  exact ⟨r, hsettled, fun a q hr => himp a q (hP a q hr), hx⟩

/-- **What settles may go on with what settles.** -/
theorem bind {x : Eval α} {F : ι → Eval α} {f : α → Eval β} {G : ι → α → Eval β}
    (h : Settles room P x F p)
    (hnext : ∀ a q, P a q → Settles room Q (f a) (fun i => G i a) q) :
    Settles room Q (x >>= f) (fun i => F i >>= G i) p := by
  obtain ⟨r, ⟨bound, hF⟩, hP, hx⟩ := h
  cases r with
  | error e =>
      refine ⟨.error e, ⟨bound, fun i hi => ?_⟩, fun b q hr => ?_, ?_⟩
      · change (F i >>= G i) p = _
        rw [Eval.bind_apply, hF i hi, Except.bind_error]
      · cases hr
      · exact hx.bind fun r => .refl (f r.1 r.2)
  | ok r =>
      obtain ⟨a, q⟩ := r
      obtain ⟨r', ⟨bound', hG⟩, hQ, hf⟩ := hnext a q (hP a q rfl)
      refine ⟨r', ⟨max bound bound', fun i hi => ?_⟩, hQ, ?_⟩
      · change (F i >>= G i) p = _
        rw [Eval.bind_apply, hF i (Nat.le_trans (Nat.le_max_left _ _) hi), Except.bind_ok]
        exact hG i (Nat.le_trans (Nat.le_max_right _ _) hi)
      · rcases hx with ⟨e, hfails, he⟩ | hsame
        · exact .inl ⟨e, by rw [Eval.bind_apply, hfails, Except.bind_error], he⟩
        · rw [Eval.bind_apply, hsame, Except.bind_ok]
          exact hf

theorem map {x : Eval α} {F : ι → Eval α} {f : α → β} (h : Settles room P x F p)
    (hf : ∀ a q, P a q → Q (f a) q) : Settles room Q (f <$> x) (fun i => f <$> F i) p := by
  simp only [map_eq_pure_bind]
  exact h.bind fun a q ha => pure (hf a q ha)

/-- What settles by some room settles where there is as much, or one less. -/
theorem reindex {room' : κ → Nat} {x : Eval α} {F : ι → Eval α} {G : κ → Eval α}
    (h : Settles room P x F p) (index : κ → ι)
    (hG : ∀ k, 1 ≤ room' k → room' k ≤ room (index k) + 1 ∧ G k p = F (index k) p) :
    Settles room' P x G p := by
  obtain ⟨r, ⟨bound, hF⟩, hrest⟩ := h
  refine ⟨r, ⟨bound + 1, fun k hk => ?_⟩, hrest⟩
  obtain ⟨hroom, hsame⟩ := hG k (Nat.le_trans (Nat.le_add_left 1 bound) hk)
  rw [hsame, hF (index k) (Nat.le_of_add_le_add_right (Nat.le_trans hk hroom))]

/-- Whatever settles, what the allowance stops may stand for it. -/
theorem stopped {x : Eval α} {F : ι → Eval α} (h : Settles room P x F p) (span : Span) :
    Settles room P (Eval.fail span .methodsTooDeep) F p := by
  obtain ⟨r, hsettled, hP, -⟩ := h
  exact ⟨r, hsettled, hP, .failed ⟨span, rfl⟩ r⟩

/-! ## Lists -/

variable {Inv : Progress → Prop}

theorem mapM {f : α → Eval β} {F : ι → α → Eval β} {as : List α}
    (h : ∀ a ∈ as, ∀ q, Inv q → Settles room (fun _ => Inv) (f a) (fun i => F i a) q)
    (hp : Inv p) : Settles room (fun _ => Inv) (as.mapM f) (fun i => as.mapM (F i)) p := by
  induction as generalizing p with
  | nil => exact pure hp
  | cons a as ih =>
      simp only [List.mapM_cons]
      refine (h a List.mem_cons_self p hp).bind fun b q hq => ?_
      refine (ih (fun a' ha' => h a' (List.mem_cons_of_mem a ha')) hq).bind fun bs q' hq' => ?_
      exact pure hq'

theorem foldlM {P : β → Progress → Prop} {f : β → α → Eval β} {F : ι → β → α → Eval β}
    {as : List α}
    (h : ∀ b, ∀ a ∈ as, ∀ q, P b q → Settles room P (f b a) (fun i => F i b a) q) {b : β}
    (hb : P b p) : Settles room P (as.foldlM f b) (fun i => as.foldlM (F i) b) p := by
  induction as generalizing b p with
  | nil => exact pure hb
  | cons a as ih =>
      simp only [List.foldlM_cons]
      refine (h b a List.mem_cons_self p hb).bind fun b' q hb' => ?_
      exact ih (fun c a' ha' => h c a' (List.mem_cons_of_mem a ha')) hb'

/-- What is found is one of the items. -/
theorem findM? {f : α → Eval Bool} {F : ι → α → Eval Bool} {as : List α}
    (h : ∀ a ∈ as, ∀ q, Inv q → Settles room (fun _ => Inv) (f a) (fun i => F i a) q)
    (hp : Inv p) :
    Settles room (fun found q => (∀ a ∈ found, a ∈ as) ∧ Inv q) (as.findM? f)
      (fun i => as.findM? (F i)) p := by
  induction as generalizing p with
  | nil => exact pure ⟨fun a ha => (Option.not_mem_none a ha).elim, hp⟩
  | cons a as ih =>
      refine (h a List.mem_cons_self p hp).bind fun found q hq => ?_
      cases found with
      | true =>
          refine pure ⟨fun a' ha' => ?_, hq⟩
          obtain rfl := Option.mem_some.1 ha'
          exact List.mem_cons_self
      | false =>
          refine (ih (fun a' ha' => h a' (List.mem_cons_of_mem a ha')) hq).mono ?_
          exact fun found q' hfound =>
            ⟨fun a' ha' => List.mem_cons_of_mem a (hfound.1 a' ha'), hfound.2⟩

theorem filterM {f : α → Eval Bool} {F : ι → α → Eval Bool} {as : List α}
    (h : ∀ a ∈ as, ∀ q, Inv q → Settles room (fun _ => Inv) (f a) (fun i => F i a) q)
    (hp : Inv p) : Settles room (fun _ => Inv) (as.filterM f) (fun i => as.filterM (F i)) p := by
  have hfrom : ∀ kept q, Inv q → Settles room (fun _ => Inv) (List.filterAuxM f as kept)
      (fun i => List.filterAuxM (F i) as kept) q := by
    induction as with
    | nil => exact fun kept q hq => pure hq
    | cons a as ih =>
        intro kept q hq
        refine (h a List.mem_cons_self q hq).bind fun found q' hq' => ?_
        have hrest := ih fun a' ha' => h a' (List.mem_cons_of_mem a ha')
        cases found with
        | true => exact hrest (a :: kept) q' hq'
        | false => exact hrest kept q' hq'
  exact (hfrom [] p hp).bind fun kept q hq => pure hq

/-! ## Sorting -/

variable {S : α → Prop} {after : α → α → Eval Bool} {After : ι → α → α → Eval Bool}
  (hafter : ∀ a b, S a → S b → ∀ q, Inv q →
    Settles room (fun _ => Inv) (after a b) (fun i => After i a b) q)
include hafter

theorem mergeM {as bs : List α} (has : ∀ a ∈ as, S a) (hbs : ∀ b ∈ bs, S b) (hp : Inv p) :
    Settles room (fun cs q => (∀ c ∈ cs, S c) ∧ Inv q) (mergeM after as bs)
      (fun i => Stencil.mergeM (After i) as bs) p := by
  induction as, bs using Stencil.mergeM.induct generalizing p with
  | case1 bs =>
      simp only [Stencil.mergeM]
      exact pure ⟨hbs, hp⟩
  | case2 a as =>
      simp only [Stencil.mergeM]
      exact pure ⟨has, hp⟩
  | case3 a as b bs ihRight ihLeft =>
      simp only [Stencil.mergeM]
      have ha := List.forall_mem_cons.1 has
      have hb := List.forall_mem_cons.1 hbs
      refine (hafter a b ha.1 hb.1 p hp).bind fun answer q hq => ?_
      cases answer with
      | true =>
          refine (ihRight has hb.2 hq).bind fun rest q' hrest => ?_
          exact pure ⟨List.forall_mem_cons.2 ⟨hb.1, hrest.1⟩, hrest.2⟩
      | false =>
          refine (ihLeft ha.2 hbs hq).bind fun rest q' hrest => ?_
          exact pure ⟨List.forall_mem_cons.2 ⟨ha.1, hrest.1⟩, hrest.2⟩

theorem mergeSortM {as : List α} (has : ∀ a ∈ as, S a) (hp : Inv p) :
    Settles room (fun bs q => (∀ b ∈ bs, S b) ∧ Inv q) (mergeSortM after as)
      (fun i => Stencil.mergeSortM (After i) as) p := by
  induction as using Stencil.mergeSortM.induct generalizing p with
  | case1 as hlength =>
      simp only [Stencil.mergeSortM.eq_def _ as, dif_pos hlength]
      exact pure ⟨has, hp⟩
  | case2 as hlength ihLeft ihRight =>
      simp only [Stencil.mergeSortM.eq_def _ as, dif_neg hlength]
      refine (ihLeft (fun a ha => has a (List.mem_of_mem_take ha)) hp).bind fun ls q hls => ?_
      refine (ihRight (fun a ha => has a (List.mem_of_mem_drop ha)) hls.2).bind fun rs q' hrs => ?_
      exact mergeM hafter hls.1 hrs.1 hrs.2

end Settles

end Stencil.Expr
