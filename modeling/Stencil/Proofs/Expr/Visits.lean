import Stencil.Proofs.Expr.Interaction
import Mathlib.Data.Set.Card
import Mathlib.Logic.Relation

/-!
# The visits of an evaluation

The work of a visit is given how to visit others. It *demands* a visit if the failure of
that visit, whatever it is, is its own failure; so what a run visits is what the work of
its visits demands, from the visit of the whole expression on (`Reaches`).

Each visit counts one step, and visits are made one after another. Hence the visits of a
run, in the order in which they start, start at one step after the other
(`exists_itinerary`): no more than the budget complete, and if the run succeeds, its steps
are as many as its visits (`visited_of_ok`).
-/

namespace Stencil.Expr.Evaluator

/-! ## Demands -/

/-- What a visit starts from. -/
structure Request where
  frames : Frames
  depth : Nat
  tree : Tree
  progress : Progress

/-- What a visit gives for a request. -/
def Request.ask (visit : Visit) (r : Request) : Except ExprError (Option Value × Progress) :=
  visit r.frames r.depth r.tree r.progress

open Classical in
/-- Visits as before, except that one visit fails. -/
noncomputable def Visit.failing (visit : Visit) (r : Request) (err : ExprError) : Visit :=
  fun frames depth e p =>
    if (⟨frames, depth, e, p⟩ : Request) = r then .error err else visit frames depth e p

theorem Visit.ask_failing_self (visit : Visit) (r : Request) (err : ExprError) :
    r.ask (visit.failing r err) = .error err :=
  if_pos rfl

theorem Visit.ask_failing_of_ne (visit : Visit) {r s : Request} (h : s ≠ r) (err : ExprError) :
    s.ask (visit.failing r err) = s.ask visit :=
  if_neg h

/-- A visit that fails anyway changes nothing by it. -/
theorem Visit.failing_eq_self {visit : Visit} {r : Request} {err : ExprError}
    (h : r.ask visit = .error err) : visit.failing r err = visit := by
  funext frames depth e p
  unfold Visit.failing
  split
  case isTrue heq =>
    subst heq
    exact h.symm
  case isFalse => rfl

variable {α β : Type}

/-- An evaluation needs a visit: should it fail, the evaluation fails the same. -/
def Demands (F : Visit → Eval α) (visit : Visit) (p : Progress) (r : Request) : Prop :=
  ∀ err, F (visit.failing r err) p = .error err

/-- What an evaluation that succeeds has needed has succeeded. -/
theorem Demands.ok {F : Visit → Eval α} {visit : Visit} {p q : Progress} {r : Request} {a : α}
    (h : Demands F visit p r) (hok : F visit p = .ok (a, q)) :
    ∃ v q', r.ask visit = .ok (v, q') := by
  cases hask : r.ask visit with
  | ok result => exact ⟨result.1, result.2, rfl⟩
  | error err =>
      have hfails := h err
      rw [Visit.failing_eq_self hask, hok] at hfails
      cases hfails

theorem not_always_error (x : Except ExprError α) : ¬ ∀ err, x = .error err := by
  intro h
  -- it would fail in two different ways
  have hfirst := h (.runtime ⟨0, 0⟩ .invalidLength)
  rw [h (.runtime ⟨0, 0⟩ .invalidPlaces)] at hfirst
  cases hfirst

/-- A sequence fails in every way only if its second task does. -/
theorem bind_always_error_iff {x : Except ExprError β} {f : ExprError → β → Except ExprError α} :
    (∀ err, (x >>= f err) = .error err) ↔ ∃ b, x = .ok b ∧ ∀ err, f err b = .error err := by
  cases x with
  | error e =>
      constructor
      · intro h
        exact absurd h (not_always_error (.error e))
      · rintro ⟨b, h, -⟩
        cases h
  | ok b =>
      constructor
      · intro h
        exact ⟨b, rfl, h⟩
      · rintro ⟨b', hb, h⟩
        cases hb
        exact h

section First

variable {s r : Request} {visit : Visit} {p : Progress}

/-- Work without visits demands nothing; what comes after it may. -/
theorem demands_working_iff {x : Eval β} {next : β → Visit → Eval α} :
    Demands (fun visit => x >>= fun b => next b visit) visit p r ↔
      ∃ b q, x p = .ok (b, q) ∧ Demands (next b) visit q r := by
  have hiff := bind_always_error_iff (x := x p)
    (f := fun err result => next result.1 (visit.failing r err) result.2)
  rw [Prod.exists] at hiff
  exact hiff

/-- An evaluation demands the visit that it starts with, and what the rest demands. -/
theorem demands_operand_iff {next : Option Value → Visit → Eval α} :
    Demands (fun visit => visit s.frames s.depth s.tree >>= fun v => next v visit) visit
        s.progress r ↔
      r = s ∨ ∃ v q, s.ask visit = .ok (v, q) ∧ Demands (next v) visit q r := by
  change (∀ err, (s.ask (visit.failing r err) >>= fun result =>
    next result.1 (visit.failing r err) result.2) = .error err) ↔ _
  by_cases heq : s = r
  · subst heq
    refine iff_of_true (fun err => ?_) (Or.inl rfl)
    rw [Visit.ask_failing_self, Except.bind_error]
  · simp only [Visit.ask_failing_of_ne visit heq]
    rw [or_iff_right (Ne.symm heq), bind_always_error_iff, Prod.exists]
    rfl

end First

/-! ## Visits of a run -/

/-- One visit of a run. -/
structure Activation extends Request where
  /-- How many visits may nest in it. -/
  nesting : Nat

namespace Activation

variable (setting : Setting)

/-- What the visit gives. -/
def result (a : Activation) : Except ExprError (Option Value × Progress) :=
  a.ask (run setting a.nesting)

/-- The visit comes to a value. -/
def Completes (a : Activation) : Prop :=
  ∃ v q, a.result setting = .ok (v, q)

/-- The work of a visit, given how to visit others. -/
def work (a : Activation) (visit : Visit) : Eval (Option Value) := do
  Eval.tick setting.limits a.tree.span
  node setting visit a.frames a.depth a.tree

/-- A visit asks for another. -/
def Enters (a b : Activation) : Prop :=
  a.nesting = b.nesting + 1 ∧
    Demands (a.work setting) (run setting b.nesting) a.progress b.toRequest

/-- A visit is another, or is made while that works. -/
abbrev Reaches : Activation → Activation → Prop :=
  Relation.ReflTransGen (Enters setting)

end Activation

/-! ## One step after the other -/

/-- Visits that start one step after the other from some progress on, to where a task ends
if it succeeds. -/
structure Numbered (p : Progress) (visits : List Activation)
    (result : Except ExprError (α × Progress)) : Prop where
  starts : visits.map (fun a => a.progress.steps) = List.range' p.steps visits.length
  ends : ∀ a q, result = .ok (a, q) → q.steps = p.steps + visits.length

namespace Numbered

variable {p q : Progress} {visits rest : List Activation}

theorem nil {result : Except ExprError (α × Progress)}
    (h : ∀ a q, result = .ok (a, q) → q.steps = p.steps) : Numbered p [] result :=
  ⟨rfl, h⟩

theorem failed {result : Except ExprError (α × Progress)} (h : Numbered p visits result)
    (err : ExprError) : Numbered p visits (.error err : Except ExprError (β × Progress)) :=
  ⟨h.starts, fun _ _ heq => by cases heq⟩

theorem append {a : α} {result : Except ExprError (β × Progress)}
    (h : Numbered p visits (.ok (a, q))) (hrest : Numbered q rest result) :
    Numbered p (visits ++ rest) result := by
  have hq : q.steps = p.steps + visits.length := h.ends a q rfl
  constructor
  · rw [List.map_append, h.starts, hrest.starts, hq, List.length_append, ← List.range'_append_1]
  · intro b q' hresult
    rw [hrest.ends b q' hresult, hq, List.length_append, Nat.add_assoc]

theorem of_steps {result : Except ExprError (α × Progress)} (h : Numbered q visits result)
    (hsteps : q.steps = p.steps) : Numbered p visits result :=
  ⟨hsteps ▸ h.starts, hsteps ▸ h.ends⟩

/-- The visits start at different steps. -/
theorem nodup {result : Except ExprError (α × Progress)} (h : Numbered p visits result) :
    (visits.map fun a => a.progress.steps).Nodup := by
  rw [h.starts]
  exact List.nodup_range'

end Numbered

/-- All that an evaluation asks for, in the order in which it does, with the visits inside
each numbered one after another. -/
structure Asks (visits : Request → List Activation) (F : Visit → Eval α) (visit : Visit)
    (p : Progress) (requests : List Request) : Prop where
  mem : ∀ r, Demands F visit p r ↔ r ∈ requests
  numbered : Numbered p (requests.flatMap visits) (F visit p)

section Asks

variable {visits : Request → List Activation} {visit : Visit} {p : Progress}

theorem asks_steady {x : Eval α} (hx : x.Steady) : Asks visits (fun _ => x) visit p [] where
  mem _ := iff_of_false (not_always_error (x p)) List.not_mem_nil
  numbered := .nil fun a q h => hx p a q h

theorem exists_asks_working {x : Eval β} (hx : x.Steady) {next : β → Visit → Eval α}
    (hnext : ∀ b q, ∃ requests, Asks visits (next b) visit q requests) :
    ∃ requests, Asks visits (fun visit => x >>= fun b => next b visit) visit p requests := by
  cases hresult : x p with
  | error err =>
      have hfails : (x >>= fun b => next b visit) p = .error err := by
        rw [Eval.bind_apply, hresult, Except.bind_error]
      refine ⟨[], fun r => ?_, .nil fun a q h => ?_⟩
      · rw [demands_working_iff, hresult]
        simp
      · rw [hfails] at h
        cases h
  | ok result =>
      obtain ⟨b, q⟩ := result
      obtain ⟨requests, hasks⟩ := hnext b q
      have hsteps : q.steps = p.steps := hx p b q hresult
      have hgoes : (x >>= fun b => next b visit) p = next b visit q := by
        rw [Eval.bind_apply, hresult, Except.bind_ok]
      refine ⟨requests, fun r => ?_, ?_⟩
      · rw [demands_working_iff, hresult, ← hasks.mem]
        simp
      · rw [hgoes]
        exact hasks.numbered.of_steps hsteps

theorem exists_asks_operand (hvisits : ∀ r, Numbered r.progress (visits r) (r.ask visit))
    (s : Request) {next : Option Value → Visit → Eval α}
    (hnext : ∀ v q, ∃ requests, Asks visits (next v) visit q requests) :
    ∃ requests, Asks visits (fun visit => visit s.frames s.depth s.tree >>= fun v =>
      next v visit) visit s.progress requests := by
  have hs := hvisits s
  have hunfold : (visit s.frames s.depth s.tree >>= fun v => next v visit) s.progress =
      s.ask visit >>= fun result => next result.1 visit result.2 := rfl
  cases hask : s.ask visit with
  | error err =>
      rw [hask] at hs
      refine ⟨[s], fun r => ?_, ?_⟩
      · rw [demands_operand_iff, hask]
        simp
      · rw [List.flatMap_singleton, hunfold, hask, Except.bind_error]
        exact hs.failed err
  | ok result =>
      obtain ⟨v, q⟩ := result
      rw [hask] at hs
      obtain ⟨requests, hasks⟩ := hnext v q
      refine ⟨s :: requests, fun r => ?_, ?_⟩
      · rw [demands_operand_iff, hask, List.mem_cons, ← hasks.mem]
        simp
      · rw [List.flatMap_cons, hunfold, hask, Except.bind_ok]
        exact hs.append hasks.numbered

end Asks

/-- **What asks for visits asks for them one after another.** -/
theorem Interactive.exists_asks {frames : Frames} {depth : Nat} {F : Program α}
    (hF : Interactive frames depth F) (limits : Limits) {visit : Visit}
    {visits : Request → List Activation}
    (hvisits : ∀ r, Numbered r.progress (visits r) (r.ask visit)) (p : Progress) :
    ∃ requests, Asks visits (F limits) visit p requests := by
  induction hF generalizing p with
  | settled a => exact ⟨[], asks_steady (.pure a)⟩
  | working hx _ ih => exact exists_asks_working hx ih
  | operand e _ ih => exact exists_asks_operand hvisits ⟨frames, depth, e, p⟩ ih
  | body span inner e _ ih =>
      by_cases hdeep : limits.calls ≤ depth
      · simp only [if_pos hdeep]
        exact ⟨[], asks_steady (.fail span _)⟩
      · simp only [if_neg hdeep]
        exact exists_asks_operand hvisits ⟨inner, depth + 1, e, p⟩ ih

/-- Operands are visited at the depth of their node, and bodies one call deeper, where the
limit lets them. -/
theorem Interactive.depth_of_demands {frames : Frames} {depth : Nat} {F : Program α}
    (hF : Interactive frames depth F) {limits : Limits} {visit : Visit} {p : Progress}
    {r : Request} (h : Demands (F limits) visit p r) :
    r.depth = depth ∨ depth < limits.calls ∧ r.depth = depth + 1 := by
  induction hF generalizing p with
  | settled a => exact absurd h (not_always_error (.ok (a, p)))
  | working _ _ ih =>
      obtain ⟨b, q, -, hnext⟩ := demands_working_iff.1 h
      exact ih b hnext
  | operand e _ ih =>
      rcases (demands_operand_iff (s := ⟨frames, depth, e, p⟩)).1 h with rfl | ⟨v, q, -, hnext⟩
      · exact Or.inl rfl
      · exact ih v hnext
  | body span inner e _ ih =>
      by_cases hdeep : limits.calls ≤ depth
      · simp only [if_pos hdeep] at h
        exact absurd h (not_always_error _)
      · simp only [if_neg hdeep] at h
        rcases (demands_operand_iff (s := ⟨inner, depth + 1, e, p⟩)).1 h with
          rfl | ⟨v, q, -, hnext⟩
        · exact Or.inr ⟨Nat.not_le.1 hdeep, rfl⟩
        · exact ih v hnext

namespace Activation

variable {setting : Setting} {a b : Activation}

/-! ## All visits of a run -/

/-- The progress with the step of the visit counted. -/
def counted (a : Activation) : Progress :=
  { a.progress with steps := a.progress.steps + 1 }

theorem result_of_nesting {nesting : Nat} (hnesting : a.nesting = nesting + 1)
    (h : a.progress.steps < setting.limits.steps) :
    a.result setting =
      node setting (run setting nesting) a.frames a.depth a.tree a.counted := by
  have hwork : a.result setting = a.work setting (run setting nesting) a.progress := by
    rw [result, Request.ask, hnesting]
    rfl
  rw [hwork, work, Eval.bind_apply, Eval.tick_of_lt h, Except.bind_ok]
  rfl

/-- Without a step left a visit fails. -/
theorem result_of_not_lt (h : ¬ a.progress.steps < setting.limits.steps) :
    a.result setting =
      .error (.runtime a.tree.span (.stepsExhausted setting.limits.steps)) := by
  obtain ⟨r, nesting⟩ := a
  cases nesting with
  | zero => rfl
  | succ nesting =>
      have hwork : result setting ⟨r, nesting + 1⟩ =
          work setting ⟨r, nesting + 1⟩ (run setting nesting) r.progress := rfl
      rw [hwork, work, Eval.bind_apply, Eval.tick_of_le (Nat.not_lt.1 h), Except.bind_error]

/-- A visit that completes has counted its step. -/
theorem Completes.lt (h : a.Completes setting) : a.progress.steps < setting.limits.steps := by
  obtain ⟨v, q, h⟩ := h
  by_contra hspent
  rw [result_of_not_lt hspent] at h
  cases h

/-- A visit asks for others once its step is counted. -/
theorem enters_iff :
    Enters setting a b ↔ a.nesting = b.nesting + 1 ∧ a.progress.steps < setting.limits.steps ∧
      Demands (fun visit => node setting visit a.frames a.depth a.tree) (run setting b.nesting)
        a.counted b.toRequest := by
  refine and_congr_right fun _ => ?_
  have hwork : Demands (a.work setting) (run setting b.nesting) a.progress b.toRequest ↔
      ∃ u q, Eval.tick setting.limits a.tree.span a.progress = .ok (u, q) ∧
        Demands (fun visit => node setting visit a.frames a.depth a.tree) (run setting b.nesting)
          q b.toRequest := demands_working_iff
  rw [hwork]
  by_cases h : a.progress.steps < setting.limits.steps
  · simp [Eval.tick_of_lt h, h, counted]
  · simp [Eval.tick_of_le (Nat.not_lt.1 h), h]

/-- All visits of a run, in the order in which they start. -/
structure Itinerary (setting : Setting) (a : Activation) (visits : List Activation) : Prop where
  mem : ∀ b, Reaches setting a b ↔ b ∈ visits
  numbered : Numbered a.progress visits (a.result setting)

/-- A visit that fails before it asks for others is all of its run. -/
theorem itinerary_singleton (hnone : ∀ b, ¬ Enters setting a b) {err : ExprError}
    (hfails : a.result setting = .error err) : Itinerary setting a [a] := by
  refine ⟨fun b => ?_, rfl, fun v q h => ?_⟩
  · unfold Reaches
    rw [Relation.ReflTransGen.cases_head_iff, List.mem_singleton]
    simp [hnone, eq_comm]
  · rw [hfails] at h
    cases h

/-- Otherwise its run is the visit, and then what is inside each visit that it asks for. -/
theorem itinerary_cons {r : Request} {nesting : Nat}
    (h : r.progress.steps < setting.limits.steps) {inside : Request → List Activation}
    (hinside : ∀ s, Itinerary setting ⟨s, nesting⟩ (inside s)) {requests : List Request}
    (hasks : Asks inside (fun visit => node setting visit r.frames r.depth r.tree)
      (run setting nesting) (counted ⟨r, nesting + 1⟩) requests) :
    Itinerary setting ⟨r, nesting + 1⟩ (⟨r, nesting + 1⟩ :: requests.flatMap inside) := by
  have henters : ∀ s n, Enters setting ⟨r, nesting + 1⟩ ⟨s, n⟩ ↔ n = nesting ∧ s ∈ requests := by
    intro s n
    rw [enters_iff, ← hasks.mem]
    constructor
    · rintro ⟨hn, -, hdemands⟩
      obtain rfl := Nat.succ.inj hn
      exact ⟨rfl, hdemands⟩
    · rintro ⟨rfl, hdemands⟩
      exact ⟨rfl, h, hdemands⟩
  constructor
  · intro b
    unfold Reaches
    rw [Relation.ReflTransGen.cases_head_iff, List.mem_cons, List.mem_flatMap, eq_comm]
    refine or_congr_right ⟨?_, ?_⟩
    · rintro ⟨⟨s, n⟩, hs, hreaches⟩
      obtain ⟨rfl, hmem⟩ := (henters s n).1 hs
      exact ⟨s, hmem, ((hinside s).mem b).1 hreaches⟩
    · rintro ⟨s, hmem, hb⟩
      exact ⟨⟨s, nesting⟩, (henters s nesting).2 ⟨rfl, hmem⟩, ((hinside s).mem b).2 hb⟩
  · have hrest := hasks.numbered
    rw [← result_of_nesting (a := ⟨r, nesting + 1⟩) rfl h] at hrest
    constructor
    · rw [List.map_cons, hrest.starts, List.length_cons, List.range'_succ]
      rfl
    · intro v q hresult
      rw [hrest.ends v q hresult, List.length_cons]
      exact Nat.add_right_comm _ _ _

/-- **The visits of a run start one step after the other.** -/
theorem exists_itinerary (setting : Setting) (a : Activation) :
    ∃ visits, Itinerary setting a visits := by
  obtain ⟨r, nesting⟩ := a
  induction nesting generalizing r with
  | zero =>
      refine ⟨[⟨r, 0⟩], itinerary_singleton (fun b hb => ?_) rfl⟩
      cases (enters_iff.1 hb).1
  | succ nesting ih =>
      by_cases h : r.progress.steps < setting.limits.steps
      · choose inside hinside using ih
        have hnumbered : ∀ s : Request,
            Numbered s.progress (inside s) (s.ask (run setting nesting)) :=
          fun s => (hinside s).numbered
        have hnode := interactive_node r.frames r.depth setting.globals r.tree
        obtain ⟨requests, hasks⟩ :=
          hnode.exists_asks setting.limits hnumbered (counted ⟨r, nesting + 1⟩)
        exact ⟨_, itinerary_cons h hinside hasks⟩
      · refine ⟨[⟨r, nesting + 1⟩], itinerary_singleton (fun b hb => ?_) (result_of_not_lt h)⟩
        exact h (enters_iff.1 hb).2.1

namespace Itinerary

variable {visits : List Activation}

theorem nodup (h : Itinerary setting a visits) : visits.Nodup :=
  h.numbered.nodup.of_map _

/-- Two visits of a run do not start at the same step. -/
theorem injOn_steps (h : Itinerary setting a visits) :
    Set.InjOn (fun b : Activation => b.progress.steps) {b | Reaches setting a b} := by
  intro b hb c hc heq
  exact List.inj_on_of_nodup_map h.numbered.nodup ((h.mem b).1 hb) ((h.mem c).1 hc) heq

theorem encard_reaches (h : Itinerary setting a visits) :
    {b | Reaches setting a b}.encard = visits.length := by
  have hset : {b | Reaches setting a b} = {b | b ∈ visits} := Set.ext h.mem
  classical
  rw [hset, ← List.coe_toFinset, Set.encard_coe_eq_coe_finsetCard,
    List.toFinset_card_of_nodup h.nodup]

end Itinerary

/-- **No more visits complete than the budget has steps.** -/
theorem encard_completes_le (setting : Setting) (a : Activation) :
    {b | Reaches setting a b ∧ b.Completes setting}.encard ≤ setting.limits.steps := by
  obtain ⟨visits, h⟩ := exists_itinerary setting a
  have hmaps : Set.MapsTo (fun b : Activation => b.progress.steps)
      {b | Reaches setting a b ∧ b.Completes setting}
      (Finset.range setting.limits.steps : Set Nat) := by
    intro b hb
    simpa using hb.2.lt
  have hinj := h.injOn_steps.mono fun b (hb : Reaches setting a b ∧ b.Completes setting) => hb.1
  calc {b | Reaches setting a b ∧ b.Completes setting}.encard
      ≤ (Finset.range setting.limits.steps : Set Nat).encard :=
        Set.encard_le_encard_of_injOn hmaps hinj
    _ = setting.limits.steps := by
        rw [Set.encard_coe_eq_coe_finsetCard, Finset.card_range]

/-- **The steps of a run that completes are its visits.** -/
theorem steps_eq_encard {v : Option Value} {q : Progress} (hok : a.result setting = .ok (v, q)) :
    (q.steps : ENat) = a.progress.steps + {b | Reaches setting a b}.encard := by
  obtain ⟨visits, h⟩ := exists_itinerary setting a
  rw [h.encard_reaches, h.numbered.ends v q hok, Nat.cast_add]

theorem Enters.completes (h : Enters setting a b) (ha : a.Completes setting) :
    b.Completes setting := by
  obtain ⟨v, q, hok⟩ := ha
  obtain ⟨hnesting, hlt, hdemands⟩ := enters_iff.1 h
  rw [result_of_nesting hnesting hlt] at hok
  exact hdemands.ok hok

/-- If a visit completes, so do all that are made inside. -/
theorem Reaches.completes (h : Reaches setting a b) (ha : a.Completes setting) :
    b.Completes setting := by
  induction h with
  | refl => exact ha
  | tail _ henters ih => exact henters.completes ih

/-! ## Depth -/

theorem Enters.depth_le (h : Enters setting a b) (ha : a.depth ≤ setting.limits.calls) :
    b.depth ≤ setting.limits.calls := by
  obtain ⟨-, -, hdemands⟩ := enters_iff.1 h
  have hnode := interactive_node a.frames a.depth setting.globals a.tree
  rcases hnode.depth_of_demands hdemands with heq | ⟨hlt, heq⟩
  · exact heq ▸ ha
  · exact heq ▸ hlt

/-- **Calls do not nest deeper than the limit.** -/
theorem Reaches.depth_le (h : Reaches setting a b) (ha : a.depth ≤ setting.limits.calls) :
    b.depth ≤ setting.limits.calls := by
  induction h with
  | refl => exact ha
  | tail _ henters ih => exact henters.depth_le ih

end Activation

/-! ## The visits of an evaluation -/

/-- The visit of a whole expression. -/
def Activation.root (limits : Limits) (e : Tree) : Activation :=
  ⟨⟨[], 0, e, {}⟩, limits.steps + 1⟩

/-- The visits that the evaluation of an expression makes. -/
def visited (setting : Setting) (e : Tree) : Set Activation :=
  {a | Activation.Reaches setting (.root setting.limits e) a}

theorem evaluate_eq (globals : Globals) (limits : Limits) (e : Tree) :
    e.evaluate globals limits =
      (fun r => r.1.getD .undefined) <$> (Activation.root limits e).result ⟨globals, limits⟩ := by
  have hvalue : e.evaluate globals limits =
      Prod.fst <$> ((Activation.root limits e).result ⟨globals, limits⟩ >>= fun r =>
        .ok (r.1.getD .undefined, r.2)) := rfl
  rw [hvalue]
  cases (Activation.root limits e).result ⟨globals, limits⟩ with
  | error err => rfl
  | ok r => rfl

/-- The text of a source is that of what the visit of its whole expression comes to. -/
theorem evaluateText_eq (globals : Globals) (limits : Limits) {source : Text} {e : Tree}
    (h : parse (embed source) = .ok e) :
    evaluateText globals limits source =
      (fun r => (r.1.getD .undefined).render) <$>
        (Activation.root limits e).result ⟨globals, limits⟩ := by
  rw [evaluateText, evaluate, h, Except.bind_ok, evaluate_eq]
  cases (Activation.root limits e).result ⟨globals, limits⟩ with
  | error err => rfl
  | ok r => rfl

/-- **An evaluation is the visit of the whole expression.** If that comes to a value, so
does the evaluation, all visits complete, and they are as many as the steps counted. -/
theorem visited_of_ok {globals : Globals} {limits : Limits} {e : Tree} {v : Option Value}
    {q : Progress} (h : (Activation.root limits e).result ⟨globals, limits⟩ = .ok (v, q)) :
    e.evaluate globals limits = .ok (v.getD .undefined) ∧
      (visited ⟨globals, limits⟩ e).encard = q.steps ∧
      ∀ a ∈ visited ⟨globals, limits⟩ e, a.Completes ⟨globals, limits⟩ := by
  refine ⟨?value, ?number, ?all⟩
  case value => rw [evaluate_eq, h, Except.map_ok]
  case number =>
    have hsteps := Activation.steps_eq_encard h
    have hzero : ((Activation.root limits e).progress.steps : ENat) = 0 := rfl
    rw [hzero, zero_add] at hsteps
    exact hsteps.symm
  case all =>
    intro a ha
    exact Activation.Reaches.completes ha ⟨v, q, h⟩

end Stencil.Expr.Evaluator
