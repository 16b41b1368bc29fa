import Stencil.Proofs.Expr.Interaction
import Stencil.Proofs.Sorting
import Mathlib.Data.Char
import Mathlib.Data.List.Lex

/-!
# Sorting arrays

`sort` runs its comparison on pairs of items, one pair after another, and gives up where the
comparison fails. If it never fails, the result is the array sorted by halves as the answers
say, so nothing is lost whatever they are, and answers that come from a total preorder sort
by it, stably. Without a comparison the items stand in the order of their texts, with
undefined behind.

`Compares` is the invariant: an evaluation that makes comparisons, and comes to something
only if all of them succeed. It holds of merging and of sorting (`compares_mergeM`,
`compares_mergeSortM`).
-/

namespace Stencil.Expr

/-! ## Evaluations that compare -/

section Comparisons

variable {α β γ : Type}

/-- Compares pairs one after another, whatever the answers. -/
def compareAll (after : α → α → Eval Bool) (pairs : List (α × α)) : Eval Unit :=
  pairs.forM fun c => discard (after c.1 c.2)

/-- The comparison has given this answer, at some time. -/
def Answers (after : α → α → Eval Bool) (answer : Bool) (x y : α) : Prop :=
  ∃ p q, after x y p = .ok (answer, q)

/-- The evaluation compares pairs of some items, one after another. It fails as the first
comparison that fails, and otherwise comes to something that is as said. -/
def Compares (after : α → α → Eval Bool) (among : List α) (spec : β → Prop) (x : Eval β) : Prop :=
  ∀ p, ∃ pairs : List (α × α), (∀ c ∈ pairs, c.1 ∈ among ∧ c.2 ∈ among) ∧
    ((∃ e, compareAll after pairs p = .error e ∧ x p = .error e) ∨
      ∃ b q, compareAll after pairs p = .ok ((), q) ∧ x p = .ok (b, q) ∧ spec b)

theorem discard_apply (x : Eval α) (p : Progress) :
    discard x p = (fun r => ((), r.2)) <$> x p := by
  change (x >>= fun _ => pure ()) p = _
  rw [Eval.bind_apply]
  cases x p <;> rfl

theorem compareAll_append (after : α → α → Eval Bool) (pairs rest : List (α × α))
    (p : Progress) :
    compareAll after (pairs ++ rest) p =
      compareAll after pairs p >>= fun r => compareAll after rest r.2 := by
  unfold compareAll
  rw [List.forM_eq_forM, List.forM_append]
  rfl

namespace Compares

variable {after : α → α → Eval Bool} {among : List α} {spec : β → Prop} {spec' : γ → Prop}

theorem pure {b : β} (h : spec b) : Compares after among spec (pure b) :=
  fun p => ⟨[], by simp, .inr ⟨b, p, rfl, rfl, h⟩⟩

/-- A comparison compares one pair. -/
theorem compare {x y : α} (hx : x ∈ among) (hy : y ∈ among) :
    Compares after among (fun answer => Answers after answer x y) (after x y) := by
  intro p
  refine ⟨[(x, y)], by simp [hx, hy], ?_⟩
  have hall : compareAll after [(x, y)] p = (fun r => ((), r.2)) <$> after x y p := by
    rw [← discard_apply, compareAll, List.forM_eq_forM, List.forM_cons, List.forM_nil,
      Eval.bind_apply]
    cases discard (after x y) p <;> rfl
  rw [hall]
  cases hanswer : after x y p with
  | error e => exact .inl ⟨e, rfl, rfl⟩
  | ok r => exact .inr ⟨r.1, r.2, rfl, rfl, p, r.2, hanswer⟩

/-- **Evaluations that compare may go on with such evaluations.** -/
theorem bind {x : Eval β} {f : β → Eval γ} (hx : Compares after among spec x)
    (hf : ∀ b, spec b → Compares after among spec' (f b)) :
    Compares after among spec' (x >>= f) := by
  intro p
  obtain ⟨pairs, hpairs, ⟨e, hall, hfails⟩ | ⟨b, q, hall, hok, hb⟩⟩ := hx p
  · refine ⟨pairs, hpairs, .inl ⟨e, hall, ?_⟩⟩
    rw [Eval.bind_apply, hfails, Except.bind_error]
  · obtain ⟨rest, hrest, houtcome⟩ := hf b hb q
    refine ⟨pairs ++ rest, fun c hc => ?_, ?_⟩
    · exact (List.mem_append.1 hc).elim (hpairs c) (hrest c)
    · rw [compareAll_append, hall, Eval.bind_apply, hok, Except.bind_ok, Except.bind_ok]
      exact houtcome

theorem imp {spec' : β → Prop} {x : Eval β} (h : Compares after among spec x)
    (himp : ∀ b, spec b → spec' b) : Compares after among spec' x := by
  intro p
  obtain ⟨pairs, hpairs, hfails | ⟨b, q, hall, hok, hb⟩⟩ := h p
  · exact ⟨pairs, hpairs, .inl hfails⟩
  · exact ⟨pairs, hpairs, .inr ⟨b, q, hall, hok, himp b hb⟩⟩

end Compares

/-! ## Merging and sorting compare -/

variable {after : α → α → Eval Bool} {among : List α}

/-- **Merging compares**, and merges as the answers say. -/
theorem compares_mergeM {xs ys : List α} (hxs : xs ⊆ among) (hys : ys ⊆ among) :
    Compares after among (Merged (Answers after true) (Answers after false) xs ys)
      (mergeM after xs ys) := by
  fun_induction mergeM after xs ys with
  | case1 ys => exact .pure (.noLeft ys)
  | case2 x xs => exact .pure (.noRight (x :: xs))
  | case3 x xs y ys ihRight ihLeft =>
      rw [List.cons_subset] at hxs hys
      refine (Compares.compare hxs.1 hys.1).bind fun answer hanswer => ?_
      cases answer with
      | true =>
          exact (ihRight (List.cons_subset.2 hxs) hys.2).bind fun zs hzs =>
            .pure (.right hanswer hzs)
      | false =>
          exact (ihLeft hxs.2 (List.cons_subset.2 hys)).bind fun zs hzs =>
            .pure (.left hanswer hzs)

/-- **Sorting compares**, and sorts as the answers say. -/
theorem compares_mergeSortM {xs : List α} (hxs : xs ⊆ among) :
    Compares after among (MergeSorted (Answers after true) (Answers after false) xs)
      (mergeSortM after xs) := by
  fun_induction mergeSortM after xs with
  | case1 xs hshort => exact .pure (.short hshort)
  | case2 xs hlong ihLeft ihRight =>
      have htake : xs.take (xs.length / 2) ⊆ among := List.Subset.trans (List.take_subset _ xs) hxs
      have hdrop : xs.drop (xs.length / 2) ⊆ among := List.Subset.trans (List.drop_subset _ xs) hxs
      refine (ihLeft htake).bind fun ls hls => (ihRight hdrop).bind fun rs hrs => ?_
      have hlsIn : ls ⊆ among := List.Subset.trans hls.perm.subset htake
      have hrsIn : rs ⊆ among := List.Subset.trans hrs.perm.subset hdrop
      exact (compares_mergeM hlsIn hrsIn).imp fun zs hzs => .halves hls hrs hzs

end Comparisons

/-! ## The default order -/

/-- What the default order looks at: nothing of undefined, of anything else its text. -/
def sortText? (v : Value) : Option Text :=
  if v matches .undefined then none else some v.toText

/-- The order of texts by their characters, with undefined behind all of them. -/
def byText (v w : Value) : Bool :=
  match sortText? v, sortText? w with
  | _, none => true
  | none, some _ => false
  | some s, some t => s ≤ t

theorem textAfter_eq (v w : Value) : textAfter v w = !byText v w := by
  have hnot : ∀ s t : Text, decide (t < s) = !decide (s ≤ t) := fun s t => by
    simp only [← not_le, decide_not]
  cases v <;> cases w <;> first | rfl | exact hnot _ _

theorem totalPreorderOn_byText (items : List Value) : TotalPreorderOn byText items where
  total v _ w _ := by
    unfold byText
    cases sortText? v with
    | none => cases sortText? w <;> simp
    | some s =>
        cases sortText? w with
        | none => simp
        | some t => simpa using le_total s t
  trans u _ v _ w _ := by
    unfold byText
    cases sortText? u <;> cases sortText? v <;> cases sortText? w <;> simp
    exact le_trans

/-! ## The method -/

/-- Calls a function on pairs one after another, whatever its answers. -/
def callEach (call : Call) (f : Function) (pairs : List (Value × Value)) : Eval Unit :=
  pairs.forM fun c => discard (call f [c.1, c.2])

/-- The function answers a positive number exactly for two values out of order. -/
def TellsOrder (call : Call) (f : Function) (le : Value → Value → Bool) (v w : Value) : Prop :=
  ∀ r p q, call f [v, w] p = .ok (r, q) → (Number.ofNat 0 < r.toNumber ↔ ¬ le v w)

theorem compareAll_callback (call : Call) (f : Function) (pairs : List (Value × Value)) :
    compareAll (ArrayMethod.comparesAfter call (some f)) pairs = callEach call f pairs := by
  have heach : ∀ v w, discard (ArrayMethod.comparesAfter call (some f) v w) =
      discard (call f [v, w]) := by
    intro v w
    funext p
    rw [discard_apply, discard_apply]
    change _ <$> (call f [v, w] >>= fun r => pure _) p = _
    rw [Eval.bind_apply]
    cases call f [v, w] p <;> rfl
  unfold compareAll callEach
  simp only [heach]

/-- The default comparison has no effect. -/
theorem compareAll_default (call : Call) (pairs : List (Value × Value)) (p : Progress) :
    compareAll (ArrayMethod.comparesAfter call none) pairs p = .ok ((), p) := by
  induction pairs with
  | nil => rfl
  | cons c pairs ih => exact ih

theorem TellsOrder.answers {call : Call} {f : Function} {le : Value → Value → Bool}
    {v w : Value} (h : TellsOrder call f le v w) {answer : Bool}
    (hanswer : Answers (ArrayMethod.comparesAfter call (some f)) answer v w) :
    answer = !le v w := by
  obtain ⟨p, q, hcompared⟩ := hanswer
  change (call f [v, w] >>= fun r => pure _) p = _ at hcompared
  rw [Eval.bind_apply] at hcompared
  cases hcalled : call f [v, w] p with
  | error e => rw [hcalled] at hcompared; cases hcompared
  | ok r =>
      rw [hcalled] at hcompared
      cases hcompared
      rw [decide_eq_decide.2 (h r.1 p r.2 hcalled), decide_not, Bool.decide_eq_true]

/-- A sort whose comparisons come from a total preorder is stable. -/
theorem stablySorted_of_answers {after : Value → Value → Eval Bool} {le : Value → Value → Bool}
    {items out : List Value} (hle : TotalPreorderOn le items)
    (hanswers : ∀ v ∈ items, ∀ w ∈ items, ∀ answer, Answers after answer v w → answer = !le v w)
    (h : MergeSorted (Answers after true) (Answers after false) items out) :
    StablySorted le items out := by
  refine (h.mono (fun v hv w hw ha => ?_) fun v hv w hw ha => ?_).stable hle
  · simpa using hanswers v hv w hw true ha
  · simpa using hanswers v hv w hw false ha

/-! ## A comparator with ties -/

/-- The value of `(a, b) => a - b`. -/
def difference : Function :=
  .closure (.made 0) [['a'], ['b']]
    (.binary ⟨10, 15⟩ .sub (.name ⟨10, 11⟩ ['a']) (.name ⟨14, 15⟩ ['b'])) []

def byNumber (v w : Value) : Bool :=
  v.toNumber ≤ w.toNumber

/-- How an expression without parameters around it calls a function. -/
def outerCall : Call :=
  Evaluator.callWith (Evaluator.enter {} (Evaluator.run ⟨[], {}⟩ 1000001) 0 ⟨0, 0⟩) ⟨0, 0⟩
    Evaluator.methodAllowance

/-- One, and two zeros that are told apart by their signs only. -/
def oneAndZeros : List Value :=
  [.number (Number.ofNat 1), .number (Number.ofNat 0), .number (-Number.ofNat 0)]

section Difference

variable (setting : Evaluator.Setting) {nesting depth : Nat} {p : Progress}

/-- What a visit that succeeds has done. -/
theorem node_of_run_ok {frames : Frames} {e : Tree} {r : Option Value × Progress}
    (h : Evaluator.run setting nesting frames depth e p = .ok r) :
    ∃ n q, Evaluator.node setting (Evaluator.run setting n) frames depth e q = .ok r := by
  cases nesting with
  | zero => cases h
  | succ n =>
      obtain ⟨s, -, hnode⟩ := Except.bind_eq_ok_iff.1 h
      exact ⟨n, s.2, hnode⟩

theorem value_name {frames : Frames} {span : Span} {t : Text} {v : Value} {r : Value × Progress}
    (hlookup : Evaluator.lookup? setting.globals frames t = some v)
    (h : Evaluator.value (Evaluator.run setting nesting) frames depth (.name span t) p = .ok r) :
    r.1 = v := by
  obtain ⟨s, hrun, hr⟩ := Except.bind_eq_ok_iff.1 h
  obtain ⟨n, q, hnode⟩ := node_of_run_ok setting hrun
  rw [Evaluator.node, hlookup] at hnode
  cases hnode
  cases hr
  rfl

/-- If the call succeeds, it answers the difference of its two arguments as numbers. -/
theorem call_difference {allowance : Nat} {span : Span} {v w r : Value} {q : Progress}
    (h : Evaluator.callWith (Evaluator.enter setting.limits (Evaluator.run setting nesting) depth
      span) span allowance difference [v, w] p = .ok (r, q)) :
    r = .number (v.toNumber - w.toNumber) := by
  have henter : Evaluator.enter setting.limits (Evaluator.run setting nesting) depth span
      [['a'], ['b']] (.binary ⟨10, 15⟩ .sub (.name ⟨10, 11⟩ ['a']) (.name ⟨14, 15⟩ ['b'])) []
      [v, w] p = .ok (r, q) := by
    cases allowance <;> exact h
  unfold Evaluator.enter at henter
  split at henter
  case isTrue => cases henter
  case isFalse =>
    obtain ⟨s, hrun, hs⟩ := Except.bind_eq_ok_iff.1 henter
    obtain ⟨n, p', hnode⟩ := node_of_run_ok setting hrun
    rw [Evaluator.node] at hnode
    obtain ⟨left, hleft, hrest⟩ := Except.bind_eq_ok_iff.1 hnode
    obtain ⟨right, hright, hdone⟩ := Except.bind_eq_ok_iff.1 hrest
    have hv : left.1 = v := value_name setting rfl hleft
    have hw : right.1 = w := value_name setting rfl hright
    cases hdone
    cases hs
    show Value.number (left.1.toNumber - right.1.toNumber) = _
    rw [hv, hw]

end Difference

/-! ## Sorting -/

/-- **Sorting is stable and loses nothing.** With a comparator it is the calls of the
comparator on some pairs of items, one after another: it fails as the first of them that
fails, and otherwise gives all the items, in the order and with the ties of any total
preorder that the comparator tells. Without one, the items are in the order of their texts. -/
theorem sort_stable (call : Call) (id : Identity) (items : List Value) (span : Span)
    (p : Progress) :
    (∀ f rest, ∃ pairs : List (Value × Value), (∀ c ∈ pairs, c.1 ∈ items ∧ c.2 ∈ items) ∧
      ((∃ e, callEach call f pairs p = .error e ∧
          ArrayMethod.sort.apply call id items (.function f :: rest) span p = .error e) ∨
        ∃ out q, callEach call f pairs p = .ok ((), q) ∧
          ArrayMethod.sort.apply call id items (.function f :: rest) span p =
            Eval.newArray out q ∧
          out.Perm items ∧
          ∀ le, TotalPreorderOn le items →
            (∀ v ∈ items, ∀ w ∈ items, TellsOrder call f le v w) → StablySorted le items out)) ∧
    ∀ args, (∀ f rest, args ≠ .function f :: rest) → ∃ out,
      ArrayMethod.sort.apply call id items args span p = Eval.newArray out p ∧
        StablySorted byText items out := by
  constructor
  · intro f rest
    have hcompares : Compares (ArrayMethod.comparesAfter call (some f)) items _ _ :=
      compares_mergeSortM (List.Subset.refl items)
    obtain ⟨pairs, hpairs, houtcome⟩ := hcompares p
    rw [compareAll_callback] at houtcome
    refine ⟨pairs, hpairs, houtcome.imp ?_ ?_⟩
    · rintro ⟨e, hcalls, hfails⟩
      refine ⟨e, hcalls, ?_⟩
      change (mergeSortM (ArrayMethod.comparesAfter call (some f)) items >>= Eval.newArray) p = _
      rw [Eval.bind_apply, hfails, Except.bind_error]
    · rintro ⟨out, q, hcalls, hok, hsorted⟩
      refine ⟨out, q, hcalls, ?_, hsorted.perm, fun le hle htells => ?_⟩
      · change (mergeSortM (ArrayMethod.comparesAfter call (some f)) items >>= Eval.newArray) p = _
        rw [Eval.bind_apply, hok, Except.bind_ok]
      · exact stablySorted_of_answers hle (fun v hv w hw _ ha => (htells v hv w hw).answers ha)
          hsorted
  · intro args hargs
    have hsort : ArrayMethod.sort.apply call id items args span =
        mergeSortM (ArrayMethod.comparesAfter call none) items >>= Eval.newArray := by
      match args, hargs with
      | [], _ => rfl
      | .function f :: rest, hargs => exact absurd rfl (hargs f rest)
      | .undefined :: _, _ | .null :: _, _ | .bool _ :: _, _ | .number _ :: _, _ => rfl
      | .string _ :: _, _ | .array .. :: _, _ | .object .. :: _, _ => rfl
    have hcompares : Compares (ArrayMethod.comparesAfter call none) items _ _ :=
      compares_mergeSortM (List.Subset.refl items)
    obtain ⟨pairs, -, ⟨e, hcompared, -⟩ | ⟨out, q, hcompared, hok, hsorted⟩⟩ := hcompares p
    · rw [compareAll_default] at hcompared
      cases hcompared
    · rw [compareAll_default] at hcompared
      cases hcompared
      refine ⟨out, by rw [hsort, Eval.bind_apply, hok, Except.bind_ok], ?_⟩
      refine stablySorted_of_answers (totalPreorderOn_byText items) ?_ hsorted
      rintro v - w - answer ⟨_, _, hanswer⟩
      cases hanswer
      exact textAfter_eq v w

/-- The difference tells the order of numbers, in which both zeros are tied. They stay as they
are. -/
theorem sort_stable_difference :
    TotalPreorderOn byNumber oneAndZeros ∧
    (∀ v ∈ oneAndZeros, ∀ w ∈ oneAndZeros, TellsOrder outerCall difference byNumber v w) ∧
    ∃ out q, ArrayMethod.sort.apply outerCall (.made 1) oneAndZeros [.function difference] ⟨0, 0⟩
        {} = Eval.newArray out q ∧
      StablySorted byNumber oneAndZeros out ∧
      out.filter (tied byNumber (.number (Number.ofNat 0))) =
        [.number (Number.ofNat 0), .number (-Number.ofNat 0)] := by
  have horder : TotalPreorderOn byNumber oneAndZeros := by
    constructor
    · decide +kernel
    · decide +kernel
  have hsign : ∀ v ∈ oneAndZeros, ∀ w ∈ oneAndZeros,
      (Number.ofNat 0 < v.toNumber - w.toNumber ↔ ¬ byNumber v w) := by
    decide +kernel
  have htells : ∀ v ∈ oneAndZeros, ∀ w ∈ oneAndZeros,
      TellsOrder outerCall difference byNumber v w := by
    intro v hv w hw r p q hcalled
    rw [call_difference ⟨[], {}⟩ hcalled]
    exact hsign v hv w hw
  have hends : (ArrayMethod.sort.apply outerCall (.made 1) oneAndZeros [.function difference]
      ⟨0, 0⟩ {}).toOption.isSome = true := by
    decide +kernel
  have hzeros : oneAndZeros.filter (tied byNumber (.number (Number.ofNat 0))) =
      [.number (Number.ofNat 0), .number (-Number.ofNat 0)] := by
    rw [oneAndZeros, List.filter_cons_of_neg (by decide +kernel),
      List.filter_cons_of_pos (by decide +kernel), List.filter_cons_of_pos (by decide +kernel),
      List.filter_nil]
  refine ⟨horder, htells, ?_⟩
  obtain ⟨pairs, -, houtcome⟩ :=
    (sort_stable outerCall (.made 1) oneAndZeros ⟨0, 0⟩ {}).1 difference []
  rcases houtcome with ⟨e, -, hfails⟩ | ⟨out, q, -, hsorts, -, hstable⟩
  · rw [hfails] at hends
    cases hends
  · have hsorted := hstable byNumber horder htells
    refine ⟨out, q, hsorts, hsorted, ?_⟩
    rw [hsorted.stable _ (List.mem_cons_of_mem _ List.mem_cons_self), hzeros]

end Stencil.Expr
