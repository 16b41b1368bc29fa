import Stencil.Proofs.Expr.Interaction

/-!
# Searching arrays

`find`, `findIndex` and `some` make one search for an item that a callback holds true of, and
`every` for one that it does not. A search calls the callback on one item after another, up to
the first that is found, and fails as the first call that fails (`search_findM?`). `filter`
calls it on all items (`selection_filterM`).

What is said of the calls is all there is: the callback is any function of its arguments and of
the progress so far, so it may as well be one that fails on every other call, and the progress
at the end is the one after these calls in this order.
-/

namespace Stencil.Expr

/-! ## Calls on items -/

/-- The arguments of a call on an item of an array. -/
def itemArguments (array : Value) (item : Value × Nat) : List Value :=
  [item.1, positionValue item.2, array]

/-- Whether a callback holds true of an item. -/
def holds (call : Call) (f : Function) (array : Value) (item : Value × Nat) : Eval Bool := do
  return (← ArrayMethod.onItem call f array item).isTruthy

section Calls

variable (call : Call) (f : Function) (array : Value)

/-- Calls on items with their positions, one after another, succeed with these answers. -/
inductive CallsOn : List (Value × Nat) → List Value → Progress → Progress → Prop
  | nil (p : Progress) : CallsOn [] [] p p
  | cons {item : Value × Nat} {items : List (Value × Nat)} {answer : Value}
      {answers : List Value} {p q r : Progress}
      (first : call f (itemArguments array item) p = .ok (answer, q))
      (rest : CallsOn items answers q r) :
      CallsOn (item :: items) (answer :: answers) p r

/-- How a search among items goes that starts from some progress: it finds the first item
whose answer is as wanted, or none after calls on all items, or a call fails. -/
inductive Search (wanted : Bool) (items : List (Value × Nat)) (p : Progress) :
    Except ExprError (Option (Value × Nat) × Progress) → Prop
  | found {before after : List (Value × Nat)} {item : Value × Nat} {answers : List Value}
      {answer : Value} {q : Progress} (split : items = before ++ item :: after)
      (calls : CallsOn call f array (before ++ [item]) (answers ++ [answer]) p q)
      (unwanted : ∀ v ∈ answers, v.isTruthy = !wanted) (hit : answer.isTruthy = wanted) :
      Search wanted items p (.ok (some item, q))
  | absent {answers : List Value} {q : Progress} (calls : CallsOn call f array items answers p q)
      (unwanted : ∀ v ∈ answers, v.isTruthy = !wanted) : Search wanted items p (.ok (none, q))
  | failed {before after : List (Value × Nat)} {item : Value × Nat} {answers : List Value}
      {q : Progress} {e : ExprError} (split : items = before ++ item :: after)
      (calls : CallsOn call f array before answers p q)
      (unwanted : ∀ v ∈ answers, v.isTruthy = !wanted)
      (fails : call f (itemArguments array item) q = .error e) : Search wanted items p (.error e)

/-- How a selection among items goes: calls on all items succeed, and the items with a true
answer are kept, or a call fails. -/
inductive Selection (items : List (Value × Nat)) (p : Progress) :
    Except ExprError (List (Value × Nat) × Progress) → Prop
  | kept {answers : List Value} {q : Progress} (calls : CallsOn call f array items answers p q) :
      Selection items p
        (.ok (((items.zip answers).filter fun x => x.2.isTruthy).map Prod.fst, q))
  | failed {before after : List (Value × Nat)} {item : Value × Nat} {answers : List Value}
      {q : Progress} {e : ExprError} (split : items = before ++ item :: after)
      (calls : CallsOn call f array before answers p q)
      (fails : call f (itemArguments array item) q = .error e) : Selection items p (.error e)

end Calls

section Runs

variable {call : Call} {f : Function} {array : Value}

/-! ## One call more -/

section Step

variable {item : Value × Nat} {items : List (Value × Nat)} {answer : Value} {p q : Progress}
  (first : call f (itemArguments array item) p = .ok (answer, q))
include first

/-- A search goes on after an item that is not wanted. -/
theorem Search.cons {wanted : Bool} {r : Except ExprError (Option (Value × Nat) × Progress)}
    (hanswer : answer.isTruthy = !wanted) (h : Search call f array wanted items q r) :
    Search call f array wanted (item :: items) p r := by
  have hall : ∀ {answers : List Value}, (∀ v ∈ answers, v.isTruthy = !wanted) →
      ∀ v ∈ answer :: answers, v.isTruthy = !wanted :=
    fun hrest => List.forall_mem_cons.2 ⟨hanswer, hrest⟩
  cases h with
  | @found before after hitItem answers hitAnswer r split calls unwanted hit =>
      have hsplit : item :: items = (item :: before) ++ hitItem :: after :=
        congrArg (item :: ·) split
      have hcalls : CallsOn call f array ((item :: before) ++ [hitItem])
          ((answer :: answers) ++ [hitAnswer]) p r := .cons first calls
      exact .found hsplit hcalls (hall unwanted) hit
  | absent calls unwanted => exact .absent (.cons first calls) (hall unwanted)
  | @failed before after _ _ _ _ split calls unwanted fails =>
      have hsplit : item :: items = (item :: before) ++ _ :: after := congrArg (item :: ·) split
      exact .failed hsplit (.cons first calls) (hall unwanted) fails

/-- A selection goes on after an item, which is kept if its answer is true. -/
theorem Selection.cons {r : Except ExprError (List (Value × Nat) × Progress)}
    (h : Selection call f array items q r) :
    Selection call f array (item :: items) p
      (r.map fun s => (if answer.isTruthy then item :: s.1 else s.1, s.2)) := by
  cases h with
  | @kept answers r calls =>
      have hkept := Selection.kept (.cons first calls)
      rw [List.zip_cons_cons, List.filter_cons] at hkept
      change Selection call f array (item :: items) p (.ok (if answer.isTruthy then _ else _, r))
      cases htruth : answer.isTruthy with
      | true =>
          rw [htruth] at hkept
          exact hkept
      | false =>
          rw [htruth] at hkept
          exact hkept
  | @failed before after _ _ _ _ split calls fails =>
      have hsplit : item :: items = (item :: before) ++ _ :: after := congrArg (item :: ·) split
      exact .failed hsplit (.cons first calls) fails

end Step

/-! ## Whole runs -/

/-- **The search is the one that `findM?` makes.** -/
theorem search_findM? (wanted : Bool) (items : List (Value × Nat)) (p : Progress) :
    Search call f array wanted items p
      ((items.findM? fun item => do
        return (← ArrayMethod.onItem call f array item).isTruthy == wanted) p) := by
  induction items generalizing p with
  | nil => exact .absent (.nil p) (by simp)
  | cons item items ih =>
      change Search call f array wanted (item :: items) p
        ((call f (itemArguments array item) p >>= _) >>= _)
      cases first : call f (itemArguments array item) p with
      | error e => exact .failed (List.nil_append _).symm (.nil p) (by simp) first
      | ok r =>
          obtain ⟨answer, q⟩ := r
          rw [Except.bind_ok]
          change Search call f array wanted (item :: items) p
            ((match answer.isTruthy == wanted with
              | true => pure (some item)
              | false => items.findM? _ : Eval (Option (Value × Nat))) q)
          cases hanswer : answer.isTruthy == wanted with
          | true =>
              have hcalls : CallsOn call f array ([] ++ [item]) ([] ++ [answer]) p q :=
                .cons first (.nil q)
              exact .found (List.nil_append _).symm hcalls (by simp) (eq_of_beq hanswer)
          | false =>
              have hunwanted : answer.isTruthy = !wanted := by
                cases wanted <;> simpa using hanswer
              exact (ih q).cons first hunwanted

/-- The selection that `filterM` makes, with the items that are kept already. -/
theorem selection_filterAuxM (items kept : List (Value × Nat)) (p : Progress) :
    ∃ r, Selection call f array items p r ∧
      List.filterAuxM (holds call f array) items kept p =
        r.map fun s => (s.1.reverse ++ kept, s.2) := by
  induction items generalizing kept p with
  | nil => exact ⟨_, .kept (.nil p), rfl⟩
  | cons item items ih =>
      cases first : call f (itemArguments array item) p with
      | error e =>
          refine ⟨_, .failed (List.nil_append _).symm (.nil p) first, ?_⟩
          change (call f (itemArguments array item) p >>= _) >>= _ = _
          rw [first]
          rfl
      | ok r =>
          obtain ⟨answer, q⟩ := r
          obtain ⟨r, hr, heq⟩ := ih (if answer.isTruthy then item :: kept else kept) q
          refine ⟨_, hr.cons first, ?_⟩
          change (call f (itemArguments array item) p >>= _) >>= _ = _
          rw [first, Except.bind_ok]
          change List.filterAuxM (holds call f array) items (cond answer.isTruthy _ _) q = _
          rw [Bool.cond_eq_ite, heq]
          cases r with
          | error e => rfl
          | ok s =>
              cases answer.isTruthy with
              | true =>
                  change Except.ok (s.1.reverse ++ item :: kept, s.2) =
                    Except.ok ((item :: s.1).reverse ++ kept, s.2)
                  rw [List.reverse_cons, List.append_assoc, List.singleton_append]
              | false => rfl

/-- **The selection is the one that `filterM` makes.** -/
theorem selection_filterM (items : List (Value × Nat)) (p : Progress) :
    Selection call f array items p (items.filterM (holds call f array) p) := by
  obtain ⟨r, hr, heq⟩ : ∃ r, Selection call f array items p r ∧ _ :=
    selection_filterAuxM items [] p
  have hreverse : items.filterM (holds call f array) p = r := by
    change List.filterAuxM (holds call f array) items [] p >>= _ = r
    rw [heq]
    cases r with
    | error e => rfl
    | ok s =>
        change Except.ok ((s.1.reverse ++ []).reverse, s.2) = Except.ok s
        rw [List.append_nil, List.reverse_reverse]
  rw [hreverse]
  exact hr

end Runs

/-! ## The methods -/

theorem bind_pure_apply {α β : Type} (x : Eval α) (g : α → β) (p : Progress) :
    (x >>= fun a => pure (g a)) p = (x p).map fun s => (g s.1, s.2) := by
  rw [Eval.bind_apply]
  cases x p <;> rfl

/-- **The searching methods agree with their definitions.** `find`, `findIndex` and `some` make
one search for an item that the callback holds true of, `every` makes one for an item that it
does not, and `filter` keeps the items that it holds true of. The positions count from zero, and
each call gets the item, its position and the array. Where a call fails, so does the method. -/
theorem search_methods (call : Call) (id : Identity) (items : List Value) (f : Function)
    (rest : List Value) (span : Span) (p : Progress) :
    (∃ r, Search call f (.array id items) true items.zipIdx p r ∧
      ArrayMethod.find.apply call id items (.function f :: rest) span p =
        r.map (fun s => ((s.1.map Prod.fst).getD .undefined, s.2)) ∧
      ArrayMethod.findIndex.apply call id items (.function f :: rest) span p =
        r.map (fun s =>
          ((s.1.map fun item => positionValue item.2).getD (.number (Number.ofInt (-1))), s.2)) ∧
      ArrayMethod.any.apply call id items (.function f :: rest) span p =
        r.map (fun s => (.bool s.1.isSome, s.2))) ∧
    (∃ r, Search call f (.array id items) false items.zipIdx p r ∧
      ArrayMethod.every.apply call id items (.function f :: rest) span p =
        r.map (fun s => (.bool s.1.isNone, s.2))) ∧
    ∃ r, Selection call f (.array id items) items.zipIdx p r ∧
      ArrayMethod.filter.apply call id items (.function f :: rest) span p =
        r >>= fun s => Eval.newArray (s.1.map Prod.fst) s.2 := by
  refine ⟨⟨_, search_findM? true items.zipIdx p, ?_, ?_, ?_⟩,
    ⟨_, search_findM? false items.zipIdx p, ?_⟩, ⟨_, selection_filterM items.zipIdx p, rfl⟩⟩
  · exact bind_pure_apply (ArrayMethod.firstItem? call f (.array id items) true items)
      (fun found => (found.map Prod.fst).getD .undefined) p
  · have hposition : ∀ found : Option (Value × Nat), foundPosition (found.map Prod.snd) =
        (found.map fun item => positionValue item.2).getD (.number (Number.ofInt (-1))) := by
      intro found
      cases found <;> rfl
    simp only [← hposition]
    exact bind_pure_apply (ArrayMethod.firstItem? call f (.array id items) true items)
      (fun found => foundPosition (found.map Prod.snd)) p
  · exact bind_pure_apply (ArrayMethod.firstItem? call f (.array id items) true items)
      (fun found => Value.bool found.isSome) p
  · exact bind_pure_apply (ArrayMethod.firstItem? call f (.array id items) false items)
      (fun found => Value.bool found.isNone) p

end Stencil.Expr
