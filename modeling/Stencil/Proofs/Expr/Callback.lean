import Stencil.Proofs.Expr.Bounded

/-!
# Methods that call methods

A call of a method takes no step, and may call a method that was handed to it, which may be
handed another one. Between two steps this comes to an end because methods come out of their
receivers: a method that is called back is an argument, and what it is handed are items of
the receiver, or what such calls gave. The rank of a function says how deep methods nest in
its receiver, and the weight of a call is made of the ranks of the function and of the first
two arguments, where an argument weighs a little more than what is called. Every call that
a method makes weighs less than the call of the method, unless a step was taken
(`settles_applyMethod`); in particular the result of a call weighs less than the call, so
that it may be the start of the next.
-/

namespace Stencil.Expr

open Evaluator

/-! ## Ranks -/

mutual

/-- How deep methods nest in a value that is a function. -/
def Value.rank : Value → Nat
  | .function f => f.rank
  | _ => 0

/-- How deep methods nest in a function, which counts itself. -/
def Function.rank : Function → Nat
  | .method m => m.rank
  | _ => 1

/-- How deep methods nest in a method, which counts itself. -/
def Method.rank : Method → Nat
  | .ofArray _ _ items => itemsRank items + 1
  | _ => 1

/-- How deep methods nest in the items of a receiver. -/
def itemsRank : List Value → Nat
  | [] => 0
  | v :: vs => max v.rank (itemsRank vs)

end

theorem rank_le_itemsRank {v : Value} {items : List Value} (h : v ∈ items) :
    v.rank ≤ itemsRank items := by
  induction items with
  | nil => cases h
  | cons w items ih =>
      rcases List.mem_cons.1 h with rfl | h
      · exact Nat.le_max_left _ _
      · exact Nat.le_trans (ih h) (Nat.le_max_right _ _)

theorem rank_getD_le {items : List Value} {found : Option Value} (h : ∀ v ∈ found, v ∈ items) :
    (found.getD .undefined).rank ≤ itemsRank items := by
  cases found with
  | none => exact Nat.zero_le _
  | some v => exact rank_le_itemsRank (h v rfl)

theorem rank_eq_zero {v : Value} (h : v.isFunction = false) : v.rank = 0 := by
  cases v with
  | function f => cases h
  | _ => rfl

theorem Function.one_le_rank (f : Function) : 1 ≤ f.rank := by
  cases f with
  | closure | helper => exact Nat.le_refl 1
  | method m => cases m <;> exact Nat.le_add_left 1 _

/-- What a call weighs. The first argument weighs more than what is called, since it may be
called next and be handed something itself; the second weighs still more, since `reduce`
makes a first argument of it. -/
def weight (f : Function) (args : List Value) : Nat :=
  max (3 * f.rank) (max (3 * (argument args 0).rank + 1) (3 * (argument args 1).rank + 2))

theorem weight_lt {f : Function} {args : List Value} {bound : Nat} (hf : 3 * f.rank < bound)
    (hfirst : 3 * (argument args 0).rank + 1 < bound)
    (hsecond : 3 * (argument args 1).rank + 2 < bound) : weight f args < bound :=
  Nat.max_lt.2 ⟨hf, Nat.max_lt.2 ⟨hfirst, hsecond⟩⟩

theorem three_le_weight (f : Function) (args : List Value) : 3 ≤ weight f args :=
  Nat.le_trans (Nat.mul_le_mul_left 3 f.one_le_rank) (Nat.le_max_left _ _)

/-! ## Time -/

/-- No step was taken, or some within a budget. -/
def Later (budget : Nat) (p q : Progress) : Prop :=
  q.steps = p.steps ∨ p.steps < q.steps ∧ q.steps ≤ budget

/-- No step was taken and something weighs less than a bound, or steps were taken. -/
def Lighter (budget : Nat) (p : Progress) (bound weight : Nat) (q : Progress) : Prop :=
  q.steps = p.steps ∧ weight < bound ∨ p.steps < q.steps ∧ q.steps ≤ budget

section Time

variable {budget bound weight weight' : Nat} {p q : Progress}

theorem Later.refl (budget : Nat) (p : Progress) : Later budget p p := .inl rfl

theorem Later.le (h : Later budget p q) : p.steps ≤ q.steps :=
  h.elim (fun heq => Nat.le_of_eq heq.symm) fun hlt => Nat.le_of_lt hlt.1

theorem Later.lighter (h : Later budget p q) (hlt : weight < bound) :
    Lighter budget p bound weight q :=
  h.imp_left fun heq => ⟨heq, hlt⟩

theorem Lighter.later (h : Lighter budget p bound weight q) : Later budget p q :=
  h.imp_left And.left

theorem Lighter.mono (h : Lighter budget p bound weight q)
    (hle : weight < bound → weight' < bound) : Lighter budget p bound weight' q :=
  h.imp_left fun hlt => ⟨hlt.1, hle hlt.2⟩

theorem Later.trans {q' : Progress} (h : Later budget p q) (h' : Later budget q q') :
    Later budget p q' := by
  unfold Later at *
  omega

theorem Lighter.trans {q' : Progress} (h : Lighter budget p bound weight q)
    (h' : Lighter budget q weight weight' q') : Lighter budget p bound (weight' + 1) q' := by
  unfold Lighter at *
  omega

end Time

/-- **Calls cannot get lighter for ever, or later.** What holds of a call if it holds of all
that are lighter or later holds of every call. -/
theorem Lighter.induction (budget : Nat) {holds : Progress → Function → List Value → Prop}
    (step : ∀ p f args, (∀ q f' args', Lighter budget p (weight f args) (weight f' args') q →
      holds q f' args') → holds p f args) (p : Progress) (f : Function) (args : List Value) :
    holds p f args :=
  step p f args fun q f' args' _ => Lighter.induction budget step q f' args'
termination_by (budget - p.steps, weight f args)
decreasing_by
  rcases ‹Lighter budget p _ _ q› with ⟨hsame, hlt⟩ | ⟨hlt, hle⟩
  · rw [hsame]
    exact Prod.Lex.right _ hlt
  · exact Prod.Lex.left _ _ (by omega)

theorem Settles.later {ι α : Type} {room : ι → Nat} {budget : Nat} {p q : Progress} {x : Eval α}
    {F : ι → Eval α} (h : Settles room (fun _ => Later budget q) x F q) (hq : Later budget p q) :
    Settles room (fun _ => Later budget p) x F q :=
  h.mono fun _ _ hlater => hq.trans hlater

/-- What gives no function weighs less than any call. -/
theorem Eval.Plain.settles {ι : Type} {room : ι → Nat} {budget bound : Nat} {p q : Progress}
    {x : Eval Value} (hx : x.Plain) (hq : Later budget p q) (hbound : 0 < bound) :
    Settles room (fun v q' => Lighter budget p bound (3 * v.rank) q') x (fun _ => x) q :=
  .const fun v q' hok => by
    rw [rank_eq_zero (hx.gives q v q' hok)]
    refine Later.lighter ?_ hbound
    unfold Later at *
    rw [hx.steady q v q' hok]
    exact hq

/-! ## Methods with a callback -/

section Callbacks

variable {ι : Type} {room : ι → Nat} {budget bound : Nat} {p q : Progress} {x : Call}
  {call : ι → Call}

theorem settles_callback {args : List Value} (span : Span)
    (h : 3 * (argument args 0).rank < bound) :
    Settles room (fun f q => 3 * f.rank < bound ∧ Later budget p q) (callback args span)
      (fun _ => callback args span) p := by
  unfold callback
  split
  · exact .pure ⟨h, .refl budget p⟩
  · exact .fail span _
  · exact .fail span _

-- `bound` is what the call of the method weighs, made at the progress `p`
variable (hcalls : ∀ q f args, Lighter budget p bound (weight f args) q →
    Settles room (fun v q' => Lighter budget p bound (3 * v.rank + 1) q') (x f args)
      (fun i => call i f args) q)
include hcalls

section Items

variable {f : Function} (array : Value) {items : List Value} (hf : 3 * f.rank < bound)
  (hitems : 3 * itemsRank items + 2 < bound)
include hf hitems

theorem settles_onItem {item : Value × Nat} (hitem : item ∈ items.zipIdx)
    (hq : Later budget p q) :
    Settles room (fun _ => Later budget p) (ArrayMethod.onItem x f array item)
      (fun i => ArrayMethod.onItem (call i) f array item) q := by
  have hrank := rank_le_itemsRank (List.fst_mem_of_mem_zipIdx hitem)
  have hweight : weight f [item.1, positionValue item.2, array] < bound := by
    refine weight_lt hf ?_ (Nat.lt_of_le_of_lt (Nat.le_add_left 2 _) hitems)
    change 3 * item.1.rank + 1 < bound
    omega
  exact (hcalls q f _ (hq.lighter hweight)).mono fun v q' hv => hv.later

theorem settles_mapItems (hq : Later budget p q) :
    Settles room (fun _ => Later budget p) (ArrayMethod.mapItems x f array items)
      (fun i => ArrayMethod.mapItems (call i) f array items) q :=
  Settles.mapM (fun _ hitem _ => settles_onItem hcalls array hf hitems hitem) hq

theorem settles_firstItem? (wanted : Bool) (hq : Later budget p q) :
    Settles room (fun found q => (∀ item ∈ found, item.1 ∈ items) ∧ Later budget p q)
      (ArrayMethod.firstItem? x f array wanted items)
      (fun i => ArrayMethod.firstItem? (call i) f array wanted items) q := by
  refine (Settles.findM? (fun item hitem q' hq' => ?_) hq).mono fun found q' hfound =>
    ⟨fun item hitem => List.fst_mem_of_mem_zipIdx (hfound.1 item hitem), hfound.2⟩
  exact (settles_onItem hcalls array hf hitems hitem hq').bind fun v q'' hq'' => .pure hq''

/-- **What is handed on from call to call weighs less each time.** -/
theorem settles_fold {start : Value} (position : Nat) (hstart : 3 * start.rank + 1 < bound)
    (hq : Later budget p q) :
    Settles room (fun v q => Lighter budget p bound (3 * v.rank) q)
      (ArrayMethod.fold x f array start position items)
      (fun i => ArrayMethod.fold (call i) f array start position items) q := by
  have hfold : Settles room (fun acc q => Lighter budget p bound (3 * acc.rank + 1) q)
      (ArrayMethod.fold x f array start position items)
      (fun i => ArrayMethod.fold (call i) f array start position items) q := by
    refine Settles.foldlM (fun acc item hitem q' hacc => ?_) (hq.lighter hstart)
    have hrank := rank_le_itemsRank (List.fst_mem_of_mem_zipIdx hitem)
    refine hcalls q' f _ (hacc.mono fun hlt => weight_lt hf hlt ?_)
    change 3 * item.1.rank + 2 < bound
    omega
  exact hfold.mono fun v q' hv => hv.mono Nat.lt_of_succ_lt

end Items

theorem settles_sorted {compare : Option Function} {items : List Value}
    (hcompare : ∀ f ∈ compare, 3 * f.rank < bound) (hitems : 3 * itemsRank items + 2 < bound)
    (hq : Later budget p q) :
    Settles room (fun _ => Later budget p)
      (mergeSortM (ArrayMethod.comparesAfter x compare) items)
      (fun i => mergeSortM (ArrayMethod.comparesAfter (call i) compare) items) q := by
  have hafter : ∀ v w : Value, v.rank ≤ itemsRank items → w.rank ≤ itemsRank items →
      ∀ q', Later budget p q' →
        Settles room (fun _ => Later budget p) (ArrayMethod.comparesAfter x compare v w)
          (fun i => ArrayMethod.comparesAfter (call i) compare v w) q' := by
    intro v w hv hw q' hq'
    cases compare with
    | none => exact .pure hq'
    | some f =>
        have hweight : weight f [v, w] < bound := by
          refine weight_lt (hcompare f rfl) ?_ ?_
          · change 3 * v.rank + 1 < bound
            omega
          · change 3 * w.rank + 2 < bound
            omega
        exact (hcalls q' f [v, w] (hq'.lighter hweight)).bind fun r q'' hr => .pure hr.later
  exact (Settles.mergeSortM hafter (fun v hv => rank_le_itemsRank hv) hq).mono fun _ _ h => h.2

/-- **Methods of arrays settle if the lighter calls that they make do.** -/
theorem settles_arrayMethod (id : Identity) {items args : List Value} (span : Span)
    (m : ArrayMethod) (hitems : 3 * itemsRank items + 2 < bound)
    (hfirst : 3 * (argument args 0).rank < bound)
    (hsecond : 3 * (argument args 1).rank + 1 < bound) :
    Settles room (fun v q => Lighter budget p bound (3 * v.rank) q)
      (m.apply x id items args span) (fun i => m.apply (call i) id items args span) p := by
  have hpos : 0 < bound := Nat.lt_of_le_of_lt (Nat.zero_le _) hitems
  have hstart : Later budget p p := .refl budget p
  have hcallback : Settles room (fun f q => 3 * f.rank < bound ∧ Later budget p q)
      (callback args span) (fun _ => callback args span) p := settles_callback span hfirst
  cases m with
  | map | flatMap =>
      refine hcallback.bind fun f q hf => ?_
      refine (settles_mapItems hcalls _ hf.1 hitems hf.2).bind fun vs q' hq' => ?_
      exact (Eval.Plain.newArray _).settles hq' hpos
  | filter =>
      refine hcallback.bind fun f q hf => ?_
      refine (Settles.filterM (fun item hitem q' hq' => ?_) hf.2).bind fun kept q' hq' =>
        (Eval.Plain.newArray _).settles hq' hpos
      exact (settles_onItem hcalls _ hf.1 hitems hitem hq').bind fun v q'' hq'' => .pure hq''
  | find =>
      refine hcallback.bind fun f q hf => ?_
      refine (settles_firstItem? hcalls _ hf.1 hitems true hf.2).bind fun found q' hfound => ?_
      have hrank : ((found.map Prod.fst).getD .undefined).rank ≤ itemsRank items := by
        refine rank_getD_le fun v hv => ?_
        obtain ⟨item, hitem, rfl⟩ := Option.map_eq_some_iff.1 hv
        exact hfound.1 item hitem
      exact .pure (hfound.2.lighter (by omega))
  | findIndex =>
      refine hcallback.bind fun f q hf => ?_
      refine (settles_firstItem? hcalls _ hf.1 hitems true hf.2).bind fun found q' hfound => ?_
      exact (Eval.Plain.pure (isFunction_foundPosition _)).settles hfound.2 hpos
  | any | every =>
      refine hcallback.bind fun f q hf => ?_
      refine (settles_firstItem? hcalls _ hf.1 hitems _ hf.2).bind fun found q' hfound => ?_
      exact (Eval.Plain.pure rfl).settles hfound.2 hpos
  | reduce =>
      refine hcallback.bind fun f q hf => ?_
      split
      case h_1 => exact settles_fold hcalls _ hf.1 hitems 0 hsecond hf.2
      case h_2 first rest _ =>
        have hrank : first.rank ≤ itemsRank (first :: rest) := Nat.le_max_left _ _
        have hrest : itemsRank rest ≤ itemsRank (first :: rest) := Nat.le_max_right _ _
        exact settles_fold hcalls _ hf.1 (by omega) 1 (by omega) hf.2
      case h_3 => exact .fail span _
  | sort =>
      refine (settles_sorted hcalls (fun f hf => ?_) hitems hstart).bind fun sorted q hq =>
        (Eval.Plain.newArray sorted).settles hq hpos
      split at hf
      · obtain rfl := Option.mem_some.1 hf
        exact hfirst
      · cases hf
  | slice | concat | reverse | flat => exact (Eval.Plain.newArray _).settles hstart hpos
  | join | toText | includes => exact (Eval.Plain.pure rfl).settles hstart hpos
  | indexOf => exact (Eval.Plain.pure (isFunction_foundPosition _)).settles hstart hpos
  | item =>
      have hrank : (((itemPosition? (argument args 0) items.length).bind (items[·]?)).getD
          .undefined).rank ≤ itemsRank items := by
        refine rank_getD_le fun v hv => ?_
        obtain ⟨i, -, hi⟩ := Option.bind_eq_some_iff.1 hv
        exact List.mem_of_getElem? hi
      exact .pure (hstart.lighter (by omega))

theorem settles_replacement (pattern : Text) {value : Value} (hvalue : 3 * value.rank < bound)
    (hbound : 2 < bound) (hq : Later budget p q) :
    Settles room (fun _ => Later budget p) (TextMethod.replacement x pattern value)
      (fun i => TextMethod.replacement (call i) pattern value) q := by
  cases value with
  | function f =>
      have hweight : weight f [.string pattern] < bound :=
        weight_lt hvalue (Nat.lt_of_succ_lt hbound) hbound
      exact (hcalls q f _ (hq.lighter hweight)).bind fun v q' hv => .pure hv.later
  | _ => exact .pure hq

theorem settles_replaceBetween (pattern : Text) {value : Value}
    (hvalue : 3 * value.rank < bound) (hbound : 2 < bound) (pieces : List Text) :
    Settles room (fun _ => Later budget p) (TextMethod.replaceBetween x pattern value pieces)
      (fun i => TextMethod.replaceBetween (call i) pattern value pieces) p := by
  cases pieces with
  | nil => exact .pure (.refl budget p)
  | cons piece pieces =>
      refine (Settles.mapM (fun piece _ q hq => ?_) (.refl budget p)).bind fun rest q hq => .pure hq
      have hsettles := settles_replacement hcalls pattern hvalue hbound hq
      exact hsettles.bind fun t q' hq' => .pure hq'

/-- **So do methods of texts.** -/
theorem settles_textMethod (t : Text) {args : List Value} (span : Span) (m : TextMethod)
    (hsecond : 3 * (argument args 1).rank < bound) (hbound : 2 < bound) :
    Settles room (fun v q => Lighter budget p bound (3 * v.rank) q)
      (m.apply x t args span) (fun i => m.apply (call i) t args span) p := by
  have hpos : 0 < bound := Nat.zero_lt_of_lt hbound
  have hstart : Later budget p p := .refl budget p
  cases m with
  | replace =>
      unfold TextMethod.apply
      dsimp only
      split
      · exact (Eval.Plain.pure rfl).settles hstart hpos
      · refine (settles_replaceBetween hcalls _ hsecond hbound _).bind fun r q hq => ?_
        exact (Eval.Plain.pure rfl).settles hq hpos
  | replaceAll =>
      refine (settles_replaceBetween hcalls _ hsecond hbound _).bind fun r q hq => ?_
      exact (Eval.Plain.pure rfl).settles hq hpos
  | repeated => exact (TextMethod.plain_repeatText t _ span).settles hstart hpos
  | padStart | padEnd =>
      refine Eval.Plain.settles (.bind (TextMethod.steady_padding t args span) fun r => ?_) hstart
        hpos
      exact .pure rfl
  | split => exact (Eval.Plain.newArray _).settles hstart hpos
  | indexOf => exact (Eval.Plain.pure (isFunction_foundPosition _)).settles hstart hpos
  | item =>
      refine (Eval.Plain.pure ?_).settles hstart hpos
      unfold TextMethod.characterAt
      cases (itemPosition? (argument args 0) t.length).bind (t[·]?) <;> rfl
  | _ => exact (Eval.Plain.pure rfl).settles hstart hpos

end Callbacks

/-- **A method settles if all calls do that weigh less or come after steps.** -/
theorem settles_applyMethod {ι : Type} {room : ι → Nat} {budget : Nat} {p : Progress} {x : Call}
    {call : ι → Call} {m : Method} {args : List Value} (span : Span)
    (hcalls : ∀ q f args', Lighter budget p (weight (.method m) args) (weight f args') q →
      Settles room (fun v q' => Lighter budget q (weight f args') (3 * v.rank) q') (x f args')
        (fun i => call i f args') q) :
    Settles room (fun v q => Lighter budget p (weight (.method m) args) (3 * v.rank) q)
      (applyMethod x m args span) (fun i => applyMethod (call i) m args span) p := by
  have hbound := three_le_weight (.method m) args
  have hrank : 3 * m.rank ≤ weight (.method m) args := Nat.le_max_left _ _
  have hfirst : 3 * (argument args 0).rank + 1 ≤ weight (.method m) args :=
    Nat.le_trans (Nat.le_max_left _ _) (Nat.le_max_right _ _)
  have hsecond : 3 * (argument args 1).rank + 2 ≤ weight (.method m) args :=
    Nat.le_trans (Nat.le_max_right _ _) (Nat.le_max_right _ _)
  have hlighter : ∀ q f args', Lighter budget p (weight (.method m) args) (weight f args') q →
      Settles room (fun v q' => Lighter budget p (weight (.method m) args) (3 * v.rank + 1) q')
        (x f args') (fun i => call i f args') q :=
    fun q f args' h => (hcalls q f args' h).mono fun v q' hv => h.trans hv
  cases m with
  | ofArray m id items =>
      change 3 * (itemsRank items + 1) ≤ _ at hrank
      exact settles_arrayMethod hlighter id span m (by omega) hfirst (Nat.lt_of_succ_le hsecond)
  | ofText m t => exact settles_textMethod hlighter t span m (by omega) hbound
  | ofNumber m x =>
      exact (m.plain_apply x args span).settles (.refl budget p) (Nat.zero_lt_of_lt hbound)
  | describe v =>
      exact (Eval.Plain.pure rfl).settles (.refl budget p) (Nat.zero_lt_of_lt hbound)

end Stencil.Expr
