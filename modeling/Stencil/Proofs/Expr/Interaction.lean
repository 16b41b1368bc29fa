import Stencil.Expr.Evaluator
import Stencil.Proofs.Failure
import Mathlib.Tactic.Common

/-!
# What a node asks for while it is visited

The value of a node is computed from what other visits give: visits of its operands, in
the same frames and at the same depth, and visits of the bodies of arrow functions, one
call deeper, where the limit on calls lets them. `Interactive` is this shape. Between the
visits an evaluation works with what it has, makes things and may fail, but takes no step
of its own (`Eval.Steady`).

Whatever a built-in method calls back, it calls back so, one call after another. Hence
every node has the shape (`interactive_node`), and what is proved of the shape needs no
look at nodes and methods any more.
-/

namespace Stencil.Expr

theorem Eval.bind_apply {α β : Type} (x : Eval α) (f : α → Eval β) (p : Progress) :
    (x >>= f) p = x p >>= fun r => f r.1 r.2 := rfl

/-! ## Work that takes no step -/

/-- An evaluation that counts no step of its own. -/
def Eval.Steady {α : Type} (x : Eval α) : Prop :=
  ∀ p a q, x p = .ok (a, q) → q.steps = p.steps

namespace Eval.Steady

variable {α β : Type}

theorem pure (a : α) : Eval.Steady (pure a) := by
  intro p b q h
  cases h
  rfl

theorem fail (span : Span) (t : Trouble) : Eval.Steady (Eval.fail span t : Eval α) := by
  intro p a q h
  cases h

theorem fresh : Eval.Steady Eval.fresh := by
  intro p id q h
  cases h
  rfl

theorem bind {x : Eval α} {f : α → Eval β} (hx : x.Steady) (hf : ∀ a, (f a).Steady) :
    Eval.Steady (x >>= f) := by
  intro p b q h
  rw [Eval.bind_apply] at h
  obtain ⟨r, hfirst, hrest⟩ := Except.bind_eq_ok_iff.1 h
  exact (hf r.1 r.2 b q hrest).trans (hx p r.1 r.2 hfirst)

theorem ite {c : Prop} [Decidable c] {x y : Eval α} (hx : x.Steady) (hy : y.Steady) :
    Eval.Steady (if c then x else y) := by
  split
  · exact hx
  · exact hy

theorem newArray (items : List Value) : Eval.Steady (Eval.newArray items) :=
  fresh.bind fun id => pure (Value.array id items)

theorem newObject (fields : List (Text × Value)) : Eval.Steady (Eval.newObject fields) :=
  fresh.bind fun id => pure (Value.object id fields)

end Eval.Steady

theorem callback_steady (args : List Value) (span : Span) : (callback args span).Steady := by
  unfold callback
  split
  · exact .pure _
  · exact .fail span _
  · exact .fail span _

/-! ## Work that gives no function -/

/-- Whether a value is a function. -/
def Value.isFunction : Value → Bool
  | .function _ => true
  | _ => false

theorem isFunction_ofJson (id : Identity) (j : Json) : (Value.ofJson id j).isFunction = false := by
  cases j <;> rfl

theorem isFunction_foundPosition (i : Option Nat) : (foundPosition i).isFunction = false := by
  cases i <;> rfl

/-- An evaluation that counts no step of its own and gives no function. -/
structure Eval.Plain (x : Eval Value) : Prop where
  steady : x.Steady
  gives : ∀ p v q, x p = .ok (v, q) → v.isFunction = false

namespace Eval.Plain

variable {α : Type}

theorem pure {v : Value} (h : v.isFunction = false) : Eval.Plain (pure v) where
  steady := .pure v
  gives _ _ _ hok := by
    cases hok
    exact h

theorem fail (span : Span) (t : Trouble) : Eval.Plain (Eval.fail span t) where
  steady := .fail span t
  gives _ _ _ hok := by cases hok

theorem bind {x : Eval α} {f : α → Eval Value} (hx : x.Steady) (hf : ∀ a, (f a).Plain) :
    Eval.Plain (x >>= f) where
  steady := hx.bind fun a => (hf a).steady
  gives p v q hok := by
    rw [Eval.bind_apply] at hok
    obtain ⟨r, -, hrest⟩ := Except.bind_eq_ok_iff.1 hok
    exact (hf r.1).gives r.2 v q hrest

theorem ite {c : Prop} [Decidable c] {x y : Eval Value} (hx : x.Plain) (hy : y.Plain) :
    Eval.Plain (if c then x else y) := by
  split
  · exact hx
  · exact hy

theorem newArray (items : List Value) : Eval.Plain (Eval.newArray items) :=
  .bind .fresh fun _ => .pure rfl

theorem newObject (fields : List (Text × Value)) : Eval.Plain (Eval.newObject fields) :=
  .bind .fresh fun _ => .pure rfl

end Eval.Plain

/-- Helpers compute, and make what they return. -/
theorem Helper.plain_apply (args : List Value) (span : Span) (h : Helper) :
    (h.apply args span).Plain := by
  cases h with
  | jsonText =>
      refine .pure ?_
      unfold Expr.jsonText
      split <;> rfl
  | readJson =>
      unfold Helper.apply
      dsimp only
      split
      · exact .bind .fresh fun id => .pure (isFunction_ofJson id _)
      · exact .fail span _
  | keys | values => exact .newArray _
  | entries => exact .bind .fresh fun id => .pure rfl
  | fromEntries =>
      unfold Helper.apply
      dsimp only
      split
      · exact .newObject _
      · exact .fail span _
  | _ => exact .pure rfl

theorem NumberMethod.plain_apply (x : Float) (args : List Value) (span : Span)
    (m : NumberMethod) : (m.apply x args span).Plain := by
  cases m with
  | toFixed | toText =>
      unfold NumberMethod.apply
      exact .ite (.pure rfl) (.fail span _)

namespace TextMethod

theorem plain_repeatText (t : Text) (count : Float) (span : Span) :
    (repeatText t count span).Plain := by
  have hrepeated : ∀ n : Nat, Eval.Plain (if greatestLength < t.byteLength * n then
      Eval.fail span .invalidLength
    else pure (Value.string (Text.cycle t (t.length * n)))) :=
    fun n => .ite (.fail span _) (.pure rfl)
  unfold repeatText
  dsimp only
  split
  · exact .bind (Eval.Steady.fail span _) fun _ => hrepeated _
  · exact hrepeated _

theorem steady_padding (t : Text) (args : List Value) (span : Span) :
    (padding t args span).Steady := by
  have hfilled : ∀ (target : Nat) (fill : Text), Eval.Steady (
      if target ≤ t.length || fill = [] then pure []
      else if greatestLength < target then Eval.fail span .invalidLength
      else pure (Text.cycle fill (target - t.length))) :=
    fun target fill => .ite (.pure _) (.ite (.fail span _) (.pure _))
  exact hfilled _ _

end TextMethod

namespace Evaluator

theorem steady_propertyOf (target : Value) (key : Text) (span : Span) :
    (propertyOf target key span).Steady := by
  unfold propertyOf
  exact .ite (.fail span _) (.pure _)

/-- A failure is not gone on with. -/
theorem fail_ite_bind {α β : Type} {c : Prop} [Decidable c] (span : Span) (t : Trouble)
    (x : Eval α) (f : α → Eval β) :
    ((if c then Eval.fail span t else x) >>= f) = if c then Eval.fail span t else x >>= f := by
  split
  · rfl
  · rfl

/-! ## The shape -/

/-- An evaluation, given the limits and how to visit nodes. -/
abbrev Program (α : Type) := Limits → Visit → Eval α

/-- An evaluation at a node that asks for nothing but visits of operands there, and of
bodies one call deeper. -/
inductive Interactive (frames : Frames) (depth : Nat) {α : Type} : Program α → Prop where
  | settled (a : α) : Interactive frames depth fun _ _ => pure a
  | working {β : Type} {x : Eval β} (hx : x.Steady) {next : β → Program α}
      (hnext : ∀ b, Interactive frames depth (next b)) :
      Interactive frames depth fun limits visit => x >>= fun b => next b limits visit
  | operand (e : Tree) {next : Option Value → Program α}
      (hnext : ∀ v, Interactive frames depth (next v)) :
      Interactive frames depth fun limits visit =>
        visit frames depth e >>= fun v => next v limits visit
  | body (span : Span) (inner : Frames) (e : Tree) {next : Option Value → Program α}
      (hnext : ∀ v, Interactive frames depth (next v)) :
      Interactive frames depth fun limits visit =>
        if limits.calls ≤ depth then Eval.fail span (.callsTooDeep limits.calls)
        else visit inner (depth + 1) e >>= fun v => next v limits visit

namespace Interactive

variable {frames : Frames} {depth : Nat} {α β : Type}

theorem steady {x : Eval α} (hx : x.Steady) : Interactive frames depth fun _ _ => x := by
  have h : Interactive frames depth fun _ _ => x >>= fun a => pure a :=
    working hx fun a => settled a
  simpa only [bind_pure] using h

theorem bind {F : Program α} {G : α → Program β} (hF : Interactive frames depth F)
    (hG : ∀ a, Interactive frames depth (G a)) :
    Interactive frames depth fun limits visit => F limits visit >>= fun a => G a limits visit := by
  induction hF with
  | settled a => simpa only [pure_bind] using hG a
  | working hx _ ih =>
      simp only [bind_assoc]
      exact working hx ih
  | operand e _ ih =>
      simp only [bind_assoc]
      exact operand e ih
  | body span inner e _ ih =>
      simp only [fail_ite_bind, bind_assoc]
      exact body span inner e ih

theorem map {F : Program α} (hF : Interactive frames depth F) (f : α → β) :
    Interactive frames depth fun limits visit => f <$> F limits visit := by
  simp only [map_eq_pure_bind]
  exact hF.bind fun a => settled (f a)

/-! ## Lists -/

theorem mapM {F : α → Program β} (hF : ∀ a, Interactive frames depth (F a)) (as : List α) :
    Interactive frames depth fun limits visit => as.mapM fun a => F a limits visit := by
  induction as with
  | nil => exact settled []
  | cons a as ih =>
      simp only [List.mapM_cons]
      refine (hF a).bind fun b => ?_
      exact ih.bind fun bs => settled (b :: bs)

theorem foldlM {F : β → α → Program β} (hF : ∀ b a, Interactive frames depth (F b a))
    (as : List α) (b : β) :
    Interactive frames depth fun limits visit =>
      as.foldlM (fun b a => F b a limits visit) b := by
  induction as generalizing b with
  | nil => exact settled b
  | cons a as ih =>
      simp only [List.foldlM_cons]
      exact (hF b a).bind fun b' => ih b'

theorem findM? {F : α → Program Bool} (hF : ∀ a, Interactive frames depth (F a))
    (as : List α) :
    Interactive frames depth fun limits visit => as.findM? fun a => F a limits visit := by
  induction as with
  | nil => exact settled none
  | cons a as ih =>
      refine (hF a).bind fun found => ?_
      cases found with
      | true => exact settled (some a)
      | false => exact ih

theorem filterM {F : α → Program Bool} (hF : ∀ a, Interactive frames depth (F a))
    (as : List α) :
    Interactive frames depth fun limits visit => as.filterM fun a => F a limits visit := by
  have hfrom : ∀ kept, Interactive frames depth fun limits visit =>
      List.filterAuxM (fun a => F a limits visit) as kept := by
    induction as with
    | nil => exact fun kept => settled kept
    | cons a as ih =>
        intro kept
        refine (hF a).bind fun found => ?_
        cases found with
        | true => exact ih (a :: kept)
        | false => exact ih kept
  exact (hfrom []).bind fun kept => settled kept.reverse

theorem mergeM {F : α → α → Program Bool} (hF : ∀ a b, Interactive frames depth (F a b))
    (as bs : List α) :
    Interactive frames depth fun limits visit =>
      Stencil.mergeM (fun a b => F a b limits visit) as bs := by
  induction as, bs using Stencil.mergeM.induct with
  | case1 bs =>
      simp only [Stencil.mergeM]
      exact settled bs
  | case2 a as =>
      simp only [Stencil.mergeM]
      exact settled (a :: as)
  | case3 a as b bs ihLeft ihRight =>
      simp only [Stencil.mergeM]
      refine (hF a b).bind fun after => ?_
      cases after with
      | true => exact ihLeft.bind fun rest => settled (b :: rest)
      | false => exact ihRight.bind fun rest => settled (a :: rest)

theorem mergeSortM {F : α → α → Program Bool} (hF : ∀ a b, Interactive frames depth (F a b))
    (as : List α) :
    Interactive frames depth fun limits visit =>
      Stencil.mergeSortM (fun a b => F a b limits visit) as := by
  induction as using Stencil.mergeSortM.induct with
  | case1 as hlength =>
      simp only [Stencil.mergeSortM.eq_def _ as, dif_pos hlength]
      exact settled as
  | case2 as hlength ihLeft ihRight =>
      simp only [Stencil.mergeSortM.eq_def _ as, dif_neg hlength]
      refine ihLeft.bind fun left => ?_
      exact ihRight.bind fun right => mergeM hF left right

end Interactive

/-! ## Methods with a callback -/

section Methods

variable {frames : Frames} {depth : Nat} {call : Limits → Visit → Call}
  (hcall : ∀ f args, Interactive frames depth fun limits visit => call limits visit f args)
include hcall

theorem interactive_onItem (f : Function) (array : Value) (item : Value × Nat) :
    Interactive frames depth fun limits visit =>
      ArrayMethod.onItem (call limits visit) f array item :=
  hcall f _

theorem interactive_firstItem? (f : Function) (array : Value) (wanted : Bool)
    (items : List Value) :
    Interactive frames depth fun limits visit =>
      ArrayMethod.firstItem? (call limits visit) f array wanted items := by
  refine Interactive.findM? (fun item => ?_) _
  exact (interactive_onItem hcall f array item).bind fun v => .settled (v.isTruthy == wanted)

theorem interactive_mapItems (f : Function) (array : Value) (items : List Value) :
    Interactive frames depth fun limits visit =>
      ArrayMethod.mapItems (call limits visit) f array items :=
  Interactive.mapM (interactive_onItem hcall f array) _

theorem interactive_fold (f : Function) (array start : Value) (position : Nat)
    (items : List Value) :
    Interactive frames depth fun limits visit =>
      ArrayMethod.fold (call limits visit) f array start position items := by
  unfold ArrayMethod.fold
  refine Interactive.foldlM (fun (acc : Value) (item : Value × Nat) => ?_) _ _
  exact hcall f _

theorem interactive_comparesAfter (compare : Option Function) (v w : Value) :
    Interactive frames depth fun limits visit =>
      ArrayMethod.comparesAfter (call limits visit) compare v w := by
  cases compare with
  | some f => exact (hcall f [v, w]).bind fun r => .settled _
  | none => exact .settled _

/-- **Methods of arrays call back one call after another.** -/
theorem interactive_arrayMethod (id : Identity) (items args : List Value) (span : Span)
    (m : ArrayMethod) :
    Interactive frames depth fun limits visit =>
      m.apply (call limits visit) id items args span := by
  have hcallback : Interactive frames depth fun _ _ => callback args span :=
    .steady (callback_steady args span)
  cases m with
  | map =>
      refine hcallback.bind fun f => ?_
      exact (interactive_mapItems hcall f _ items).bind fun vs => .steady (.newArray vs)
  | filter =>
      refine hcallback.bind fun f => ?_
      refine (Interactive.filterM (fun item => ?_) _).bind fun kept => .steady (.newArray _)
      exact (interactive_onItem hcall f _ item).bind fun v => .settled v.isTruthy
  | find | findIndex | any | every =>
      refine hcallback.bind fun f => ?_
      exact (interactive_firstItem? hcall f _ _ items).bind fun found => .settled _
  | reduce =>
      refine hcallback.bind fun f => ?_
      split
      · exact interactive_fold hcall f _ _ _ _
      · exact interactive_fold hcall f _ _ _ _
      · exact .steady (.fail span _)
  | sort =>
      refine (Interactive.mergeSortM (fun v w => ?_) items).bind fun sorted =>
        .steady (.newArray sorted)
      exact interactive_comparesAfter hcall _ v w
  | flatMap =>
      refine hcallback.bind fun f => ?_
      exact (interactive_mapItems hcall f _ items).bind fun vs => .steady (.newArray _)
  | slice | concat | reverse | flat => exact .steady (.newArray _)
  | join | toText | includes | indexOf | item => exact .settled _

theorem interactive_replacement (pattern : Text) (value : Value) :
    Interactive frames depth fun limits visit =>
      TextMethod.replacement (call limits visit) pattern value := by
  cases value with
  | function f => exact (hcall f [.string pattern]).bind fun v => .settled v.toText
  | _ => exact .settled _

theorem interactive_replaceBetween (pattern : Text) (value : Value) (pieces : List Text) :
    Interactive frames depth fun limits visit =>
      TextMethod.replaceBetween (call limits visit) pattern value pieces := by
  cases pieces with
  | nil => exact .settled []
  | cons piece pieces =>
      refine (Interactive.mapM (fun piece => ?_) pieces).bind fun rest => .settled _
      exact (interactive_replacement hcall pattern value).bind fun t => .settled (t ++ piece)

/-- **So do methods of texts.** -/
theorem interactive_textMethod (t : Text) (args : List Value) (span : Span) (m : TextMethod) :
    Interactive frames depth fun limits visit => m.apply (call limits visit) t args span := by
  cases m with
  | replace =>
      unfold TextMethod.apply
      dsimp only
      split
      · exact .settled _
      · refine (interactive_replaceBetween hcall _ _ _).bind fun r => ?_
        exact Interactive.settled (Value.string r)
  | replaceAll =>
      refine (interactive_replaceBetween hcall _ _ _).bind fun r => ?_
      exact Interactive.settled (Value.string r)
  | repeated => exact .steady (TextMethod.plain_repeatText t _ span).steady
  | padStart | padEnd =>
      exact (Interactive.steady (TextMethod.steady_padding t args span)).bind fun r => .settled _
  | split => exact .steady (.newArray _)
  | _ => exact .settled _

theorem interactive_applyMethod (m : Method) (args : List Value) (span : Span) :
    Interactive frames depth fun limits visit =>
      applyMethod (call limits visit) m args span := by
  cases m with
  | ofArray m id items => exact interactive_arrayMethod hcall id items args span m
  | ofText m t => exact interactive_textMethod hcall t args span m
  | ofNumber m x => exact .steady (m.plain_apply x args span).steady
  | describe v => exact .settled _

end Methods

/-! ## Nodes -/

section Nodes

variable (frames : Frames) (depth : Nat)

theorem interactive_value (e : Tree) :
    Interactive frames depth fun _ visit => value visit frames depth e :=
  .operand e fun v => .settled (v.getD .undefined)

theorem interactive_enter (span : Span) (params : List Text) (body : Tree) (inner : Frames)
    (args : List Value) :
    Interactive frames depth fun limits visit =>
      enter limits visit depth span params body inner args :=
  .body span (frameOf params args :: inner) body fun v => .settled (v.getD .undefined)

theorem interactive_callWith (span : Span) (allowance : Nat) (f : Function)
    (args : List Value) :
    Interactive frames depth fun limits visit =>
      callWith (enter limits visit depth span) span allowance f args := by
  induction allowance generalizing f args with
  | zero =>
      cases f with
      | closure id params body inner => exact interactive_enter frames depth span _ _ _ _
      | helper h => exact .steady (h.plain_apply args span).steady
      | method m => exact .steady (.fail span _)
  | succ allowance ih =>
      cases f with
      | closure id params body inner => exact interactive_enter frames depth span _ _ _ _
      | helper h => exact .steady (h.plain_apply args span).steady
      | method m => exact interactive_applyMethod ih m args span

theorem interactive_link (optional : Bool) (target : Option Value)
    {next : Value → Program Value} (hnext : ∀ v, Interactive frames depth (next v)) :
    Interactive frames depth fun limits visit =>
      link optional target fun v => next v limits visit := by
  cases target with
  | none => exact .settled none
  | some v =>
      simp only [link]
      split
      · exact .settled none
      · exact (hnext v).map some

theorem interactive_partText (part : Part) :
    Interactive frames depth fun _ visit => partText (value visit frames depth) part := by
  cases part with
  | text t => exact .settled t
  | code e => exact (interactive_value frames depth e).bind fun v => .settled v.render

/-- **A node asks for visits and for nothing else.** -/
theorem interactive_node (globals : Globals) (e : Tree) :
    Interactive frames depth fun limits visit => node ⟨globals, limits⟩ visit frames depth e := by
  have hvalue := interactive_value frames depth
  have hvisit : ∀ e : Tree, Interactive frames depth fun _ visit => visit frames depth e := by
    intro e
    have h : Interactive frames depth fun _ visit => visit frames depth e >>= fun v => pure v :=
      .operand e fun v => .settled v
    simpa only [bind_pure] using h
  cases e with
  | undefined | null | bool | number | string => exact .settled _
  | template _ parts =>
      refine (Interactive.mapM (interactive_partText frames depth) parts).bind fun texts => ?_
      exact .settled _
  | name span t =>
      unfold node
      dsimp only
      split
      · exact .settled _
      · exact .steady (.fail span _)
  | array _ items =>
      refine (Interactive.mapM hvalue items).bind fun values => ?_
      exact (Interactive.steady (.newArray values)).map some
  | object _ properties =>
      refine (Interactive.mapM (fun p => ?_) properties).bind fun fields =>
        (Interactive.steady (.newObject _)).map some
      exact (hvalue p.2).bind fun v => .settled (p.1, v)
  | member span object property optional =>
      refine (hvisit object).bind fun target => ?_
      exact interactive_link frames depth optional target fun v =>
        .steady (steady_propertyOf v property span)
  | index span object key optional =>
      refine (hvisit object).bind fun target => ?_
      refine interactive_link frames depth optional target fun v => ?_
      exact (hvalue key).bind fun k => .steady (steady_propertyOf v k.toText span)
  | call span callee args =>
      refine (hvisit callee).bind fun target => ?_
      refine interactive_link frames depth false target fun v => ?_
      cases v with
      | function f =>
          refine (Interactive.mapM hvalue args).bind fun values => ?_
          exact interactive_callWith frames depth span methodAllowance f values
      | _ => exact .steady (.fail callee.span _)
  | arrow _ params body =>
      refine (Interactive.steady .fresh).bind fun id => ?_
      exact .settled _
  | unary _ op operand =>
      have happlied : Interactive frames depth fun _ visit => do
          return some (op.apply (← value visit frames depth operand)) :=
        (hvalue operand).bind fun v => .settled _
      cases op with
      | typeof =>
          cases operand with
          | name _ t =>
              exact .settled (some (Value.string ((lookup? globals frames t).getD .undefined).kind))
          | _ => exact happlied
      | _ => exact happlied
  | binary _ op lhs rhs =>
      refine (hvalue lhs).bind fun left => ?_
      split
      · exact .settled _
      · exact (hvalue rhs).bind fun right => .settled _
  | conditional _ test consequent alternate =>
      refine (hvalue test).bind fun v => ?_
      split
      · exact (hvalue consequent).map some
      · exact (hvalue alternate).map some

end Nodes

end Evaluator

end Stencil.Expr
