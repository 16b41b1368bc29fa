import Stencil.Proofs.Expr.Comparison.Tree

/-!
# Evaluations of trees that are alike

One visit of trees that are alike agrees if the visits inside it do (`node_agree`). So
whole evaluations agree (`run_agree`) where the settings allow it: a step of the first is
a step of the second, and what the first runs out of is excused.
-/

namespace Stencil.Expr

open Comparison (Agree)
open Evaluator

variable {C : Comparison}

/-- Frames with the same parameters whose values are alike. -/
def FramesLike (C : Comparison) : Frames → Frames → Prop :=
  List.Forall₂ (FieldsLike C)

/-- Settings in which trees that are alike agree. -/
structure Comparison.Settings (C : Comparison) (first second : Setting) : Prop where
  globals : FieldsLike C first.globals second.globals
  arrows_iff {a b : Arrow} :
    C.arrows a b ↔
      a.params = b.params ∧ Tree.Like C.spans C.names a.body b.body ∧ a.scope = b.scope
  tick {s s' : Span} : C.spans s s' →
    C.Agree (fun _ _ => True) (Eval.tick first.limits s) (Eval.tick second.limits s')
  calls : first.limits.calls ≤ second.limits.calls
  /-- The first evaluation may run out of steps and of calls. -/
  exhausted {s s' : Span} : C.spans s s' →
    C.excused (ExprError.runtime s (.stepsExhausted first.limits.steps))
  tooDeep {s s' : Span} : C.spans s s' →
    C.excused (ExprError.runtime s (.callsTooDeep first.limits.calls))

/-! ## Frames -/

theorem framesLike_iff {fs gs : Frames} :
    FramesLike C fs gs ↔ fs.map (List.map Prod.fst) = gs.map (List.map Prod.fst) ∧
      List.Forall₂ (List.Forall₂ fun f g => Value.Like C f.2 g.2) fs gs := by
  constructor
  · intro h
    induction h with
    | nil => exact ⟨rfl, .nil⟩
    | cons hframe _ ih =>
        obtain ⟨hnames, hvalues⟩ := fieldsLike_iff.1 hframe
        exact ⟨by simp only [List.map_cons, hnames, ih.1], .cons hvalues ih.2⟩
  · rintro ⟨hnames, h⟩
    induction h with
    | nil => exact .nil
    | cons hvalues _ ih =>
        obtain ⟨hname, hnames⟩ := List.cons.inj hnames
        exact .cons (fieldsLike_iff.2 ⟨hname, hvalues⟩) (ih hnames)

theorem lookup?_like {globals globals' : Globals} (hglobals : FieldsLike C globals globals')
    {fs gs : Frames} (h : FramesLike C fs gs) (name : Text) :
    Option.Rel (Value.Like C) (lookup? globals fs name) (lookup? globals' gs name) := by
  unfold lookup?
  induction h with
  | nil => exact get?_like hglobals name
  | @cons f g fs gs hframe _ ih =>
      rw [List.findSome?_cons, List.findSome?_cons]
      have hfound := get?_like hframe name
      generalize Bindings.get? f name = found at hfound
      generalize Bindings.get? g name = found' at hfound
      cases hfound with
      | none => exact ih
      | some hv => exact .some hv

theorem frameOf_like (params : List Text) {args args' : List Value}
    (h : List.Forall₂ (Value.Like C) args args') :
    FieldsLike C (frameOf params args) (frameOf params args') := by
  refine List.rel_reverse ?_
  generalize params.zipIdx = entries
  induction entries with
  | nil => exact .nil
  | cons entry entries ih => exact .cons ⟨rfl, argument_like h entry.2⟩ ih

/-! ## Globals -/

theorem builtin_like (bound : ∀ name, C.identities (.bound name) (.bound name)) :
    FieldsLike C Globals.builtin Globals.builtin := by
  have hhelpers : ∀ entries : List (String × Helper),
      FieldsLike C (entries.map Globals.helper) (entries.map Globals.helper) := by
    intro entries
    induction entries with
    | nil => exact .nil
    | cons entry entries ih => exact .cons ⟨rfl, .function (.helper entry.2)⟩ ih
  have hnamespace : ∀ (name : String) (fields : List (Text × Value)), FieldsLike C fields fields →
      Value.Like C (Globals.namespaceOf name fields).2 (Globals.namespaceOf name fields).2 :=
    fun name _ hfields => .ofFields (bound name.toList) hfields
  have hnumbers : ∀ (name name' : Text) (x y : Float),
      FieldsLike C [(name, .number x), (name', .number y)]
        [(name, .number x), (name', .number y)] :=
    fun _ _ x y => .cons ⟨rfl, .number x⟩ (.cons ⟨rfl, .number y⟩ .nil)
  refine List.rel_append (List.rel_append ?_ (hhelpers _)) (hnumbers _ _ _ _)
  refine .cons ⟨rfl, hnamespace _ _ ?_⟩ (.cons ⟨rfl, hnamespace _ _ (hhelpers _)⟩
    (.cons ⟨rfl, hnamespace _ _ (hhelpers _)⟩ (.cons ⟨rfl, hnamespace _ _ (hhelpers _)⟩ .nil)))
  exact List.rel_append (hhelpers _) (hnumbers _ _ _ _)

/-- Global values are alike themselves, if what the context binds stands for itself. -/
theorem within_like (bound : ∀ name, C.identities (.bound name) (.bound name)) (c : Context) :
    FieldsLike C (Globals.within c) (Globals.within c) := by
  refine overlay_like (builtin_like bound) ?_
  unfold Globals.ofContext
  induction c with
  | nil => exact .nil
  | cons b c ih => exact .cons ⟨rfl, ofJson_like (bound b.1) b.2⟩ ih

/-! ## One visit -/

/-- Visits agree on trees that are alike. -/
def VisitsAgree (C : Comparison) (visit visit' : Visit) : Prop :=
  ∀ fs gs depth e e', FramesLike C fs gs → Tree.Like C.spans C.names e e' →
    C.Agree (Option.Rel (Value.Like C)) (visit fs depth e) (visit' gs depth e')

theorem getD_like {found found' : Option Value} (h : Option.Rel (Value.Like C) found found') :
    Value.Like C (found.getD .undefined) (found'.getD .undefined) := by
  cases h with
  | none => exact .undefined
  | some hv => exact hv

theorem propertyOf_agree {s s' : Span} (hs : C.spans s s') {v w : Value} (h : Value.Like C v w)
    (key : Text) : C.Agree (Value.Like C) (propertyOf v key s) (propertyOf w key s') := by
  unfold propertyOf
  rw [h.isNullish, h.toText]
  split
  · exact .fail hs _
  · exact .pure (h.property key)

theorem link_agree (optional : Bool) {target target' : Option Value}
    {next next' : Value → Eval Value} (h : Option.Rel (Value.Like C) target target')
    (hnext : ∀ v w, Value.Like C v w → C.Agree (Value.Like C) (next v) (next' w)) :
    C.Agree (Option.Rel (Value.Like C)) (link optional target next)
      (link optional target' next') := by
  cases h with
  | none => exact .pure .none
  | some hv =>
      simp only [link, hv.isNullish]
      split
      · exact .pure .none
      · exact (hnext _ _ hv).map fun _ _ => .some

theorem describe_like {S : Span → Span → Prop} {N : Text → Span → Span → Prop}
    {e e' : Tree} (h : Tree.Like S N e e') :
    e.describe = e'.describe := by
  cases h with
  | member _ h property _ => exact congrArg (· ++ '.' :: property) (describe_like h)
  | index _ h _ _ => exact congrArg (· ++ "[...]".toList) (describe_like h)
  | call _ h _ => exact congrArg (· ++ "(...)".toList) (describe_like h)
  | _ => rfl

theorem span_like {S : Span → Span → Prop} {N : Text → Span → Span → Prop}
    {e e' : Tree} (h : Tree.Like S N e e') :
    S e.span e'.span := by
  cases h <;> assumption

section Visit

variable {first second : Setting} {visit visit' : Visit} {fs gs : Frames} {depth : Nat}
  {e e' : Tree}

theorem value_agree (hvisit : VisitsAgree C visit visit') (hframes : FramesLike C fs gs)
    (h : Tree.Like C.spans C.names e e') :
    C.Agree (Value.Like C) (value visit fs depth e) (value visit' gs depth e') :=
  (hvisit fs gs depth e e' hframes h).bind fun _ _ hv => .pure (getD_like hv)

theorem enter_agree (hsettings : C.Settings first second) (hvisit : VisitsAgree C visit visit')
    {s s' : Span} (hs : C.spans s s') :
    EntersAgree C (enter first.limits visit depth s) (enter second.limits visit' depth s') := by
  intro ps qs d e fs gs args args' harrow hvalues hargs
  obtain ⟨rfl, hbody, hnames⟩ : ps = qs ∧ Tree.Like C.spans C.names d e ∧ _ :=
    hsettings.arrows_iff.1 harrow
  have hframes : FramesLike C fs gs := framesLike_iff.2 ⟨hnames, hvalues⟩
  unfold enter
  by_cases hdeep : first.limits.calls ≤ depth
  · rw [if_pos hdeep]
    exact fun p q _ => .excused (hsettings.tooDeep hs) _
  · rw [if_neg hdeep, if_neg fun hle => hdeep (Nat.le_trans hsettings.calls hle)]
    exact value_agree hvisit (.cons (frameOf_like ps hargs) hframes) hbody

theorem partText_agree (hvisit : VisitsAgree C visit visit') (hframes : FramesLike C fs gs)
    (part part' : Part) (h : Part.Like C.spans C.names part part') :
    C.Agree Eq (partText (value visit fs depth) part) (partText (value visit' gs depth) part') := by
  cases h with
  | text t => exact .pure rfl
  | code he => exact (value_agree hvisit hframes he).bind fun _ _ hv => .pure hv.render

/-- **One visit of trees that are alike agrees**, if the visits inside it do. -/
theorem node_agree (hsettings : C.Settings first second) (hvisit : VisitsAgree C visit visit') :
    VisitsAgree C (node first visit) (node second visit') := by
  intro fs gs depth e e' hframes h
  have hvalue : ∀ {e e' : Tree}, Tree.Like C.spans C.names e e' →
      C.Agree (Value.Like C) (value visit fs depth e) (value visit' gs depth e') :=
    fun h => value_agree hvisit hframes h
  cases h with
  | undefined => exact .pure (.some .undefined)
  | null => exact .pure (.some .null)
  | bool _ b => exact .pure (.some (.bool b))
  | number _ x => exact .pure (.some (.number x))
  | string _ t => exact .pure (.some (.string t))
  | template _ hparts =>
      refine (Agree.mapM hparts (partText_agree hvisit hframes)).bind fun texts texts' htexts => ?_
      rw [List.forall₂_eq_eq_eq] at htexts
      rw [htexts]
      exact .pure (.some (.string _))
  | name hs t hname =>
      have hfound := lookup?_like hsettings.globals hframes t
      simp only [node]
      generalize lookup? first.globals fs t = found at hfound
      generalize lookup? second.globals gs t = found' at hfound
      cases hfound with
      | none => exact .undefined hname
      | some hv => exact .pure (.some hv)
  | array _ hitems =>
      exact (Agree.mapM hitems fun _ _ => hvalue).bind fun _ _ hvalues =>
        (Agree.newArray hvalues).map fun _ _ => .some
  | object _ hkeys hproperties =>
      refine Agree.bind (R := FieldsLike C) ?_ fun _ _ hfields =>
        (Agree.newObject (ofList_like hfields)).map fun _ _ => .some
      refine .mapM (forall₂_keyed_iff.2 ⟨hkeys, hproperties⟩) fun p q hpq => ?_
      exact (hvalue hpq.2).bind fun _ _ hv => .pure ⟨hpq.1, hv⟩
  | member hs hobject property optional =>
      exact (hvisit _ _ depth _ _ hframes hobject).bind fun _ _ htarget =>
        link_agree optional htarget fun _ _ hv => propertyOf_agree hs hv property
  | index hs hobject hkey optional =>
      refine (hvisit _ _ depth _ _ hframes hobject).bind fun _ _ htarget =>
        link_agree optional htarget fun _ _ hv => (hvalue hkey).bind fun _ _ hw => ?_
      rw [hw.toText]
      exact propertyOf_agree hs hv _
  | call hs hcallee hargs =>
      refine (hvisit _ _ depth _ _ hframes hcallee).bind fun _ _ htarget =>
        link_agree false htarget fun _ _ hv => ?_
      rw [describe_like hcallee]
      cases hv with
      | function hf =>
          exact (Agree.mapM hargs fun _ _ => hvalue).bind fun _ _ hvalues =>
            callWith_agree (enter_agree hsettings hvisit hs) hs methodAllowance _ _ _ _ hf hvalues
      | _ => exact .fail (span_like hcallee) _
  | arrow _ params hbody =>
      refine Agree.fresh.bind fun _ _ id => .pure (.some (.function ?_))
      obtain ⟨hnames, hvalues⟩ := framesLike_iff.1 hframes
      exact .closure id (hsettings.arrows_iff.2 ⟨rfl, hbody, hnames⟩) hvalues
  | unary _ op hoperand =>
      have happlied := (hvalue hoperand).bind (S := Option.Rel (Value.Like C)) fun _ _ hv =>
        .pure (.some (op.apply_like hv))
      cases op with
      | typeof =>
          cases hoperand with
          | name _ t _ =>
              have hkind := (getD_like (lookup?_like hsettings.globals hframes t)).kind
              simp only [node, hkind]
              exact .pure (.some (.string _))
          | _ => exact happlied
      | _ => exact happlied
  | binary _ op hlhs hrhs =>
      refine (hvalue hlhs).bind fun v w hv => ?_
      rw [op.settledBy_like hv]
      split
      · exact .pure (.some hv)
      · exact (hvalue hrhs).bind fun _ _ hv' => .pure (.some (op.apply_like hv hv'))
  | conditional _ htest hyes hno =>
      refine (hvalue htest).bind fun v w hv => ?_
      rw [hv.isTruthy]
      split
      · exact (hvalue hyes).map fun _ _ => .some
      · exact (hvalue hno).map fun _ _ => .some

end Visit

/-! ## Whole evaluations -/

/-- **Evaluations of trees that are alike agree.** The second must not run out of nested
visits before the first, or may run out of steps whatever the first does. -/
theorem run_agree {first second : Setting} (hsettings : C.Settings first second) {n m : Nat}
    (h : n ≤ m ∨ ∀ s, C.allowed (ExprError.runtime s (.stepsExhausted second.limits.steps))) :
    VisitsAgree C (run first n) (run second m) := by
  induction n generalizing m with
  | zero =>
      exact fun _ _ _ _ _ _ he _ _ _ => .excused (hsettings.exhausted (span_like he)) _
  | succ n ih =>
      cases m with
      | zero =>
          intro _ _ _ _ e' _ _ _ _ _
          exact .allowed _ (h.resolve_left (Nat.not_succ_le_zero n) e'.span)
      | succ m =>
          intro fs gs depth e e' hframes he
          have hvisit := ih (h.imp_left Nat.le_of_succ_le_succ)
          exact (hsettings.tick (span_like he)).bind fun _ _ _ =>
            node_agree hsettings hvisit fs gs depth e e' hframes he

end Stencil.Expr
