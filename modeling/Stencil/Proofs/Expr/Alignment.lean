import Stencil.Proofs.Expr.Interaction
import Stencil.Proofs.Expr.Scoping

/-!
# Evaluations of aligned trees

Aligned trees are evaluated in step. One visit of them agrees if the visits inside it do
(`node_aligned`): a name is looked up at the place that binds it, an arrow function takes
its scope along, and a call goes into the body in that scope and not in the one of the call.
Hence whole evaluations agree (`run_aligned`). Where a link is optional only in the second
tree, the two part only if the first has undefined or null in its hands, and then the first
is bound to fail.
-/

namespace Stencil.Expr

open Comparison (Agree)
open Evaluator

variable {relaxed : Prop}

/-- Visits agree on aligned trees. -/
def VisitsAligned (relaxed : Prop) (visit visit' : Visit) : Prop :=
  ∀ fs gs depth e e', ParametersLike (aligning relaxed) fs gs →
    Tree.Aligned relaxed (frameNames fs) (frameNames gs) e e' →
      (aligning relaxed).Agree (Option.Rel (Value.Like (aligning relaxed))) (visit fs depth e)
        (visit' gs depth e')

/-! ## Links -/

/-- Nothing comes of a property of undefined or null. -/
theorem propertyOf_nullish {v : Value} (h : v.isNullish) (key : Text) (span : Span)
    (p : Progress) :
    propertyOf v key span p = .error (.runtime span (.noProperties v.toText key)) := by
  unfold propertyOf
  rw [if_pos h]
  rfl

/-- A link that is optional only in the second tree makes a difference only for undefined and
null, where the first evaluation fails. -/
theorem link_aligned {optional optional' : Bool}
    (hoptional : optional = optional' ∨ relaxed ∧ optional = false)
    {target target' : Option Value} {next next' : Value → Eval Value}
    (h : Option.Rel (Value.Like (aligning relaxed)) target target')
    (hnext : ∀ v w, Value.Like (aligning relaxed) v w →
      (aligning relaxed).Agree (Value.Like (aligning relaxed)) (next v) (next' w))
    (hfails : ∀ v, v.isNullish → ∀ p, ∃ e, next v p = .error e) :
    (aligning relaxed).Agree (Option.Rel (Value.Like (aligning relaxed)))
      (link optional target next) (link optional' target' next') := by
  rcases hoptional with rfl | ⟨hrelaxed, rfl⟩
  · exact link_agree optional h hnext
  · cases h with
    | none => exact .pure .none
    | @some v w hv =>
        simp only [link, Bool.false_and, Bool.false_eq_true, if_false]
        split
        next hstops =>
          have hnullish : v.isNullish := by
            rw [hv.isNullish]
            exact ((Bool.and_eq_true _ _).mp hstops).2
          intro p q _
          obtain ⟨e, he⟩ := hfails v hnullish p
          have herror : (some <$> next v) p = .error e := by
            rw [map_eq_pure_bind, Eval.bind_apply, he, Except.bind_error]
          rw [herror]
          exact .excused hrelaxed _
        next => exact (hnext _ _ hv).map fun _ _ => .some

/-! ## One visit -/

section Visit

variable {setting : Setting} {visit visit' : Visit} {fs gs : Frames} {depth : Nat} {e e' : Tree}

theorem value_aligned (hvisit : VisitsAligned relaxed visit visit')
    (hframes : ParametersLike (aligning relaxed) fs gs)
    (h : Tree.Aligned relaxed (frameNames fs) (frameNames gs) e e') :
    (aligning relaxed).Agree (Value.Like (aligning relaxed)) (value visit fs depth e)
      (value visit' gs depth e') :=
  (hvisit fs gs depth e e' hframes h).bind fun _ _ hv => .pure (getD_like hv)

/-- A body is evaluated in the scope of its arrow function, with the parameters before it. -/
theorem enter_aligned (limits : Limits) (hvisit : VisitsAligned relaxed visit visit')
    (span : Span) :
    EntersAgree (aligning relaxed) (enter limits visit depth span)
      (enter limits visit' depth span) := by
  intro ps qs d e fs gs args args' harrow hframes hargs
  obtain ⟨hlength, hbody⟩ := harrow
  unfold enter
  split
  · exact .fail rfl _
  · refine value_aligned hvisit (.cons (frameOf_parametersLike hlength hargs) hframes) ?_
    rw [frameNames_cons, frameNames_cons]
    exact hbody

theorem partText_aligned (hvisit : VisitsAligned relaxed visit visit')
    (hframes : ParametersLike (aligning relaxed) fs gs) (part part' : Part)
    (h : PartAligned relaxed (frameNames fs) (frameNames gs) part part') :
    (aligning relaxed).Agree Eq (partText (value visit fs depth) part)
      (partText (value visit' gs depth) part') := by
  match part, part', h with
  | .text t, .text _, rfl => exact .pure rfl
  | .code _, .code _, h =>
      exact (value_aligned hvisit hframes h).bind fun _ _ hv => .pure hv.render

/-- **One visit of aligned trees agrees**, if the visits inside it do. -/
theorem node_aligned (hglobals : FieldsLike (aligning relaxed) setting.globals setting.globals)
    (hvisit : VisitsAligned relaxed visit visit') :
    VisitsAligned relaxed (node setting visit) (node setting visit') := by
  intro fs gs depth e e' hframes h
  have hvalue : ∀ {e e' : Tree}, Tree.Aligned relaxed (frameNames fs) (frameNames gs) e e' →
      (aligning relaxed).Agree (Value.Like (aligning relaxed)) (value visit fs depth e)
        (value visit' gs depth e') :=
    fun h => value_aligned hvisit hframes h
  cases h with
  | undefined => exact .pure (.some .undefined)
  | null => exact .pure (.some .null)
  | bool _ b => exact .pure (.some (.bool b))
  | number _ x => exact .pure (.some (.number x))
  | string _ t => exact .pure (.some (.string t))
  | template _ hparts =>
      refine (Agree.mapM hparts.forall₂ (partText_aligned hvisit hframes)).bind
        fun texts texts' htexts => ?_
      rw [List.forall₂_eq_eq_eq] at htexts
      rw [htexts]
      exact .pure (.some (.string _))
  | @name _ _ span x y hxy =>
      obtain ⟨hfound, hfree⟩ := lookup?_boundAlike hglobals hframes hxy
      simp only [node]
      generalize lookup? setting.globals fs x = found at hfound hfree
      generalize lookup? setting.globals gs y = found' at hfound
      cases hfound with
      | none =>
          rw [hfree rfl]
          exact .undefined rfl
      | some hv => exact .pure (.some hv)
  | array _ hitems =>
      exact (Agree.mapM hitems.forall₂ fun _ _ => hvalue).bind fun _ _ hvalues =>
        (Agree.newArray hvalues).map fun _ _ => .some
  | object _ hproperties =>
      refine Agree.bind (R := FieldsLike (aligning relaxed)) ?_ fun _ _ hfields =>
        (Agree.newObject (ofList_like hfields)).map fun _ _ => .some
      refine .mapM hproperties.forall₂ fun p q hpq => ?_
      exact (hvalue hpq.2).bind fun _ _ hv => .pure ⟨hpq.1, hv⟩
  | member span hobject property hoptional =>
      refine (hvisit _ _ depth _ _ hframes hobject).bind fun _ _ htarget =>
        link_aligned hoptional htarget (fun _ _ hv => propertyOf_agree rfl hv property) ?_
      exact fun v hv p => ⟨_, propertyOf_nullish hv property span p⟩
  | index span hobject hkey hoptional =>
      refine (hvisit _ _ depth _ _ hframes hobject).bind fun _ _ htarget =>
        link_aligned hoptional htarget (fun _ _ hv => (hvalue hkey).bind fun _ _ hw => ?_) ?_
      · rw [hw.toText]
        exact propertyOf_agree rfl hv _
      · intro v hv p
        rw [Eval.bind_apply]
        cases value visit fs depth _ p with
        | error e => exact ⟨e, rfl⟩
        | ok r => exact ⟨_, propertyOf_nullish hv r.1.toText span r.2⟩
  | call span hcallee hargs =>
      refine (hvisit _ _ depth _ _ hframes hcallee).bind fun _ _ htarget =>
        link_agree false htarget fun _ _ hv => ?_
      cases hv with
      | function hf =>
          exact (Agree.mapM hargs.forall₂ fun _ _ => hvalue).bind fun _ _ hvalues =>
            callWith_agree (enter_aligned setting.limits hvisit span) rfl methodAllowance _ _ _ _ hf
              hvalues
      | _ =>
          -- the names in the descriptions of the callees may differ
          exact fun _ _ _ => .failures ⟨hcallee.span_eq, trivial⟩
  | arrow _ hlength hbody =>
      exact Agree.fresh.bind fun _ _ id =>
        .pure (.some (.function (.closure id ⟨hlength, hbody⟩ hframes)))
  | unary _ op hoperand =>
      have happlied := (hvalue hoperand).bind
        (S := Option.Rel (Value.Like (aligning relaxed))) fun _ _ hv =>
          .pure (.some (op.apply_like hv))
      cases op with
      | typeof =>
          cases hoperand with
          | name _ hxy =>
              have hkind := (getD_like (lookup?_boundAlike hglobals hframes hxy).1).kind
              simp only [node, hkind]
              exact .pure (.some (.string _))
          | _ => exact happlied
      | _ => exact happlied
  | binary _ op hlhs hrhs =>
      refine (hvalue hlhs).bind fun v w hv => ?_
      rw [op.settledBy_like hv]
      split
      · exact .pure (.some hv)
      · exact (hvalue hrhs).bind fun _ _ hv' => .pure (.some (op.apply_like hv hv'))
  | conditional _ htest hyes hno =>
      refine (hvalue htest).bind fun v w hv => ?_
      rw [hv.isTruthy]
      split
      · exact (hvalue hyes).map fun _ _ => .some
      · exact (hvalue hno).map fun _ _ => .some

end Visit

/-! ## Whole evaluations -/

theorem tick_aligned (limits : Limits) (span : Span) :
    (aligning relaxed).Agree (fun _ _ => True) (Eval.tick limits span)
      (Eval.tick limits span) := by
  rintro p _ rfl
  rw [Eval.tick_apply]
  split
  · exact .failures (.refl _)
  · exact .values trivial rfl

/-- **Evaluations of aligned trees agree.** -/
theorem run_aligned (setting : Setting) (nesting : Nat) :
    VisitsAligned relaxed (run setting nesting) (run setting nesting) := by
  have hglobals : FieldsLike (aligning relaxed) setting.globals setting.globals :=
    fieldsLike_iff.2 ⟨rfl, fieldsLike_self (reflexive_aligning relaxed) setting.globals⟩
  induction nesting with
  | zero =>
      intro _ _ _ e e' _ he _ _ _
      exact .failures ⟨he.span_eq, rfl⟩
  | succ nesting ih =>
      intro fs gs depth e e' hframes he
      rw [run, run, he.span_eq]
      exact (tick_aligned setting.limits e'.span).bind fun _ _ _ =>
        node_aligned hglobals ih fs gs depth e e' hframes he

end Stencil.Expr
