import Stencil.Proofs.Expr.Comparison.Run
import Stencil.Proofs.Expr.Seating

/-!
# Failures of evaluations say where they are

A failure points into a source if there is a text at its range, or if that is empty, and if a
name that is not defined is what stands there. An evaluation of a tree that is faithful to a
source fails only so (`points_of_evaluate`): wherever it fails it does so at the range of a
node, and at an undefined name at the range of that name. Arrow functions carry the nodes of
their bodies through values, so this is an evaluation compared with itself (`pointing`), where
trees are like themselves if they are faithful.
-/

namespace Stencil.Expr

open Evaluator

/-- The failure says where it is in a source that stands at byte `base`. -/
structure ExprError.Points (source : Text) (base : Nat) (e : ExprError) : Prop where
  /-- There is something at its range, unless that is empty. -/
  text : e.span.start < e.span.stop → ∃ t, Text.Holds source base e.span t
  /-- A name that is not defined is what is there. -/
  undefined : ∀ x, e.cause = .runtime (.notDefined x) → Text.Holds source base e.span x

variable {source t : Text} {base : Nat} {span : Span} {e : ExprError}

/-- A failure that points into a text in a source points into the source. -/
theorem ExprError.Points.within (h : e.Points t span.start) (ht : Text.Holds source base span t) :
    e.Points source base where
  text hlt := by
    obtain ⟨u, hu⟩ := h.text hlt
    exact ⟨u, ht.within hu⟩
  undefined x hx := ht.within (h.undefined x hx)

/-! ## An evaluation compared with itself -/

/-- There is something in the source at the range. -/
def Marked (source : Text) (base : Nat) (s : Span) : Prop :=
  ∃ t, t ≠ [] ∧ Text.Holds source base s t

/-- Any trouble but an undefined name may befall where there is something. -/
theorem Marked.points (h : Marked source base span) {t : Trouble} (ht : t.undefined? = none) :
    (ExprError.runtime span t).Points source base where
  text _ := by
    obtain ⟨u, -, hu⟩ := h
    exact ⟨u, hu⟩
  undefined x hx := by
    obtain rfl := Cause.runtime.inj hx
    cases ht

theorem points_notDefined {x : Text} (h : Text.Holds source base span x) :
    (ExprError.runtime span (.notDefined x)).Points source base where
  text _ := ⟨x, h⟩
  undefined y hy := by
    cases hy
    exact h

/-- An evaluation and itself. It may fail if the failure points into the source. -/
def pointing (source : Text) (base : Nat) : Comparison where
  identities := Eq
  arrows a b := a.params = b.params ∧
    Tree.Like (fun s _ => Marked source base s) (fun t s _ => Text.Holds source base s t)
      a.body b.body ∧ a.scope = b.scope
  spans s _ := Marked source base s
  names t s _ := Text.Holds source base s t
  progress := Eq
  excused e := e.Points source base
  allowed _ := False
  failures _ _ := False
  identities_iff h h' := by rw [h, h']
  identities_child h position := by rw [h]
  made h := by rw [h]; exact ⟨rfl, rfl⟩
  trouble h _ ht := .inl (h.points ht)
  undefined h := .inl (points_notDefined h)

theorem settings_pointing (source : Text) (base : Nat) (c : Context) (limits : Limits) :
    (pointing source base).Settings ⟨Globals.within c, limits⟩ ⟨Globals.within c, limits⟩ where
  globals := within_like (fun _ => rfl) c
  arrows_iff := Iff.rfl
  tick hs := by
    rintro p _ rfl
    rw [Eval.tick_apply, Eval.tick_apply]
    split
    · exact .excused (hs.points rfl) _
    · exact .values trivial rfl
  calls := Nat.le_refl _
  exhausted hs := hs.points rfl
  tooDeep hs := hs.points rfl

/-! ## Faithful trees -/

theorem Tree.Faithful.child {e child : Tree} (h : e.Faithful source base)
    (hchild : child ∈ e.children) : child.Faithful source base :=
  fun node hnode => h node (.deeper hchild hnode)

mutual

/-- A tree that is faithful is like itself. -/
theorem Tree.like_self (e : Tree) (h : e.Faithful source base) :
    Tree.Like (pointing source base).spans (pointing source base).names e e := by
  have hspan : Marked source base e.span := h.placed.text
  cases e with
  | undefined => exact .undefined hspan
  | null => exact .null hspan
  | bool _ b => exact .bool hspan b
  | number _ x => exact .number hspan x
  | string _ t => exact .string hspan t
  | template _ parts =>
      refine .template hspan (partsLike_self parts fun e he => h.child ?_)
      exact List.mem_filterMap.2 ⟨.code e, he, rfl⟩
  | name s t => exact .name hspan t (h.placed.named s t rfl)
  | array _ items => exact .array hspan (itemsLike_self items fun e he => h.child he)
  | object _ properties =>
      exact .object hspan rfl
        (propertiesLike_self properties fun p hp => h.child (List.mem_map_of_mem hp))
  | member _ object property optional =>
      exact .member hspan (object.like_self (h.child (by simp [Tree.children]))) property optional
  | index _ object key optional =>
      exact .index hspan (object.like_self (h.child (by simp [Tree.children])))
        (key.like_self (h.child (by simp [Tree.children]))) optional
  | call _ callee args =>
      exact .call hspan (callee.like_self (h.child (by simp [Tree.children])))
        (itemsLike_self args fun e he => h.child (List.mem_cons_of_mem callee he))
  | arrow _ params body =>
      exact .arrow hspan params (body.like_self (h.child (by simp [Tree.children])))
  | unary _ op operand =>
      exact .unary hspan op (operand.like_self (h.child (by simp [Tree.children])))
  | binary _ op lhs rhs =>
      exact .binary hspan op (lhs.like_self (h.child (by simp [Tree.children])))
        (rhs.like_self (h.child (by simp [Tree.children])))
  | conditional _ test consequent alternate =>
      exact .conditional hspan (test.like_self (h.child (by simp [Tree.children])))
        (consequent.like_self (h.child (by simp [Tree.children])))
        (alternate.like_self (h.child (by simp [Tree.children])))
termination_by structural e

theorem partsLike_self (parts : List Part) (h : ∀ e, .code e ∈ parts → e.Faithful source base) :
    List.Forall₂ (Part.Like (pointing source base).spans (pointing source base).names) parts
      parts := by
  cases parts with
  | nil => exact .nil
  | cons part parts =>
      have hrest := partsLike_self parts fun e he => h e (List.mem_cons_of_mem part he)
      cases part with
      | text t => exact .cons (.text t) hrest
      | code e => exact .cons (.code (e.like_self (h e List.mem_cons_self))) hrest
termination_by structural parts

theorem itemsLike_self (items : List Tree) (h : ∀ e ∈ items, e.Faithful source base) :
    List.Forall₂ (Tree.Like (pointing source base).spans (pointing source base).names) items
      items := by
  cases items with
  | nil => exact .nil
  | cons e items =>
      exact .cons (e.like_self (h e List.mem_cons_self))
        (itemsLike_self items fun e' he => h e' (List.mem_cons_of_mem e he))
termination_by structural items

theorem propertiesLike_self (properties : List (Text × Tree))
    (h : ∀ p ∈ properties, p.2.Faithful source base) :
    List.Forall₂
      (fun p q => Tree.Like (pointing source base).spans (pointing source base).names p.2 q.2)
      properties properties := by
  cases properties with
  | nil => exact .nil
  | cons p properties =>
      obtain ⟨key, e⟩ := p
      exact .cons (e.like_self (h (key, e) List.mem_cons_self))
        (propertiesLike_self properties fun p hp => h p (List.mem_cons_of_mem _ hp))
termination_by structural properties

end

/-- **An evaluation fails at what stands in its source.** -/
theorem points_of_evaluate {tree : Tree} (hfaithful : tree.Faithful source base) {c : Context}
    {limits : Limits} (h : tree.evaluate (Globals.within c) limits = .error e) :
    e.Points source base := by
  have hvisits : VisitsAgree (pointing source base)
      (run ⟨Globals.within c, limits⟩ (limits.steps + 1))
      (run ⟨Globals.within c, limits⟩ (limits.steps + 1)) :=
    run_agree (settings_pointing source base c limits) (.inl (Nat.le_refl _))
  have hvalues : (pointing source base).Agree (Value.Like _)
      (value (run ⟨Globals.within c, limits⟩ (limits.steps + 1)) [] 0 tree)
      (value (run ⟨Globals.within c, limits⟩ (limits.steps + 1)) [] 0 tree) :=
    value_agree hvisits .nil (tree.like_self hfaithful)
  have hfrom := hvalues {} {} rfl
  change Prod.fst <$> value _ [] 0 tree {} = _ at h
  generalize value _ [] 0 tree {} = outcome at h hfrom
  cases hfrom with
  | values => cases h
  | excused hpoints =>
      cases h
      exact hpoints
  | allowed _ hfalse => exact absurd hfalse id
  | failures hfalse => exact absurd hfalse id

end Stencil.Expr
