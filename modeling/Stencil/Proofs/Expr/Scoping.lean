import Stencil.Proofs.Bindings
import Stencil.Proofs.Expr.Comparison.Run

/-!
# Names stand for places

What a name means is the place that binds it: the first parameter of that name, counted
from the innermost function out, or the global of that name where there is none. Two names
in two scopes are bound alike if the place is the same (`BoundAlike`), whatever the names
are. Trees are aligned if they differ only in names that are bound alike, and, where that
is let, in optional links of the second that are not optional in the first.

Arrow functions leave the place where they stand, as values, and are called in frames that
have nothing to do with it. They are aligned if their bodies are, in the scopes that each
was made in. So evaluations of aligned trees agree (`run_aligned`), whoever calls what is
made in them.
-/

namespace Stencil.Expr

open Comparison (Agree)
open Evaluator

/-! ## Names in scopes -/

/-- The names are bound by the parameters at one place of two scopes, or are one name that
neither scope binds. -/
inductive BoundAlike : (xs ys : List Text) → (x y : Text) → Prop where
  | free (x : Text) : BoundAlike [] [] x x
  | here (xs ys : List Text) (x y : Text) : BoundAlike (x :: xs) (y :: ys) x y
  | there {xs ys : List Text} {x y p q : Text} (hx : x ≠ p) (hy : y ≠ q)
      (h : BoundAlike xs ys x y) : BoundAlike (p :: xs) (q :: ys) x y

namespace BoundAlike

variable {xs ys zs : List Text} {x y : Text}

/-- In one scope a name is bound like itself. -/
theorem refl (xs : List Text) (x : Text) : BoundAlike xs xs x x := by
  induction xs with
  | nil => exact .free x
  | cons p xs ih =>
      by_cases h : x = p
      · subst h
        exact .here xs xs x x
      · exact .there h h ih

/-- Names that some parameters do not bind are bound behind them. -/
theorem behind {ps qs : List Text} (hlength : ps.length = qs.length) (hx : x ∉ ps) (hy : y ∉ qs)
    (h : BoundAlike xs ys x y) : BoundAlike (ps ++ xs) (qs ++ ys) x y := by
  induction ps generalizing qs with
  | nil =>
      obtain rfl := List.length_eq_zero_iff.1 hlength.symm
      exact h
  | cons p ps ih =>
      cases qs with
      | nil => cases hlength
      | cons q qs =>
          rw [List.mem_cons, not_or] at hx hy
          exact .there hx.1 hy.1 (ih (Nat.succ.inj hlength) hx.2 hy.2)

/-- A name that two scopes start with is bound like itself. -/
theorem common (hx : x ∈ zs) (xs ys : List Text) : BoundAlike (zs ++ xs) (zs ++ ys) x x := by
  induction zs with
  | nil => cases hx
  | cons z zs ih =>
      by_cases h : x = z
      · subst h
        exact .here _ _ x x
      · exact .there h h (ih (List.mem_of_ne_of_mem h hx))

/-- A parameter is bound like what it is renamed to. -/
theorem renamed {ps : List Text} {ρ : Text → Text} (hx : x ∈ ps)
    (hinj : ∀ p ∈ ps, ∀ q ∈ ps, ρ p = ρ q → p = q) (xs ys : List Text) :
    BoundAlike (ps ++ xs) (ps.map ρ ++ ys) x (ρ x) := by
  induction ps with
  | nil => cases hx
  | cons p ps ih =>
      by_cases h : x = p
      · subst h
        exact .here _ _ x (ρ x)
      · refine .there h (fun heq => h (hinj x hx p List.mem_cons_self heq)) ?_
        refine ih (List.mem_of_ne_of_mem h hx) fun p' hp' q' hq' => ?_
        exact hinj p' (List.mem_cons_of_mem p hp') q' (List.mem_cons_of_mem p hq')

end BoundAlike

/-! ## Trees -/

mutual

/-- Trees that differ only in names that are bound alike in two scopes, and, if `relaxed`, in
links that are optional only in the second. -/
inductive Tree.Aligned (relaxed : Prop) : (xs ys : List Text) → Tree → Tree → Prop where
  | undefined {xs ys : List Text} (s : Span) :
      Tree.Aligned relaxed xs ys (.undefined s) (.undefined s)
  | null {xs ys : List Text} (s : Span) : Tree.Aligned relaxed xs ys (.null s) (.null s)
  | bool {xs ys : List Text} (s : Span) (b : Bool) :
      Tree.Aligned relaxed xs ys (.bool s b) (.bool s b)
  | number {xs ys : List Text} (s : Span) (x : Float) :
      Tree.Aligned relaxed xs ys (.number s x) (.number s x)
  | string {xs ys : List Text} (s : Span) (t : Text) :
      Tree.Aligned relaxed xs ys (.string s t) (.string s t)
  | template {xs ys : List Text} (s : Span) {parts parts' : List Part}
      (h : PartsAligned relaxed xs ys parts parts') :
      Tree.Aligned relaxed xs ys (.template s parts) (.template s parts')
  | name {xs ys : List Text} (s : Span) {x y : Text} (h : BoundAlike xs ys x y) :
      Tree.Aligned relaxed xs ys (.name s x) (.name s y)
  | array {xs ys : List Text} (s : Span) {items items' : List Tree}
      (h : ItemsAligned relaxed xs ys items items') :
      Tree.Aligned relaxed xs ys (.array s items) (.array s items')
  | object {xs ys : List Text} (s : Span) {properties properties' : List (Text × Tree)}
      (h : PropertiesAligned relaxed xs ys properties properties') :
      Tree.Aligned relaxed xs ys (.object s properties) (.object s properties')
  | member {xs ys : List Text} (s : Span) {object object' : Tree}
      (h : Tree.Aligned relaxed xs ys object object') (property : Text) {optional optional' : Bool}
      (hoptional : optional = optional' ∨ relaxed ∧ optional = false) :
      Tree.Aligned relaxed xs ys (.member s object property optional)
        (.member s object' property optional')
  | index {xs ys : List Text} (s : Span) {object object' key key' : Tree}
      (h : Tree.Aligned relaxed xs ys object object') (hkey : Tree.Aligned relaxed xs ys key key')
      {optional optional' : Bool}
      (hoptional : optional = optional' ∨ relaxed ∧ optional = false) :
      Tree.Aligned relaxed xs ys (.index s object key optional) (.index s object' key' optional')
  | call {xs ys : List Text} (s : Span) {callee callee' : Tree} {args args' : List Tree}
      (h : Tree.Aligned relaxed xs ys callee callee')
      (hargs : ItemsAligned relaxed xs ys args args') :
      Tree.Aligned relaxed xs ys (.call s callee args) (.call s callee' args')
  | arrow {xs ys : List Text} (s : Span) {params params' : List Text} {body body' : Tree}
      (hlength : params.length = params'.length)
      (h : Tree.Aligned relaxed (params.reverse ++ xs) (params'.reverse ++ ys) body body') :
      Tree.Aligned relaxed xs ys (.arrow s params body) (.arrow s params' body')
  | unary {xs ys : List Text} (s : Span) (op : UnaryOp) {operand operand' : Tree}
      (h : Tree.Aligned relaxed xs ys operand operand') :
      Tree.Aligned relaxed xs ys (.unary s op operand) (.unary s op operand')
  | binary {xs ys : List Text} (s : Span) (op : BinaryOp) {lhs lhs' rhs rhs' : Tree}
      (h : Tree.Aligned relaxed xs ys lhs lhs') (h' : Tree.Aligned relaxed xs ys rhs rhs') :
      Tree.Aligned relaxed xs ys (.binary s op lhs rhs) (.binary s op lhs' rhs')
  | conditional {xs ys : List Text} (s : Span)
      {test test' consequent consequent' alternate alternate' : Tree}
      (h : Tree.Aligned relaxed xs ys test test')
      (hyes : Tree.Aligned relaxed xs ys consequent consequent')
      (hno : Tree.Aligned relaxed xs ys alternate alternate') :
      Tree.Aligned relaxed xs ys (.conditional s test consequent alternate)
        (.conditional s test' consequent' alternate')

/-- Parts of templates that are the same texts and aligned trees. -/
inductive PartsAligned (relaxed : Prop) :
    (xs ys : List Text) → List Part → List Part → Prop where
  | nil {xs ys : List Text} : PartsAligned relaxed xs ys [] []
  | text {xs ys : List Text} (t : Text) {parts parts' : List Part}
      (h : PartsAligned relaxed xs ys parts parts') :
      PartsAligned relaxed xs ys (.text t :: parts) (.text t :: parts')
  | code {xs ys : List Text} {e e' : Tree} (he : Tree.Aligned relaxed xs ys e e')
      {parts parts' : List Part} (h : PartsAligned relaxed xs ys parts parts') :
      PartsAligned relaxed xs ys (.code e :: parts) (.code e' :: parts')

/-- Lists of aligned trees. -/
inductive ItemsAligned (relaxed : Prop) :
    (xs ys : List Text) → List Tree → List Tree → Prop where
  | nil {xs ys : List Text} : ItemsAligned relaxed xs ys [] []
  | cons {xs ys : List Text} {e e' : Tree} (he : Tree.Aligned relaxed xs ys e e')
      {items items' : List Tree} (h : ItemsAligned relaxed xs ys items items') :
      ItemsAligned relaxed xs ys (e :: items) (e' :: items')

/-- Properties with the same keys and aligned trees. -/
inductive PropertiesAligned (relaxed : Prop) :
    (xs ys : List Text) → List (Text × Tree) → List (Text × Tree) → Prop where
  | nil {xs ys : List Text} : PropertiesAligned relaxed xs ys [] []
  | cons {xs ys : List Text} (key : Text) {e e' : Tree} (he : Tree.Aligned relaxed xs ys e e')
      {properties properties' : List (Text × Tree)}
      (h : PropertiesAligned relaxed xs ys properties properties') :
      PropertiesAligned relaxed xs ys ((key, e) :: properties) ((key, e') :: properties')

end

variable {relaxed : Prop} {xs ys : List Text}

theorem ItemsAligned.forall₂ : ∀ {xs ys : List Text} {items items' : List Tree},
    ItemsAligned relaxed xs ys items items' →
      List.Forall₂ (Tree.Aligned relaxed xs ys) items items'
  | _, _, _, _, .nil => .nil
  | _, _, _, _, .cons he h => .cons he h.forall₂

theorem PropertiesAligned.forall₂ : ∀ {xs ys : List Text}
    {properties properties' : List (Text × Tree)},
    PropertiesAligned relaxed xs ys properties properties' →
      List.Forall₂ (fun p q => p.1 = q.1 ∧ Tree.Aligned relaxed xs ys p.2 q.2) properties
        properties'
  | _, _, _, _, .nil => .nil
  | _, _, _, _, .cons _ he h => .cons ⟨rfl, he⟩ h.forall₂

/-- Parts that are the same text or aligned trees. -/
def PartAligned (relaxed : Prop) (xs ys : List Text) : Part → Part → Prop
  | .text t, .text t' => t = t'
  | .code e, .code e' => Tree.Aligned relaxed xs ys e e'
  | _, _ => False

theorem PartsAligned.forall₂ : ∀ {xs ys : List Text} {parts parts' : List Part},
    PartsAligned relaxed xs ys parts parts' →
      List.Forall₂ (PartAligned relaxed xs ys) parts parts'
  | _, _, _, _, .nil => .nil
  | _, _, _, _, .text _ h => .cons rfl h.forall₂
  | _, _, _, _, .code he h => .cons he h.forall₂

theorem Tree.Aligned.span_eq {e e' : Tree} (h : Tree.Aligned relaxed xs ys e e') :
    e.span = e'.span := by
  cases h <;> rfl

mutual

/-- In one scope a tree is aligned with itself. -/
theorem Tree.aligned_self (relaxed : Prop) (xs : List Text) (e : Tree) :
    Tree.Aligned relaxed xs xs e e := by
  cases e with
  | undefined s => exact .undefined s
  | null s => exact .null s
  | bool s b => exact .bool s b
  | number s x => exact .number s x
  | string s t => exact .string s t
  | template s parts => exact .template s (partsAligned_self relaxed xs parts)
  | name s t => exact .name s (.refl xs t)
  | array s items => exact .array s (itemsAligned_self relaxed xs items)
  | object s properties => exact .object s (propertiesAligned_self relaxed xs properties)
  | member s object property optional =>
      exact .member s (object.aligned_self relaxed xs) property (.inl rfl)
  | index s object key optional =>
      exact .index s (object.aligned_self relaxed xs) (key.aligned_self relaxed xs) (.inl rfl)
  | call s callee args =>
      exact .call s (callee.aligned_self relaxed xs) (itemsAligned_self relaxed xs args)
  | arrow s params body => exact .arrow s rfl (body.aligned_self relaxed (params.reverse ++ xs))
  | unary s op operand => exact .unary s op (operand.aligned_self relaxed xs)
  | binary s op lhs rhs =>
      exact .binary s op (lhs.aligned_self relaxed xs) (rhs.aligned_self relaxed xs)
  | conditional s test consequent alternate =>
      exact .conditional s (test.aligned_self relaxed xs) (consequent.aligned_self relaxed xs)
        (alternate.aligned_self relaxed xs)
termination_by structural e

theorem partsAligned_self (relaxed : Prop) (xs : List Text) (parts : List Part) :
    PartsAligned relaxed xs xs parts parts := by
  cases parts with
  | nil => exact .nil
  | cons part parts => cases part with
      | text t => exact .text t (partsAligned_self relaxed xs parts)
      | code e => exact .code (e.aligned_self relaxed xs) (partsAligned_self relaxed xs parts)
termination_by structural parts

theorem itemsAligned_self (relaxed : Prop) (xs : List Text) (items : List Tree) :
    ItemsAligned relaxed xs xs items items := by
  cases items with
  | nil => exact .nil
  | cons e items => exact .cons (e.aligned_self relaxed xs) (itemsAligned_self relaxed xs items)
termination_by structural items

theorem propertiesAligned_self (relaxed : Prop) (xs : List Text)
    (properties : List (Text × Tree)) : PropertiesAligned relaxed xs xs properties properties := by
  cases properties with
  | nil => exact .nil
  | cons p properties =>
      obtain ⟨key, e⟩ := p
      exact .cons key (e.aligned_self relaxed xs) (propertiesAligned_self relaxed xs properties)
termination_by structural properties

end

/-! ## Values -/

/-- Causes that differ at most in how a callee that is no function is described. -/
def Cause.SameKind : Cause → Cause → Prop
  | .runtime (.notAFunction _), .runtime (.notAFunction _) => True
  | c, c' => c = c'

theorem Cause.SameKind.refl (c : Cause) : c.SameKind c := by
  unfold SameKind
  split
  · trivial
  · rfl

/-- Failures of one kind at one range. -/
structure ExprError.SameKind (e e' : ExprError) : Prop where
  span : e.span = e'.span
  cause : e.cause.SameKind e'.cause

theorem ExprError.SameKind.refl (e : ExprError) : e.SameKind e :=
  ⟨rfl, .refl e.cause⟩

theorem Identity.eq_iff_eq_of_eq {a a' b b' : Identity} (h : a = b) (h' : a' = b') :
    a = a' ↔ b = b' := by
  rw [h, h']

theorem Identity.child_eq_of_eq {a b : Identity} (h : a = b) (position : Nat) :
    a.child position = b.child position := by
  rw [h]

theorem Progress.made_eq_of_eq {p q : Progress} (h : p = q) :
    Identity.made p.made = .made q.made ∧
      { p with made := p.made + 1 } = { q with made := q.made + 1 } := by
  subst h
  exact ⟨rfl, rfl⟩

/-- Evaluations that go in step, one thing made after the other. Arrow functions stand for one
another if their bodies are aligned in the scopes that they were made in. If `relaxed`, the
first may fail where the second goes on. -/
def aligning (relaxed : Prop) : Comparison where
  identities := Eq
  arrows a b := a.params.length = b.params.length ∧
    Tree.Aligned relaxed (a.params.reverse ++ a.scope.flatten) (b.params.reverse ++ b.scope.flatten)
      a.body b.body
  spans := Eq
  names _ := Eq
  progress := Eq
  excused _ := relaxed
  allowed _ := False
  failures := ExprError.SameKind
  identities_iff := @Identity.eq_iff_eq_of_eq
  identities_child := @Identity.child_eq_of_eq
  made := @Progress.made_eq_of_eq
  trouble h t _ := by rw [h]; exact .inr (.inr (.refl _))
  undefined h := by rw [h]; exact .inr (.inr (.refl _))

/-- Identities and arrow functions stand for themselves. -/
structure Comparison.Reflexive (C : Comparison) : Prop where
  identities (a : Identity) : C.identities a a
  arrows (a : Arrow) : C.arrows a a

theorem reflexive_aligning (relaxed : Prop) : (aligning relaxed).Reflexive where
  identities _ := rfl
  arrows a := ⟨rfl, a.body.aligned_self relaxed _⟩

section Self

variable {C : Comparison}

mutual

/-- Where identities and arrow functions stand for themselves, all values do. -/
theorem Value.like_self (hC : C.Reflexive) (v : Value) : Value.Like C v v := by
  cases v with
  | undefined => exact .undefined
  | null => exact .null
  | bool b => exact .bool b
  | number x => exact .number x
  | string t => exact .string t
  | array id items => exact .array (hC.identities id) (valuesLike_self hC items)
  | object id fields => exact .object (hC.identities id) rfl (fieldsLike_self hC fields)
  | function f => exact .function (f.like_self hC)
termination_by structural v

theorem Function.like_self (hC : C.Reflexive) (f : Function) : Function.Like C f f := by
  cases f with
  | closure id params body frames =>
      exact .closure (hC.identities id) (hC.arrows _) (framesLike_self hC frames)
  | helper h => exact .helper h
  | method m => exact .method (m.like_self hC)
termination_by structural f

theorem Method.like_self (hC : C.Reflexive) (m : Method) : Method.Like C m m := by
  cases m with
  | ofArray m id items => exact .ofArray m (hC.identities id) (valuesLike_self hC items)
  | ofText m t => exact .ofText m t
  | ofNumber m x => exact .ofNumber m x
  | describe v => exact .describe (v.like_self hC)
termination_by structural m

theorem valuesLike_self (hC : C.Reflexive) (vs : List Value) :
    List.Forall₂ (Value.Like C) vs vs := by
  cases vs with
  | nil => exact .nil
  | cons v vs => exact .cons (v.like_self hC) (valuesLike_self hC vs)
termination_by structural vs

theorem fieldsLike_self (hC : C.Reflexive) (fs : List (Text × Value)) :
    List.Forall₂ (fun f g => Value.Like C f.2 g.2) fs fs := by
  cases fs with
  | nil => exact .nil
  | cons f fs =>
      obtain ⟨name, v⟩ := f
      exact .cons (v.like_self hC) (fieldsLike_self hC fs)
termination_by structural fs

theorem framesLike_self (hC : C.Reflexive) (fs : List (List (Text × Value))) :
    List.Forall₂ (List.Forall₂ fun f g => Value.Like C f.2 g.2) fs fs := by
  cases fs with
  | nil => exact .nil
  | cons f fs => exact .cons (fieldsLike_self hC f) (framesLike_self hC fs)
termination_by structural fs

end

end Self

/-! ## Frames -/

/-- The names of parameters in frames, as look-up passes them. -/
def frameNames (fs : Frames) : List Text :=
  (fs.map (List.map Prod.fst)).flatten

/-- Values of parameters that are alike one by one, whatever the names. -/
abbrev ParametersLike (C : Comparison) : Frames → Frames → Prop :=
  List.Forall₂ (List.Forall₂ fun f g => Value.Like C f.2 g.2)

theorem map_fst_frameOf (params : List Text) (args : List Value) :
    (frameOf params args).map Prod.fst = params.reverse := by
  rw [frameOf, List.map_reverse, List.map_map]
  exact congrArg List.reverse (List.zipIdx_map_fst 0 params)

theorem frameNames_cons (params : List Text) (args : List Value) (fs : Frames) :
    frameNames (frameOf params args :: fs) = params.reverse ++ frameNames fs := by
  rw [frameNames, List.map_cons, List.flatten_cons, map_fst_frameOf]
  rfl

/-- Frames are looked through as one list of parameters. -/
theorem findSome?_get? (fs : Frames) (name : Text) :
    (fs.findSome? fun frame => Bindings.get? frame name) = Bindings.get? fs.flatten name := by
  induction fs with
  | nil => rfl
  | cons frame fs ih =>
      rw [List.findSome?_cons, List.flatten_cons, Bindings.get?_append, ih]
      cases Bindings.get? frame name <;> rfl

section Frames

variable {C : Comparison}

theorem frameOf_parametersLike {params params' : List Text}
    (hlength : params.length = params'.length) {args args' : List Value}
    (h : List.Forall₂ (Value.Like C) args args') :
    List.Forall₂ (fun f g => Value.Like C f.2 g.2) (frameOf params args)
      (frameOf params' args') := by
  have hfrom : ∀ (k : Nat) (params params' : List Text), params.length = params'.length →
      List.Forall₂ (fun f g => Value.Like C f.2 g.2)
        ((params.zipIdx k).map fun p => (p.1, argument args p.2))
        ((params'.zipIdx k).map fun p => (p.1, argument args' p.2)) := by
    intro k params
    induction params generalizing k with
    | nil =>
        intro params' hlength
        obtain rfl := List.length_eq_zero_iff.1 hlength.symm
        exact .nil
    | cons x params ih =>
        intro params' hlength
        cases params' with
        | nil => cases hlength
        | cons y params' =>
            exact .cons (argument_like h k) (ih (k + 1) params' (Nat.succ.inj hlength))
  exact List.rel_reverse (hfrom 0 params params' hlength)

/-- Names that are bound alike have values that are alike, or are one name without any. -/
theorem get?_boundAlike {fs gs : List (Text × Value)}
    (h : List.Forall₂ (fun f g => Value.Like C f.2 g.2) fs gs) {x y : Text}
    (hxy : BoundAlike (fs.map Prod.fst) (gs.map Prod.fst) x y) :
    (∃ v w, Bindings.get? fs x = some v ∧ Bindings.get? gs y = some w ∧ Value.Like C v w) ∨
      Bindings.get? fs x = none ∧ Bindings.get? gs y = none ∧ x = y := by
  induction h with
  | nil =>
      cases hxy
      exact .inr ⟨rfl, rfl, rfl⟩
  | @cons f g fs gs hvalue _ ih =>
      obtain ⟨p, v⟩ := f
      obtain ⟨q, w⟩ := g
      cases hxy with
      | here => exact .inl ⟨v, w, if_pos rfl, if_pos rfl, hvalue⟩
      | there hx hy hrest =>
          simp only [Bindings.get?, if_neg (Ne.symm hx), if_neg (Ne.symm hy)]
          exact ih hrest

/-- **Names that are bound alike stand for the same**, where the globals do. -/
theorem lookup?_boundAlike {globals globals' : Globals} (hglobals : FieldsLike C globals globals')
    {fs gs : Frames} (h : ParametersLike C fs gs) {x y : Text}
    (hxy : BoundAlike (frameNames fs) (frameNames gs) x y) :
    Option.Rel (Value.Like C) (lookup? globals fs x) (lookup? globals' gs y) ∧
      (lookup? globals fs x = none → x = y) := by
  have hflat : List.Forall₂ (fun f g => Value.Like C f.2 g.2) fs.flatten gs.flatten :=
    List.rel_flatten h
  unfold lookup?
  rw [findSome?_get?, findSome?_get?]
  unfold frameNames at hxy
  rw [← List.map_flatten, ← List.map_flatten] at hxy
  rcases get?_boundAlike hflat hxy with ⟨v, w, hv, hw, hvw⟩ | ⟨hv, hw, rfl⟩
  · rw [hv, hw]
    exact ⟨.some hvw, fun h => by cases h⟩
  · rw [hv, hw, Option.none_or, Option.none_or]
    exact ⟨get?_like hglobals x, fun _ => rfl⟩

end Frames

end Stencil.Expr
