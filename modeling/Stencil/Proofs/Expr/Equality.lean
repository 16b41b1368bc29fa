import Stencil.Proofs.Expr.Position
import Stencil.Proofs.Number.Equal

/-!
# Equality of values

Strictly equal values are of one kind and hold equal numbers, equal texts or one identity
(`StrictlyEqual`), so the laws of strict equality are those of what they hold. It is symmetric and
transitive, but what is not a number equals nothing, and neither does a method.

Loose equality is strict equality of what the two sides become against each other
(`looseEq_eq_strictEq_against`). All its arms are compared with their mirror images there, once
and for all, and it is symmetric because strict equality is. Of values with one `typeof` it is
strict equality itself.

`indexOf` looks for an item by strict equality. `includes` does so too, and besides finds NaN.
-/

namespace Stencil.Expr

open Stencil.Number (beq_comm beq_of_isNaN beq_trans ofInt ofNat)

variable {u v w : Value}

/-! ## Strict equality -/

/-- Values that are equal without conversion. -/
inductive StrictlyEqual : Value → Value → Prop
  | undefined : StrictlyEqual .undefined .undefined
  | null : StrictlyEqual .null .null
  | bool (b : Bool) : StrictlyEqual (.bool b) (.bool b)
  | number {x y : Float} (h : (x == y) = true) : StrictlyEqual (.number x) (.number y)
  | string (t : Text) : StrictlyEqual (.string t) (.string t)
  | array (id : Identity) (items items' : List Value) :
      StrictlyEqual (.array id items) (.array id items')
  | object (id : Identity) (fields fields' : List (Text × Value)) :
      StrictlyEqual (.object id fields) (.object id fields')
  | closure (id : Identity) (params params' : List Text) (body body' : Tree)
      (frames frames' : Frames) :
      StrictlyEqual (.function (.closure id params body frames))
        (.function (.closure id params' body' frames'))
  | helper (h : Helper) : StrictlyEqual (.function (.helper h)) (.function (.helper h))

namespace StrictlyEqual

theorem symm (h : StrictlyEqual v w) : StrictlyEqual w v := by
  cases h with
  | undefined => exact .undefined
  | null => exact .null
  | bool b => exact .bool b
  | number h => exact .number ((beq_comm _ _).trans h)
  | string t => exact .string t
  | array => exact .array ..
  | object => exact .object ..
  | closure => exact .closure ..
  | helper g => exact .helper g

theorem trans (h : StrictlyEqual u v) (h' : StrictlyEqual v w) : StrictlyEqual u w := by
  cases h with
  | undefined | null | bool | string | helper => exact h'
  | number h =>
      cases h' with
      | number h' => exact .number (beq_trans h h')
  | array =>
      cases h'
      exact .array ..
  | object =>
      cases h'
      exact .object ..
  | closure =>
      cases h'
      exact .closure ..

theorem kind_eq (h : StrictlyEqual v w) : v.kind = w.kind := by
  cases h <;> rfl

theorem of_same {f g : Function} (h : f.same g = true) :
    StrictlyEqual (.function f) (.function g) := by
  unfold Function.same at h
  split at h
  · obtain rfl := of_decide_eq_true h
    exact .closure ..
  · obtain rfl := of_decide_eq_true h
    exact .helper _
  · cases h

end StrictlyEqual

namespace Value

theorem strictEq_iff : v.strictEq w = true ↔ StrictlyEqual v w := by
  constructor
  · intro h
    unfold strictEq at h
    split at h
    · exact .undefined
    · exact .null
    · obtain rfl := of_decide_eq_true h
      exact .bool _
    · exact .number h
    · obtain rfl := of_decide_eq_true h
      exact .string _
    · obtain rfl := of_decide_eq_true h
      exact .array ..
    · obtain rfl := of_decide_eq_true h
      exact .object ..
    · exact .of_same h
    · cases h
  · intro h
    cases h with
    | undefined | null => rfl
    | number h => exact h
    | bool | string | array | object | closure | helper => exact decide_eq_true rfl

theorem strictEq_comm (v w : Value) : v.strictEq w = w.strictEq v := by
  rw [Bool.eq_iff_iff, strictEq_iff, strictEq_iff]
  exact ⟨StrictlyEqual.symm, StrictlyEqual.symm⟩

theorem strictEq_trans (h : u.strictEq v = true) (h' : v.strictEq w = true) :
    u.strictEq w = true :=
  strictEq_iff.2 ((strictEq_iff.1 h).trans (strictEq_iff.1 h'))

/-! ## Loose equality -/

/-- What a value is taken for when it is compared with another. A truth value makes numbers of
both, and so do a number and a text or an array. Against a text an array is its own text. -/
def against (v w : Value) : Value :=
  match v, w with
  | undefined, _ | null, _ => null
  | bool _, _ | _, bool _ => number v.toNumber
  | number _, string _ | string _, number _ => number v.toNumber
  | number _, array .. | array .., number _ => number v.toNumber
  | array .., string _ => string v.toText
  | _, _ => v

/-- **Loose equality is strict equality after conversion.** -/
theorem looseEq_eq_strictEq_against (v w : Value) :
    v.looseEq w = (v.against w).strictEq (w.against v) := by
  -- each pair of kinds picks one arm of either side, and the arms are the same comparison
  cases v <;> cases w <;> rfl

theorem looseEq_comm (v w : Value) : v.looseEq w = w.looseEq v := by
  rw [looseEq_eq_strictEq_against, strictEq_comm, ← looseEq_eq_strictEq_against]

theorem looseEq_of_isNullish (h : v.isNullish = true) (w : Value) :
    v.looseEq w = w.isNullish := by
  unfold looseEq
  rw [h, Bool.true_or, if_pos rfl, Bool.true_and]

theorem looseEq_bool (a b : Bool) : (bool a).looseEq (bool b) = (bool a).strictEq (bool b) := by
  cases a <;> cases b <;> decide +kernel

/-- **Values with one `typeof` are loosely equal just if they are strictly equal.** -/
theorem looseEq_eq_strictEq (h : v.kind = w.kind) : v.looseEq w = v.strictEq w := by
  cases v <;> cases w
  case bool.bool a b => exact looseEq_bool a b
  -- values that are converted, or equal without being the same, have two kinds
  case undefined.null | null.undefined | bool.number | bool.string | bool.array | bool.object |
      bool.function | number.bool | string.bool | array.bool | object.bool | function.bool |
      number.string | string.number | number.array | array.number | string.array | array.string =>
    exact absurd h (by dsimp only [kind]; decide)
  all_goals rfl

theorem looseEq_of_strictEq (h : v.strictEq w = true) : v.looseEq w = true :=
  (looseEq_eq_strictEq (strictEq_iff.1 h).kind_eq).trans h

/-! ## Equality in searches -/

/-- Whether the value is the number that is not a number. -/
def isNaN : Value → Bool
  | number x => Number.isNaN x
  | _ => false

theorem strictEq_of_isNaN (h : w.isNaN = true) (v : Value) : v.strictEq w = false := by
  rw [strictEq_comm]
  cases w with
  | number x =>
      cases v with
      | number y => exact beq_of_isNaN h y
      | _ => rfl
  | _ => cases h

theorem sameValue_iff :
    v.sameValue w = true ↔ v.strictEq w = true ∨ w.isNaN = true ∧ v.isNaN = true := by
  cases v with
  | number x =>
      cases w with
      | number y =>
          rw [sameValue, Bool.or_eq_true, Bool.and_eq_true, and_comm]
          rfl
      | _ => exact ⟨Or.inl, fun h => h.resolve_right fun hnan => Bool.false_ne_true hnan.1⟩
  | _ => exact ⟨Or.inl, fun h => h.resolve_right fun hnan => Bool.false_ne_true hnan.2⟩

end Value

section Items

variable (items : List Value) {w : Value}

theorem any_sameValue_iff : (items.any fun v => v.sameValue w) = true ↔
    (∃ v ∈ items, v.strictEq w = true) ∨ w.isNaN = true ∧ ∃ v ∈ items, v.isNaN = true := by
  simp only [List.any_eq_true, Value.sameValue_iff, and_or_left, exists_or]
  exact or_congr_right ⟨fun ⟨v, hmem, hw, hv⟩ => ⟨hw, v, hmem, hv⟩,
    fun ⟨hw, v, hmem, hv⟩ => ⟨v, hmem, hw, hv⟩⟩

/-- The position that tells of a failed search equals no position of an item. -/
theorem foundPosition_strictEq (i : Option Nat) :
    (foundPosition i).strictEq (.number (ofInt (-1))) = i.isNone := by
  cases i with
  | none =>
      have hvalue := Number.hasValue_ofInt (n := -1) (by decide)
      exact hvalue.beq hvalue
  | some i => exact Number.ofNat_beq_ofInt_neg i (by decide) (by decide)

theorem findIdx?_strictEq_iff :
    (foundPosition (items.findIdx? fun v => v.strictEq w)).strictEq (.number (ofInt (-1))) = false ↔
      ∃ v ∈ items, v.strictEq w = true := by
  rw [foundPosition_strictEq, Option.isNone_eq_false_iff, List.findIdx?_isSome, List.any_eq_true]

theorem findIdx?_strictEq_of_isNaN (h : w.isNaN = true) :
    (foundPosition (items.findIdx? fun v => v.strictEq w)).strictEq (.number (ofInt (-1))) =
      true := by
  rw [← Bool.not_eq_false, findIdx?_strictEq_iff]
  rintro ⟨v, -, hv⟩
  rw [Value.strictEq_of_isNaN h] at hv
  cases hv

end Items

section Methods

variable (call : Call) (id : Identity) (items args : List Value) (span : Span) (p : Progress)

theorem includes_apply : invoke call (.array id items) "includes" args span p =
    .ok (.bool (items.any fun v => v.sameValue (argument args 0)), p) := rfl

theorem indexOf_apply : invoke call (.array id items) "indexOf" args span p =
    .ok (foundPosition (items.findIdx? fun v => v.strictEq (argument args 0)), p) := rfl

end Methods

/-- **The equality operators are coherent.** Strict equality is symmetric and transitive and
implies loose equality. Loose equality is symmetric. Of values with one `typeof`, such as two
numbers, two arrays or two functions, it is strict equality, and what is undefined or null is
loosely equal just to these two. `indexOf` tells another position than `-1` just if an item is
strictly equal to what it looks for, and so never for NaN. `includes` finds the same, and NaN
besides. -/
theorem equality_coherent (u v w : Value) (call : Call) (id : Identity) (items args : List Value)
    (span : Span) (p : Progress) :
    (u.strictEq v = v.strictEq u ∧
      (u.strictEq v = true → v.strictEq w = true → u.strictEq w = true) ∧
      (u.strictEq v = true → u.looseEq v = true)) ∧
    (u.looseEq v = v.looseEq u ∧
      (u.kind = v.kind → u.looseEq v = u.strictEq v) ∧
      (u.isNullish = true → u.looseEq v = v.isNullish)) ∧
    ∃ found position,
      invoke call (.array id items) "includes" args span p = .ok (.bool found, p) ∧
      invoke call (.array id items) "indexOf" args span p = .ok (position, p) ∧
      (position.strictEq (.number (ofInt (-1))) = false ↔
        ∃ item ∈ items, item.strictEq (argument args 0) = true) ∧
      ((argument args 0).isNaN = true → position.strictEq (.number (ofInt (-1))) = true) ∧
      (found = true ↔ position.strictEq (.number (ofInt (-1))) = false ∨
        (argument args 0).isNaN = true ∧ ∃ item ∈ items, item.isNaN = true) := by
  refine ⟨⟨u.strictEq_comm v, Value.strictEq_trans, Value.looseEq_of_strictEq⟩,
    ⟨u.looseEq_comm v, Value.looseEq_eq_strictEq, fun h => Value.looseEq_of_isNullish h v⟩,
    _, _, includes_apply call id items args span p, indexOf_apply call id items args span p,
    findIdx?_strictEq_iff items, findIdx?_strictEq_of_isNaN items, ?_⟩
  rw [any_sameValue_iff, findIdx?_strictEq_iff]

/-- Both zeros are equal, null is loosely equal to undefined, and NaN is found by `includes`
only. -/
theorem equality_coherent_zeros_and_nan :
    (Value.strictEq (.number (-ofNat 0)) (.number (ofNat 0)) = true ∧
      Value.strictEq (.number (ofNat 0)) (.number (-ofNat 0)) = true ∧
      Value.strictEq (.number (-ofNat 0)) (.number (-ofNat 0)) = true ∧
      Value.looseEq (.number (-ofNat 0)) (.number (ofNat 0)) = true) ∧
    (Value.kind (.number (-ofNat 0)) = Value.kind (.number (ofNat 0)) ∧
      Value.looseEq (.number (-ofNat 0)) (.number (ofNat 0)) =
        Value.strictEq (.number (-ofNat 0)) (.number (ofNat 0))) ∧
    (Value.null.isNullish = true ∧ Value.null.looseEq .undefined = true) ∧
    (Value.number Number.nan).isNaN = true ∧ ∃ position,
      invoke (fun _ _ => Eval.fail ⟨0, 0⟩ .emptyReduce)
        (.array (.made 0) [.string "NaN".toList, .number Number.nan]) "includes"
        [.number Number.nan] ⟨0, 0⟩ {} = .ok (.bool true, {}) ∧
      invoke (fun _ _ => Eval.fail ⟨0, 0⟩ .emptyReduce)
        (.array (.made 0) [.string "NaN".toList, .number Number.nan]) "indexOf"
        [.number Number.nan] ⟨0, 0⟩ {} = .ok (position, {}) ∧
      position.strictEq (.number (ofInt (-1))) = true := by
  have hminus : Value.strictEq (.number (-ofNat 0)) (.number (ofNat 0)) = true := by
    decide +kernel
  have hplus : Value.strictEq (.number (ofNat 0)) (.number (-ofNat 0)) = true := by
    decide +kernel
  have hnan : (Value.number Number.nan).isNaN = true := by decide +kernel
  obtain ⟨⟨-, htrans, himp⟩, ⟨-, hkind, -⟩, found, position, hincludes, hindexOf, -, habsent,
    hfound⟩ := equality_coherent (.number (-ofNat 0)) (.number (ofNat 0)) (.number (-ofNat 0))
      (fun _ _ => Eval.fail ⟨0, 0⟩ .emptyReduce) (.made 0)
      [.string "NaN".toList, .number Number.nan] [.number Number.nan] ⟨0, 0⟩ {}
  obtain ⟨-, ⟨-, -, hnullish⟩, -⟩ := equality_coherent .null .undefined .undefined
    (fun _ _ => Eval.fail ⟨0, 0⟩ .emptyReduce) (.made 0) [] [] ⟨0, 0⟩ {}
  have hmember : Value.number Number.nan ∈ [.string "NaN".toList, .number Number.nan] :=
    List.mem_cons_of_mem _ List.mem_cons_self
  obtain rfl := hfound.2 (Or.inr ⟨hnan, _, hmember, hnan⟩)
  exact ⟨⟨hminus, hplus, htrans hminus hplus, himp hminus⟩, ⟨rfl, hkind rfl⟩,
    ⟨rfl, hnullish rfl⟩, hnan, position, hincludes, hindexOf, habsent hnan⟩

end Stencil.Expr
