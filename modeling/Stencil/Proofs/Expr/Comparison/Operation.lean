import Stencil.Proofs.Expr.Comparison.Value

/-!
# Operations on values that stand for one another

Operators, properties and the choice of items by position give what is alike for what is
alike. Only equality looks at identities, and it sees no more of them than whether two are
the same, which a comparison preserves.
-/

namespace Stencil.Expr

variable {C : Comparison} {v w v' w' : Value}

/-! ## Operators -/

theorem Function.Like.same {f g f' g' : Function} (h : Function.Like C f g)
    (h' : Function.Like C f' g') : f.same f' = g.same g' := by
  cases h with
  | closure id _ _ =>
      cases h' with
      | closure id' _ _ => simp only [Function.same, C.identities_iff id id']
      | _ => rfl
  | helper | method => cases h' <;> rfl

/-- **Equality sees no more of identities than whether two are the same.** -/
theorem Value.Like.strictEq (h : Value.Like C v w) (h' : Value.Like C v' w') :
    v.strictEq v' = w.strictEq w' := by
  cases h with
  | array id _ =>
      cases h' with
      | array id' _ => simp only [Value.strictEq, C.identities_iff id id']
      | _ => rfl
  | object id _ _ =>
      cases h' with
      | object id' _ _ => simp only [Value.strictEq, C.identities_iff id id']
      | _ => rfl
  | function hf =>
      cases h' with
      | function hg => exact hf.same hg
      | _ => rfl
  | _ => cases h' <;> rfl

theorem Value.Like.looseEq (h : Value.Like C v w) (h' : Value.Like C v' w') :
    v.looseEq v' = w.looseEq w' := by
  have hstrict := h.strictEq h'
  have hnumber := h.toNumber
  have hnumber' := h'.toNumber
  have htext := h.toText
  have htext' := h'.toText
  unfold Value.looseEq
  rw [h.isNullish, h'.isNullish]
  split
  · rfl
  · cases h <;> cases h' <;> simp only [hnumber, hnumber', htext, htext', hstrict]

theorem Value.Like.sameValue (h : Value.Like C v w) (h' : Value.Like C v' w') :
    v.sameValue v' = w.sameValue w' := by
  have hstrict := h.strictEq h'
  cases h with
  | number x => cases h' <;> rfl
  | _ => exact hstrict

theorem Value.Like.compare? (h : Value.Like C v w) (h' : Value.Like C v' w') :
    v.compare? v' = w.compare? w' := by
  have hnumber := h.toNumber
  have hnumber' := h'.toNumber
  cases h <;> cases h' <;> simp only [Value.compare?, hnumber, hnumber']

theorem Value.Like.add (h : Value.Like C v w) (h' : Value.Like C v' w') :
    Value.Like C (v.add v') (w.add w') := by
  unfold Value.add
  rw [h.joinsAsText, h'.joinsAsText, h.toText, h'.toText, h.toNumber, h'.toNumber]
  split
  · exact .string _
  · exact .number _

theorem UnaryOp.apply_like (op : UnaryOp) (h : Value.Like C v w) :
    Value.Like C (op.apply v) (op.apply w) := by
  cases op with
  | not =>
      simp only [UnaryOp.apply, h.isTruthy]
      exact .bool _
  | neg | plus =>
      simp only [UnaryOp.apply, h.toNumber]
      exact .number _
  | typeof =>
      simp only [UnaryOp.apply, h.kind]
      exact .string _

theorem BinaryOp.settledBy_like (op : BinaryOp) (h : Value.Like C v w) :
    op.settledBy v = op.settledBy w := by
  cases op <;> simp only [BinaryOp.settledBy, h.isTruthy, h.isNullish]

theorem BinaryOp.apply_like (op : BinaryOp) (h : Value.Like C v w) (h' : Value.Like C v' w') :
    Value.Like C (op.apply v v') (op.apply w w') := by
  cases op with
  | add => exact h.add h'
  | sub | mul | div | rem =>
      simp only [BinaryOp.apply, h.toNumber, h'.toNumber]
      exact .number _
  | lt | le | gt | ge =>
      simp only [BinaryOp.apply, h.compare? h']
      exact .bool _
  | strictEq | strictNe =>
      simp only [BinaryOp.apply, h.strictEq h']
      exact .bool _
  | eq | ne =>
      simp only [BinaryOp.apply, h.looseEq h']
      exact .bool _
  | and | or | nullish => exact h'

/-! ## Items and fields -/

theorem getElem?_like {vs ws : List Value} (h : List.Forall₂ (Value.Like C) vs ws) (i : Nat) :
    Value.Like C (vs[i]?.getD .undefined) (ws[i]?.getD .undefined) := by
  induction h generalizing i with
  | nil => exact .undefined
  | cons hv _ ih =>
      cases i with
      | zero => exact hv
      | succ i => exact ih i

theorem argument_like {args args' : List Value} (h : List.Forall₂ (Value.Like C) args args')
    (i : Nat) : Value.Like C (argument args i) (argument args' i) :=
  getElem?_like h i

theorem get?_like {fs gs : List (Text × Value)} (h : FieldsLike C fs gs) (name : Text) :
    Option.Rel (Value.Like C) (Bindings.get? fs name) (Bindings.get? gs name) := by
  induction h with
  | nil => exact .none
  | @cons f g fs gs hfg _ ih =>
      obtain ⟨key, v⟩ := f
      obtain ⟨key', w⟩ := g
      obtain ⟨rfl, hvalue⟩ : key = key' ∧ Value.Like C v w := hfg
      simp only [Bindings.get?]
      split
      · exact .some hvalue
      · exact ih

theorem insert_like {fs gs : List (Text × Value)} (h : FieldsLike C fs gs) (name : Text)
    (hv : Value.Like C v w) :
    FieldsLike C (Bindings.insert fs name v) (Bindings.insert gs name w) := by
  induction h with
  | nil => exact .cons ⟨rfl, hv⟩ .nil
  | @cons f g fs gs hfg hrest ih =>
      obtain ⟨key, u⟩ := f
      obtain ⟨key', u'⟩ := g
      obtain ⟨rfl, hvalue⟩ : key = key' ∧ Value.Like C u u' := hfg
      simp only [Bindings.insert]
      split
      · exact .cons ⟨rfl, hv⟩ hrest
      · exact .cons ⟨rfl, hvalue⟩ ih

theorem overlay_like {fs gs fs' gs' : List (Text × Value)} (h : FieldsLike C fs gs)
    (h' : FieldsLike C fs' gs') :
    FieldsLike C (Bindings.overlay fs fs') (Bindings.overlay gs gs') := by
  unfold Bindings.overlay
  induction h' generalizing fs gs with
  | nil => exact h
  | @cons f g fs' gs' hfg _ ih =>
      obtain ⟨key, v⟩ := f
      obtain ⟨key', w⟩ := g
      obtain ⟨rfl, hvalue⟩ : key = key' ∧ Value.Like C v w := hfg
      exact ih (insert_like h key hvalue)

theorem ofList_like {fs gs : List (Text × Value)} (h : FieldsLike C fs gs) :
    FieldsLike C (Bindings.ofList fs) (Bindings.ofList gs) :=
  overlay_like .nil h

theorem zipIdx_like {α β : Type} {R : α → β → Prop} {xs : List α} {ys : List β}
    (h : List.Forall₂ R xs ys) (k : Nat) :
    List.Forall₂ (fun p q => R p.1 q.1 ∧ p.2 = q.2) (xs.zipIdx k) (ys.zipIdx k) := by
  induction h generalizing k with
  | nil => exact .nil
  | cons hxy _ ih => exact .cons ⟨hxy, rfl⟩ (ih (k + 1))

/-- A list is alike itself if its items are. -/
theorem forall₂_map_self {α : Type} {f g : α → Value} (h : ∀ a, Value.Like C (f a) (g a))
    (xs : List α) : List.Forall₂ (Value.Like C) (xs.map f) (xs.map g) := by
  induction xs with
  | nil => exact .nil
  | cons x xs ih => exact .cons (h x) ih

/-! ## Properties -/

theorem Value.Like.describeUnder (h : Value.Like C v w) (key : Text) :
    Value.Like C (v.describeUnder key) (w.describeUnder key) := by
  unfold Value.describeUnder
  split
  · exact .function (.method (.describe h))
  · exact .undefined

theorem ofMethod?_like {μ : Type} {f g : μ → Method} (h : ∀ m, Method.Like C (f m) (g m))
    (m : Option μ) : Value.Like C (Value.ofMethod? (m.map f)) (Value.ofMethod? (m.map g)) := by
  cases m with
  | none => exact .undefined
  | some m => exact .function (.method (h m))

/-- **Properties of values that are alike are alike.** -/
theorem Value.Like.property (h : Value.Like C v w) (key : Text) :
    Value.Like C (v.property key) (w.property key) := by
  cases h with
  | array id items =>
      simp only [Value.property, items.length_eq]
      split
      · exact .number _
      · split
        · exact getElem?_like items _
        · exact ofMethod?_like (fun m => .ofArray m id items) _
  | string t =>
      simp only [Value.property]
      split
      · exact .number _
      · split
        · next i _ =>
            cases t[i]? with
            | none => exact .undefined
            | some c => exact .string _
        · exact ofMethod?_like (fun m => .ofText m t) _
  | object id keys fields =>
      simp only [Value.property]
      have hfield := get?_like (fieldsLike_iff.2 ⟨keys, fields⟩) key
      generalize Bindings.get? _ key = found at hfield
      generalize Bindings.get? _ key = found' at hfield
      cases hfield with
      | none => exact (Value.Like.object id keys fields).describeUnder key
      | some hvalue => exact hvalue
  | number x => exact ofMethod?_like (fun m => .ofNumber m x) _
  | bool b => exact (Value.Like.bool b).describeUnder key
  | function | undefined | null => exact .undefined

theorem Value.Like.entries (h : Value.Like C v w) : FieldsLike C v.entries w.entries := by
  cases h with
  | object id keys fields => exact fieldsLike_iff.2 ⟨keys, fields⟩
  | array id items =>
      refine List.rel_map (fun p q hpq => ?_) (zipIdx_like items 0)
      exact ⟨congrArg Number.decimal hpq.2, hpq.1⟩
  | string t =>
      refine fieldsLike_iff.2 ⟨rfl, ?_⟩
      exact List.forall₂_same.2 fun f hf => by
        obtain ⟨p, -, rfl⟩ := List.mem_map.1 hf
        exact .string _
  | _ => exact .nil

/-! ## Positions -/

theorem relativePosition_like (h : Value.Like C v w) (length default : Nat) :
    relativePosition v length default = relativePosition w length default := by
  have hnumber := h.toNumber
  cases h <;> simp only [relativePosition, hnumber]

theorem itemPosition?_like (h : Value.Like C v w) (length : Nat) :
    itemPosition? v length = itemPosition? w length := by
  simp only [itemPosition?, h.toNumber]

theorem clampedPosition_like (h : Value.Like C v w) (length default : Nat) :
    clampedPosition v length default = clampedPosition w length default := by
  have hnumber := h.toNumber
  cases h <;> simp only [clampedPosition, hnumber]

theorem baseArgument_like (h : Value.Like C v w) (default : Nat) :
    baseArgument default v = baseArgument default w := by
  have hnumber := h.toNumber
  cases h <;> simp only [baseArgument, hnumber]

theorem flatten_like (levels : Nat) {vs ws : List Value} (h : List.Forall₂ (Value.Like C) vs ws) :
    List.Forall₂ (Value.Like C) (flatten levels vs) (flatten levels ws) := by
  induction levels generalizing vs ws with
  | zero => exact h
  | succ levels ih =>
      refine List.rel_flatMap h fun v w hvw => ?_
      cases hvw with
      | array id items => exact ih items
      | _ => exact .cons (by constructor <;> assumption) .nil

theorem textAfter_like (h : Value.Like C v w) (h' : Value.Like C v' w') :
    textAfter v v' = textAfter w w' := by
  have htext := h.toText
  have htext' := h'.toText
  cases h <;> cases h' <;> simp only [textAfter, htext, htext']

/-! ## JSON -/

mutual

/-- A JSON value that stands at two places is alike. -/
theorem ofJson_like {a b : Identity} (id : C.identities a b) : ∀ j : Json,
    Value.Like C (Value.ofJson a j) (Value.ofJson b j)
  | .null => .null
  | .bool b => .bool b
  | .number n => .number n.toFloat
  | .string t => .string t
  | .array items => .array id (ofJsonItems_like id 0 items)
  | .object fields => .ofFields id (ofJsonFields_like id 0 fields)

theorem ofJsonItems_like {a b : Identity} (id : C.identities a b) (position : Nat) :
    ∀ js : List Json, List.Forall₂ (Value.Like C) (Value.ofJsonItems a position js)
      (Value.ofJsonItems b position js)
  | [] => .nil
  | j :: js =>
      .cons (ofJson_like (C.identities_child id position) j)
        (ofJsonItems_like id (position + 1) js)

theorem ofJsonFields_like {a b : Identity} (id : C.identities a b) (position : Nat) :
    ∀ fs : List (Text × Json), FieldsLike C (Value.ofJsonFields a position fs)
      (Value.ofJsonFields b position fs)
  | [] => .nil
  | (_, j) :: fs =>
      .cons ⟨rfl, ofJson_like (C.identities_child id position) j⟩
        (ofJsonFields_like id (position + 1) fs)

end

end Stencil.Expr
