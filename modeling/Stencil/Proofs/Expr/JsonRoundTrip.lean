import Stencil.Expr.Value.Json
import Stencil.Proofs.Number.Equal
import Stencil.Proofs.Number.Truncation
import Mathlib.Data.List.Forall2

/-!
# Values through JSON and back

A value has a JSON value unless it is undefined or a function, and the value of that is the value
without what JSON cannot hold (`json_round_trip`). What JSON cannot hold is said by
`Value.cleaned`. Numbers come back equal, not the same: a negative zero comes back as zero, for
an integer that is small enough goes through the integers (`numberJson_equal`).
-/

namespace Stencil.Expr

open Stencil.Number (HasValue greatestWhole isFinite ofInt)

/-- Whether JSON has nothing for the value. -/
def Value.isDropped : Value → Bool
  | .undefined | .function _ => true
  | _ => false

mutual

/-- The value without what JSON cannot hold: numbers that are not finite are null, dropped items
of arrays are null, and dropped fields are gone. -/
def Value.cleaned : Value → Value
  | .number x => if isFinite x then .number x else .null
  | .array id items => .array id (Value.cleanedItems items)
  | .object id fields => .object id (Value.cleanedFields fields)
  | v => v

/-- The items of an array without what JSON cannot hold. -/
def Value.cleanedItems : List Value → List Value
  | [] => []
  | v :: vs => (if v.isDropped then .null else v.cleaned) :: Value.cleanedItems vs

/-- The fields of an object without what JSON cannot hold. -/
def Value.cleanedFields : List (Text × Value) → List (Text × Value)
  | [] => []
  | (k, v) :: fs =>
      if v.isDropped then Value.cleanedFields fs else (k, v.cleaned) :: Value.cleanedFields fs

end

/-- Two values are of one structure. Numbers are equal, objects have the same keys in the same
order, and it does not matter where a container comes from. -/
inductive Value.Same : Value → Value → Prop
  | undefined : Same .undefined .undefined
  | null : Same .null .null
  | bool (b : Bool) : Same (.bool b) (.bool b)
  | number {x y : Float} (h : (x == y) = true) : Same (.number x) (.number y)
  | string (t : Text) : Same (.string t) (.string t)
  | array {a b : Identity} {vs ws : List Value} (items : List.Forall₂ Same vs ws) :
      Same (.array a vs) (.array b ws)
  | object {a b : Identity} {fs gs : List (Text × Value)}
      (keys : fs.map Prod.fst = gs.map Prod.fst)
      (fields : List.Forall₂ (fun f g => Same f.2 g.2) fs gs) : Same (.object a fs) (.object b gs)
  | function (f : Function) : Same (.function f) (.function f)

/-- A value made of what JSON can hold. -/
inductive Value.Plain : Value → Prop
  | null : Plain .null
  | bool (b : Bool) : Plain (.bool b)
  | number {x : Float} (h : isFinite x = true) : Plain (.number x)
  | string (t : Text) : Plain (.string t)
  | array (id : Identity) {items : List Value} (h : ∀ v ∈ items, Plain v) : Plain (.array id items)
  | object (id : Identity) {fields : List (Text × Value)} (h : ∀ f ∈ fields, Plain f.2) :
      Plain (.object id fields)

/-! ## What is dropped -/

theorem Value.isDropped_iff {v : Value} :
    v.isDropped = true ↔ v = .undefined ∨ ∃ f, v = .function f := by
  cases v <;> simp [Value.isDropped]

theorem toJson?_eq_none_iff {v : Value} : v.toJson? = none ↔ v.isDropped = true := by
  cases v <;> simp [Value.toJson?, Value.isDropped]

theorem Value.Plain.not_isDropped {v : Value} (h : v.Plain) : ¬ v.isDropped = true := by
  cases h <;> exact Bool.false_ne_true

/-! ## Numbers -/

/-- **A finite number comes back equal.** -/
theorem numberJson_equal {x : Float} (h : isFinite x = true) :
    ∃ n, Value.numberJson x = .number n ∧ (n.toFloat == x) = true := by
  unfold Value.numberJson
  split
  · next d hparts =>
      refine ⟨_, rfl, ?_⟩
      have hx : HasValue x d.value := ⟨d, hparts, rfl⟩
      split
      · next hsmall =>
          rw [Bool.and_eq_true, decide_eq_true_iff] at hsmall
          have hwhole : d.wholePart ≤ greatestWhole := hsmall.2.trans (Nat.sub_le _ _)
          exact (Number.hasValue_ofInt_toInt hsmall.1 hwhole).beq hx
      · exact hx.beq hx
  · next hparts =>
      unfold isFinite at h
      split at h
      · next d hfinite => exact absurd hfinite (hparts d)
      · cases h

theorem numberJson_eq_null {x : Float} (h : isFinite x = false) : Value.numberJson x = .null := by
  unfold Value.numberJson
  split
  · next d hparts =>
      rw [isFinite, hparts] at h
      cases h
  · rfl

/-! ## The round trip -/

mutual

/-- **A value comes back without what JSON cannot hold.** -/
theorem same_cleaned : ∀ (v : Value) {j : Json}, v.toJson? = some j → ∀ id : Identity,
    Value.Same (.ofJson id j) v.cleaned
  | .null, _, h, _ => by
      obtain rfl := Option.some.inj h
      exact .null
  | .bool b, _, h, _ => by
      obtain rfl := Option.some.inj h
      exact .bool b
  | .string t, _, h, _ => by
      obtain rfl := Option.some.inj h
      exact .string t
  | .number x, _, h, id => by
      obtain rfl := Option.some.inj h
      rw [Value.cleaned]
      cases hfinite : isFinite x with
      | true =>
          obtain ⟨n, hjson, hequal⟩ := numberJson_equal hfinite
          rw [hjson]
          exact .number hequal
      | false =>
          rw [numberJson_eq_null hfinite]
          exact .null
  | .array _ items, _, h, id => by
      rw [Value.toJson?] at h
      obtain rfl := Option.some.inj h
      exact .array (same_cleanedItems items id 0)
  | .object _ fields, _, h, id => by
      rw [Value.toJson?] at h
      obtain rfl := Option.some.inj h
      obtain ⟨hkeys, hfields⟩ := same_cleanedFields fields id 0
      exact .object hkeys hfields

theorem same_cleanedItems : ∀ (vs : List Value) (id : Identity) (position : Nat),
    List.Forall₂ Value.Same (Value.ofJsonItems id position (Value.itemsToJson vs))
      (Value.cleanedItems vs)
  | [], _, _ => .nil
  | v :: vs, id, position => by
      rw [Value.itemsToJson, Value.cleanedItems, Value.ofJsonItems]
      refine .cons ?_ (same_cleanedItems vs id (position + 1))
      cases hj : v.toJson? with
      | none =>
          rw [if_pos (toJson?_eq_none_iff.1 hj)]
          exact .null
      | some j =>
          rw [if_neg (by rw [← toJson?_eq_none_iff, hj]; exact nofun)]
          exact same_cleaned v hj (id.child position)

theorem same_cleanedFields : ∀ (fs : List (Text × Value)) (id : Identity) (position : Nat),
    (Value.ofJsonFields id position (Value.fieldsToJson fs)).map Prod.fst =
        (Value.cleanedFields fs).map Prod.fst ∧
      List.Forall₂ (fun f g => Value.Same f.2 g.2)
        (Value.ofJsonFields id position (Value.fieldsToJson fs)) (Value.cleanedFields fs)
  | [], _, _ => ⟨rfl, .nil⟩
  | (k, v) :: fs, id, position => by
      rw [Value.fieldsToJson, Value.cleanedFields]
      cases hj : v.toJson? with
      | none =>
          rw [if_pos (toJson?_eq_none_iff.1 hj)]
          exact same_cleanedFields fs id position
      | some j =>
          rw [if_neg (by rw [← toJson?_eq_none_iff, hj]; exact nofun)]
          obtain ⟨hkeys, hfields⟩ := same_cleanedFields fs id (position + 1)
          exact ⟨congrArg (k :: ·) hkeys, .cons (same_cleaned v hj (id.child position)) hfields⟩

end

/-! ## What is left as it is -/

mutual

theorem cleaned_eq : ∀ {v : Value}, v.Plain → v.cleaned = v
  | _, .null | _, .bool _ | _, .string _ => rfl
  | _, .number h => if_pos h
  | _, .array id h => congrArg (Value.array id) (cleanedItems_eq _ h)
  | _, .object id h => congrArg (Value.object id) (cleanedFields_eq _ h)

theorem cleanedItems_eq : ∀ (vs : List Value), (∀ v ∈ vs, v.Plain) → Value.cleanedItems vs = vs
  | [], _ => rfl
  | v :: vs, h => by
      obtain ⟨hv, hvs⟩ := List.forall_mem_cons.1 h
      rw [Value.cleanedItems, if_neg hv.not_isDropped, cleaned_eq hv, cleanedItems_eq vs hvs]

theorem cleanedFields_eq : ∀ (fs : List (Text × Value)), (∀ f ∈ fs, f.2.Plain) →
    Value.cleanedFields fs = fs
  | [], _ => rfl
  | (k, v) :: fs, h => by
      obtain ⟨hv, hfs⟩ := List.forall_mem_cons.1 h
      rw [Value.cleanedFields, if_neg hv.not_isDropped, cleaned_eq hv, cleanedFields_eq fs hfs]

end

/-- **A value goes through JSON and back.** Only undefined and functions have no JSON value. All
else comes back without what JSON cannot hold, and so what JSON can hold comes back as it is. -/
theorem json_round_trip (v : Value) :
    (v.toJson? = none ↔ v = .undefined ∨ ∃ f, v = .function f) ∧
    (∀ j, v.toJson? = some j → ∀ id, Value.Same (.ofJson id j) v.cleaned) ∧
    (v.Plain → ∃ j, v.toJson? = some j ∧ ∀ id, Value.Same (.ofJson id j) v) := by
  refine ⟨toJson?_eq_none_iff.trans Value.isDropped_iff, fun _ => same_cleaned v, fun hplain => ?_⟩
  cases hj : v.toJson? with
  | none => exact absurd (toJson?_eq_none_iff.1 hj) hplain.not_isDropped
  | some j =>
      refine ⟨j, rfl, fun id => ?_⟩
      have hsame := same_cleaned v hj id
      rwa [cleaned_eq hplain] at hsame

/-- An array that loses a field and an item, and one that loses nothing. -/
theorem json_round_trip_array :
    (∃ j, (Value.array (.made 0) [.undefined, .object (.made 1)
        [(['a'], .bool true), (['b'], .function (.helper .abs))]]).toJson? = some j ∧
      Value.Same (.ofJson (.made 2) j)
        (.array (.made 0) [.null, .object (.made 1) [(['a'], .bool true)]])) ∧
    ∃ j, (Value.array (.made 0) [.null, .number (ofInt (-5))]).toJson? = some j ∧
      Value.Same (.ofJson (.made 2) j) (.array (.made 0) [.null, .number (ofInt (-5))]) := by
  constructor
  · exact ⟨_, rfl, (json_round_trip (.array (.made 0) [.undefined, .object (.made 1)
      [(['a'], .bool true), (['b'], .function (.helper .abs))]])).2.1 _ rfl _⟩
  · have hplain : (Value.array (.made 0) [.null, .number (ofInt (-5))]).Plain := by
      refine .array _ ?_
      simp only [List.forall_mem_cons]
      exact ⟨.null, .number (by decide +kernel), nofun⟩
    obtain ⟨j, hj, hsame⟩ := (json_round_trip _).2.2 hplain
    exact ⟨j, hj, hsame _⟩

end Stencil.Expr
