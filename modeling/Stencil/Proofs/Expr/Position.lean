import Stencil.Expr.Evaluator
import Stencil.Proofs.Expr.Index
import Stencil.Proofs.Number.Truncation

/-!
# Positions in arrays and texts

An array and a text are rows of values: their items, or their characters. `Value.resolve` says
which position an argument stands for, by its exact number, and a slice is what stands between
two such positions (`relativePosition_eq`). Whatever the arguments are, no position is out of
range, and all ways to read at one position agree (`row_positions`).
-/

namespace Stencil.Expr

open Stencil.Number (HasValue greatestWhole ofInt toIntWithin truncate)

/-! ## Which position is meant -/

/-- The position in something of a length that an integer stands for: a negative one counts from
the end, and one out of range stands for the nearer end. -/
def positionOfInt (length : Nat) (n : ℤ) : Nat :=
  (max 0 (min (length : ℤ) (if n < 0 then length + n else n))).toNat

/-- The position in something of a length that a number stands for: that of its exact value
without the fraction. What is not a number stands for zero. -/
def positionOf (length : Nat) (x : Float) : Nat :=
  match Number.parts x with
  | .nan => 0
  | .infinite negative => if negative then 0 else length
  | .finite d => positionOfInt length (truncate d.value)

/-- The position in something of a length that a value stands for, where undefined stands for a
default. -/
def Value.resolve (v : Value) (length default : Nat) : Nat :=
  match v with
  | .undefined => default
  | v => positionOf length v.toNumber

theorem positionOfInt_le (length : Nat) (n : ℤ) : positionOfInt length n ≤ length := by
  rw [positionOfInt]
  omega

theorem positionOf_le (length : Nat) (x : Float) : positionOf length x ≤ length := by
  unfold positionOf
  split
  · exact Nat.zero_le length
  · split <;> omega
  · exact positionOfInt_le length _

theorem Value.resolve_le {length default : Nat} (h : default ≤ length) (v : Value) :
    v.resolve length default ≤ length := by
  unfold Value.resolve
  split
  · exact h
  · exact positionOf_le length _

theorem Value.resolve_of_ne {v : Value} (h : v ≠ .undefined) (length default : Nat) :
    v.resolve length default = positionOf length v.toNumber := by
  cases v with
  | undefined => exact absurd rfl h
  | _ => rfl

theorem positionOf_eq (length : Nat) (x : Float) :
    positionOf length x =
      if toIntWithin length x < 0 then (length + toIntWithin length x).toNat
      else (toIntWithin length x).toNat := by
  unfold positionOf
  cases hparts : Number.parts x with
  | nan =>
      rw [toIntWithin, hparts]
      rfl
  | infinite negative =>
      have hwithin : toIntWithin length x = if negative then -(length : ℤ) else length := by
        rw [toIntWithin, hparts]
      rw [hwithin]
      dsimp only
      split <;> split <;> omega
  | finite d =>
      rw [Number.toIntWithin_finite hparts]
      dsimp only
      rw [positionOfInt]
      split <;> split <;> omega

/-- **A position is the one that the exact number says.** -/
theorem relativePosition_eq (v : Value) (length default : Nat) :
    relativePosition v length default = v.resolve length default := by
  by_cases hv : v = .undefined
  · subst hv
    rfl
  · rw [Value.resolve_of_ne hv, positionOf_eq]
    unfold relativePosition
    split
    · exact absurd rfl hv
    · rfl

theorem relativePosition_le {length default : Nat} (h : default ≤ length) (v : Value) :
    relativePosition v length default ≤ length := by
  rw [relativePosition_eq]
  exact Value.resolve_le h v

theorem positionOf_of_hasValue {x : Float} {n : ℤ} (h : HasValue x n) (length : Nat) :
    positionOf length x = positionOfInt length n := by
  obtain ⟨d, hparts, hvalue⟩ := h
  rw [positionOf, hparts]
  dsimp only
  rw [hvalue, Number.truncate_intCast]

theorem positionOf_natCast {x : Float} {i : Nat} (h : HasValue x (i : ℤ)) {length : Nat}
    (hi : i ≤ length) : positionOf length x = i := by
  rw [positionOf_of_hasValue h, positionOfInt]
  omega

theorem itemPosition?_lt {v : Value} {length i : Nat} (h : itemPosition? v length = some i) :
    i < length := by
  unfold itemPosition? at h
  dsimp only at h
  generalize (if toIntWithin (length + 1) v.toNumber < 0 then
    (length : ℤ) + toIntWithin (length + 1) v.toNumber
    else toIntWithin (length + 1) v.toNumber) = n at h
  split at h
  · next hrange =>
      rw [Bool.and_eq_true, decide_eq_true_iff, decide_eq_true_iff] at hrange
      obtain rfl := Option.some.inj h
      omega
  · cases h

/-- An item is asked for from either end. -/
theorem itemPosition?_of_hasValue {x : Float} {n : ℤ} {length i : Nat} (h : HasValue x n)
    (hn : n = i ∨ n = i - length) (hi : i < length) :
    itemPosition? (.number x) length = some i := by
  have hwithin : toIntWithin (length + 1) x = n := by
    rw [h.toIntWithin]
    omega
  have hitem : (if n < 0 then (length : ℤ) + n else n) = i := by
    split <;> omega
  have hrange : (decide (0 ≤ (i : ℤ)) && decide ((i : ℤ) < length)) = true := by
    rw [Bool.and_eq_true, decide_eq_true_iff, decide_eq_true_iff]
    omega
  unfold itemPosition?
  dsimp only [Value.toNumber]
  rw [hwithin, hitem, if_pos hrange, Int.toNat_natCast]

theorem clampedPosition_le {length default : Nat} (h : default ≤ length) (v : Value) :
    clampedPosition v length default ≤ length := by
  unfold clampedPosition
  split
  · exact h
  · exact Number.toNatWithin_le length _

theorem clampedPosition_natCast {x : Float} {i : Nat} (h : HasValue x (i : ℤ)) {length : Nat}
    (hi : i ≤ length) (default : Nat) : clampedPosition (.number x) length default = i := by
  change Number.toNatWithin length x = i
  rw [h.toNatWithin]
  omega

/-! ## What stands between two positions -/

/-- The items of a list from one position up to another, one after another. -/
structure IsSlice {α : Type} (xs : List α) (start stop : Nat) (slice : List α) : Prop where
  start_le : start ≤ xs.length
  stop_le : stop ≤ xs.length
  length_eq : slice.length = stop - start
  get_eq : ∀ i < stop - start, slice[i]? = xs[start + i]?

section Slice

variable {α β : Type} {xs : List α}

theorem isSlice_sliceItems {start stop : Nat} (hstart : start ≤ xs.length)
    (hstop : stop ≤ xs.length) : IsSlice xs start stop (sliceItems xs start stop) where
  start_le := hstart
  stop_le := hstop
  length_eq := by rw [sliceItems, List.length_drop, List.length_take, Nat.min_eq_left hstop]
  get_eq := by
    intro i hi
    rw [sliceItems, List.getElem?_drop, List.getElem?_take_of_lt (by omega)]

theorem sliceItems_map (f : α → β) (xs : List α) (start stop : Nat) :
    (sliceItems xs start stop).map f = sliceItems (xs.map f) start stop := by
  rw [sliceItems, sliceItems, List.map_drop, List.map_take]

/-- The two sides of a position. -/
theorem sliceItems_append (xs : List α) (i : Nat) :
    sliceItems xs 0 i ++ sliceItems xs i xs.length = xs := by
  rw [sliceItems, sliceItems, List.drop_zero, List.take_length, List.take_append_drop]

/-- A single position. -/
theorem sliceItems_succ (xs : List α) (i : Nat) : sliceItems xs i (i + 1) = xs[i]?.toList := by
  rw [sliceItems, List.drop_take, Nat.add_sub_cancel_left]
  by_cases hi : i < xs.length
  · rw [List.drop_eq_getElem_cons hi, List.getElem?_eq_getElem hi]
    rfl
  · rw [List.drop_eq_nil_of_le (Nat.not_lt.1 hi), List.getElem?_eq_none (Nat.not_lt.1 hi)]
    rfl

end Slice

/-! ## Rows -/

/-- A character as a text of its own. -/
def characterValue (c : Char) : Value := .string [c]

/-- A value with positions, and what stands at them. -/
inductive Indexed : Value → List Value → Prop
  | array (id : Identity) (items : List Value) : Indexed (.array id items) items
  | text (t : Text) : Indexed (.string t) (t.map characterValue)

/-- Calls a method of a value by its name. -/
def invoke (call : Call) (x : Value) (name : String) (args : List Value) (span : Span) :
    Eval Value :=
  match x.property name.toList with
  | .function (.method m) => Evaluator.applyMethod call m args span
  | _ => Eval.fail span (.notAFunction name.toList)

section Row

variable (call : Call) (span : Span) (p : Progress) (x : Value) (row : List Value)

/-- How a row is cut by positions. -/
structure Slices : Prop where
  /-- A slice is what stands from one position up to another, each meant by an argument. -/
  between : ∀ args, ∃ y slice q, invoke call x "slice" args span p = .ok (y, q) ∧
    y.kind = x.kind ∧ Indexed y slice ∧
    IsSlice row ((argument args 0).resolve row.length 0)
      ((argument args 1).resolve row.length row.length) slice
  /-- Two slices that meet at a position are the whole row. -/
  around : ∀ zero k, HasValue zero (0 : ℤ) → k ≠ .undefined → ∃ y before q z after r,
    invoke call x "slice" [.number zero, k] span p = .ok (y, q) ∧ Indexed y before ∧
    invoke call x "slice" [k] span q = .ok (z, r) ∧ Indexed z after ∧ before ++ after = row

/-- Whatever its arguments are, a method goes to no position out of range. Its positions are the
ones that it computes itself, and what it gives stands there. -/
structure InRange : Prop where
  slice : ∀ args, relativePosition (argument args 0) row.length 0 ≤ row.length ∧
    relativePosition (argument args 1) row.length row.length ≤ row.length ∧
    ∃ y slice q, invoke call x "slice" args span p = .ok (y, q) ∧ Indexed y slice ∧
      IsSlice row (relativePosition (argument args 0) row.length 0)
        (relativePosition (argument args 1) row.length row.length) slice
  item : ∀ args, (∀ i ∈ itemPosition? (argument args 0) row.length, i < row.length) ∧
    invoke call x "at" args span p =
      .ok (((itemPosition? (argument args 0) row.length).bind (row[·]?)).getD .undefined, p)
  character : ∀ t, x = .string t → ∀ args,
    invoke call x "charAt" args span p = .ok (.string [], p) ∨
    ∃ v, row[(toIntWithin t.length (argument args 0).toNumber).toNat]? = some v ∧
      invoke call x "charAt" args span p = .ok (v, p)
  substring : ∀ t, x = .string t → ∀ args,
    clampedPosition (argument args 0) t.length 0 ≤ t.length ∧
    clampedPosition (argument args 1) t.length t.length ≤ t.length ∧
    ∃ slice, invoke call x "substring" args span p = .ok (.string slice, p) ∧
      IsSlice t
        (min (clampedPosition (argument args 0) t.length 0)
          (clampedPosition (argument args 1) t.length t.length))
        (max (clampedPosition (argument args 0) t.length 0)
          (clampedPosition (argument args 1) t.length t.length)) slice

/-- A value is read at a position in every way. -/
structure ReadsAt (i : Nat) (v : Value) : Prop where
  index : ∀ key, HasValue key (i : ℤ) →
    Evaluator.propertyOf x (Value.number key).toText span p = .ok (v, p)
  item : ∀ key, HasValue key (i : ℤ) → invoke call x "at" [.number key] span p = .ok (v, p)
  fromEnd : ∀ key, HasValue key (i - row.length : ℤ) →
    invoke call x "at" [.number key] span p = .ok (v, p)
  slice : ∀ key next, HasValue key (i : ℤ) → HasValue next (i + 1 : ℤ) →
    ∃ y q, invoke call x "slice" [.number key, .number next] span p = .ok (y, q) ∧ Indexed y [v]
  character : ∀ t, x = .string t → ∀ key, HasValue key (i : ℤ) →
    invoke call x "charAt" [.number key] span p = .ok (v, p)
  substring : ∀ t, x = .string t → ∀ key next, HasValue key (i : ℤ) → HasValue next (i + 1 : ℤ) →
    invoke call x "substring" [.number key, .number next] span p = .ok (v, p)

end Row

/-! ## Reading a row -/

section Reading

variable (call : Call) (span : Span) (p : Progress)

section Text

variable (t : Text) (args : List Value)

theorem slice_text_apply :
    invoke call (.string t) "slice" args span p =
      .ok (.string (sliceItems t ((argument args 0).resolve t.length 0)
        ((argument args 1).resolve t.length t.length)), p) := by
  rw [← relativePosition_eq, ← relativePosition_eq]
  rfl

/-- There is a character at a position, or none. -/
theorem charAt_apply :
    invoke call (.string t) "charAt" args span p =
      .ok (.string (if toIntWithin t.length (argument args 0).toNumber < 0 then []
        else t[(toIntWithin t.length (argument args 0).toNumber).toNat]?.toList), p) := by
  rw [← sliceItems_succ]
  rfl

theorem substring_apply :
    invoke call (.string t) "substring" args span p =
      .ok (.string (sliceItems t
        (min (clampedPosition (argument args 0) t.length 0)
          (clampedPosition (argument args 1) t.length t.length))
        (max (clampedPosition (argument args 0) t.length 0)
          (clampedPosition (argument args 1) t.length t.length))), p) := rfl

theorem charAt_natCast {i : Nat} {c : Char} (hc : t[i]? = some c) {key : Float}
    (hkey : HasValue key (i : ℤ)) :
    invoke call (.string t) "charAt" [.number key] span p = .ok (characterValue c, p) := by
  obtain ⟨hi, -⟩ := List.getElem?_eq_some_iff.1 hc
  have hwithin : toIntWithin t.length (argument [Value.number key] 0).toNumber = i := by
    change toIntWithin t.length key = i
    rw [hkey.toIntWithin]
    omega
  rw [charAt_apply, hwithin, if_neg (Int.not_lt.2 (Int.natCast_nonneg i)), Int.toNat_natCast, hc]
  rfl

theorem substring_natCast {i : Nat} {c : Char} (hc : t[i]? = some c) {key next : Float}
    (hkey : HasValue key (i : ℤ)) (hnext : HasValue next (i + 1 : ℤ)) :
    invoke call (.string t) "substring" [.number key, .number next] span p =
      .ok (characterValue c, p) := by
  obtain ⟨hi, -⟩ := List.getElem?_eq_some_iff.1 hc
  have hstart : clampedPosition (argument [Value.number key, .number next] 0) t.length 0 = i :=
    clampedPosition_natCast hkey (le_of_lt hi) 0
  have hstop : clampedPosition (argument [Value.number key, .number next] 1) t.length t.length =
      i + 1 := clampedPosition_natCast hnext hi t.length
  rw [substring_apply, hstart, hstop, min_eq_left (Nat.le_succ i), max_eq_right (Nat.le_succ i),
    sliceItems_succ, hc]
  rfl

end Text

section Rows

variable {x : Value} {row : List Value} (hrow : Indexed x row)
include hrow

/-- A key that starts with no small letter is that of a position, or else of nothing. -/
theorem Indexed.property_eq {key : Text} (hkey : key.head?.any Char.isLower = false) :
    x.property key = ((position? key).bind (row[·]?)).getD .undefined := by
  have hlength : key ≠ lengthName := by
    rintro rfl
    exact absurd hkey (by decide)
  have harray : withName? ArrayMethod.named key = none := withName?_eq_none (by decide) hkey
  have htext : withName? TextMethod.named key = none := withName?_eq_none (by decide) hkey
  cases hrow with
  | array id items =>
      rw [Value.property, if_neg hlength, harray]
      cases position? key <;> rfl
  | text t =>
      rw [Value.property, if_neg hlength, htext]
      cases position? key with
      | none => rfl
      | some i =>
          rw [Option.bind_some, List.getElem?_map]
          rfl

theorem Indexed.index_apply (key : Float) :
    Evaluator.propertyOf x (Value.number key).toText span p =
      .ok (((position? (Number.format key)).bind (row[·]?)).getD .undefined, p) := by
  rw [← hrow.property_eq (Number.head_format key)]
  cases hrow <;> rfl

theorem Indexed.slice_apply (args : List Value) : ∃ y q,
    invoke call x "slice" args span p = .ok (y, q) ∧ y.kind = x.kind ∧
      Indexed y (sliceItems row ((argument args 0).resolve row.length 0)
        ((argument args 1).resolve row.length row.length)) := by
  cases hrow with
  | array id items =>
      refine ⟨_, _, rfl, rfl, ?_⟩
      rw [← relativePosition_eq, ← relativePosition_eq]
      exact .array _ _
  | text t =>
      refine ⟨_, _, slice_text_apply call span p t args, rfl, ?_⟩
      rw [← sliceItems_map, List.length_map]
      exact .text _

theorem Indexed.item_apply (args : List Value) :
    invoke call x "at" args span p =
      .ok (((itemPosition? (argument args 0) row.length).bind (row[·]?)).getD .undefined, p) := by
  cases hrow with
  | array id items => rfl
  | text t =>
      rw [List.length_map]
      change Except.ok (TextMethod.characterAt t (itemPosition? (argument args 0) t.length), p) = _
      rw [TextMethod.characterAt]
      cases itemPosition? (argument args 0) t.length with
      | none => rfl
      | some i =>
          dsimp only [Option.bind_some]
          rw [List.getElem?_map]
          rfl

end Rows

/-! ## The parts -/

variable {x : Value} {row : List Value} (hrow : Indexed x row)
include hrow

theorem Indexed.slices : Slices call span p x row where
  between := by
    intro args
    obtain ⟨y, q, hslice, hkind, hy⟩ := hrow.slice_apply call span p args
    exact ⟨y, _, q, hslice, hkind, hy, isSlice_sliceItems (Value.resolve_le (Nat.zero_le _) _)
      (Value.resolve_le (le_refl _) _)⟩
  around := by
    intro zero k hzero hk
    obtain ⟨y, q, hbefore, -, hy⟩ := hrow.slice_apply call span p [.number zero, k]
    obtain ⟨z, r, hafter, -, hz⟩ := hrow.slice_apply call span q [k]
    have hstart : (argument [Value.number zero, k] 0).resolve row.length 0 = 0 :=
      positionOf_natCast hzero (Nat.zero_le _)
    have hstop : (argument [Value.number zero, k] 1).resolve row.length row.length =
        positionOf row.length k.toNumber := Value.resolve_of_ne hk _ _
    have hmiddle : (argument [k] 0).resolve row.length 0 = positionOf row.length k.toNumber :=
      Value.resolve_of_ne hk _ _
    have hend : (argument [k] 1).resolve row.length row.length = row.length := rfl
    rw [hstart, hstop] at hy
    rw [hmiddle, hend] at hz
    exact ⟨y, _, q, z, _, r, hbefore, hy, hafter, hz, sliceItems_append row _⟩

theorem Indexed.inRange : InRange call span p x row where
  slice := by
    intro args
    have hstart := relativePosition_le (Nat.zero_le row.length) (argument args 0)
    have hstop := relativePosition_le (le_refl row.length) (argument args 1)
    obtain ⟨y, q, hslice, -, hy⟩ := hrow.slice_apply call span p args
    rw [← relativePosition_eq, ← relativePosition_eq] at hy
    exact ⟨hstart, hstop, y, _, q, hslice, hy, isSlice_sliceItems hstart hstop⟩
  item args := ⟨fun _ => itemPosition?_lt, hrow.item_apply call span p args⟩
  character := by
    rintro t rfl args
    cases hrow
    rw [charAt_apply]
    split
    · exact Or.inl rfl
    · cases hc : t[(toIntWithin t.length (argument args 0).toNumber).toNat]? with
      | none => exact Or.inl rfl
      | some c =>
          refine Or.inr ⟨characterValue c, ?_, rfl⟩
          rw [List.getElem?_map, hc]
          rfl
  substring := by
    rintro t rfl args
    have hfirst := clampedPosition_le (Nat.zero_le t.length) (argument args 0)
    have hsecond := clampedPosition_le (le_refl t.length) (argument args 1)
    refine ⟨hfirst, hsecond, _, substring_apply call span p t args, isSlice_sliceItems ?_ ?_⟩
    · exact (min_le_left _ _).trans hfirst
    · exact max_le hfirst hsecond

section Position

variable {i : Nat} {v : Value} (hv : row[i]? = some v)
include hv

/-- What stands at a position is asked for from either end. -/
theorem Indexed.item_natCast {key : Float} {n : ℤ} (hkey : HasValue key n)
    (hn : n = i ∨ n = i - row.length) : invoke call x "at" [.number key] span p = .ok (v, p) := by
  obtain ⟨hi, -⟩ := List.getElem?_eq_some_iff.1 hv
  have harg : argument [Value.number key] 0 = .number key := rfl
  rw [hrow.item_apply, harg, itemPosition?_of_hasValue hkey hn hi, Option.bind_some, hv,
    Option.getD_some]

theorem Indexed.readsAt (hi : i ≤ greatestWhole) : ReadsAt call span p x row i v where
  index key hkey := by
    rw [hrow.index_apply, (position?_format_iff hi).2 hkey, Option.bind_some, hv, Option.getD_some]
  item _ hkey := hrow.item_natCast call span p hv hkey (Or.inl rfl)
  fromEnd _ hkey := hrow.item_natCast call span p hv hkey (Or.inr rfl)
  slice key next hkey hnext := by
    obtain ⟨hlt, -⟩ := List.getElem?_eq_some_iff.1 hv
    obtain ⟨y, q, hslice, -, hy⟩ := hrow.slice_apply call span p [.number key, .number next]
    have hstart : (argument [Value.number key, .number next] 0).resolve row.length 0 = i :=
      positionOf_natCast hkey (le_of_lt hlt)
    have hstop : (argument [Value.number key, .number next] 1).resolve row.length row.length =
        i + 1 := positionOf_natCast hnext hlt
    rw [hstart, hstop, sliceItems_succ, hv] at hy
    exact ⟨y, q, hslice, hy⟩
  character := by
    rintro t rfl key hkey
    cases hrow
    rw [List.getElem?_map, Option.map_eq_some_iff] at hv
    obtain ⟨c, hc, rfl⟩ := hv
    exact charAt_natCast call span p t hc hkey
  substring := by
    rintro t rfl key next hkey hnext
    cases hrow
    rw [List.getElem?_map, Option.map_eq_some_iff] at hv
    obtain ⟨c, hc, rfl⟩ := hv
    exact substring_natCast call span p t hc hkey hnext

end Position

/-- A number that is no position of the row is the key of nothing. -/
theorem Indexed.index_other (hlength : row.length ≤ greatestWhole) {key : Float}
    (h : ∀ i < row.length, ¬ HasValue key (i : ℤ)) :
    Evaluator.propertyOf x (Value.number key).toText span p = .ok (.undefined, p) := by
  rw [hrow.index_apply]
  cases hposition : position? (Number.format key) with
  | none => rfl
  | some i =>
      by_cases hi : i < row.length
      · exact absurd ((position?_format_iff (by omega)).1 hposition) (h i hi)
      · rw [Option.bind_some, List.getElem?_eq_none (Nat.not_lt.1 hi)]
        rfl

/-- **Positions in a row.** Slices are cut where the arguments say, by their exact numbers, and
no argument of any kind leads out of range. The positions of a row of at most `2 ^ 53` items, more
than a memory holds, are doubles: all ways to read at one of them agree, and any other number is
the key of nothing. -/
theorem row_positions : Slices call span p x row ∧ InRange call span p x row ∧
    (row.length ≤ greatestWhole → (∀ i v, row[i]? = some v → ReadsAt call span p x row i v) ∧
      ∀ key, (∀ i < row.length, ¬ HasValue key (i : ℤ)) →
        Evaluator.propertyOf x (Value.number key).toText span p = .ok (.undefined, p)) := by
  refine ⟨hrow.slices call span p, hrow.inRange call span p, fun hlength => ⟨fun i v hv => ?_,
    fun key hkey => hrow.index_other span p hlength hkey⟩⟩
  obtain ⟨hi, -⟩ := List.getElem?_eq_some_iff.1 hv
  exact hrow.readsAt call span p hv ((le_of_lt hi).trans hlength)

end Reading

/-- The last character of a text, from either end. -/
theorem row_positions_last :
    Indexed (.string ['a', 'é']) [characterValue 'a', characterValue 'é'] ∧
    [characterValue 'a', characterValue 'é'].length ≤ greatestWhole ∧
    HasValue (ofInt 1) (1 : ℤ) ∧ HasValue (ofInt (-1)) (-1 : ℤ) ∧
    Evaluator.propertyOf (.string ['a', 'é']) (Value.number (ofInt 1)).toText ⟨0, 0⟩ {} =
      .ok (.string ['é'], {}) ∧
    invoke (fun _ _ => Eval.fail ⟨0, 0⟩ .emptyReduce) (.string ['a', 'é']) "at"
      [.number (ofInt (-1))] ⟨0, 0⟩ {} = .ok (.string ['é'], {}) := by
  have hrow : Indexed (.string ['a', 'é']) [characterValue 'a', characterValue 'é'] := .text _
  have hlength : [characterValue 'a', characterValue 'é'].length ≤ greatestWhole := by decide
  have hkey : HasValue (ofInt 1) (1 : ℤ) := Number.hasValue_ofInt (by decide)
  have hback : HasValue (ofInt (-1)) (-1 : ℤ) := Number.hasValue_ofInt (by decide)
  have hreads := ((row_positions (fun _ _ => Eval.fail ⟨0, 0⟩ .emptyReduce) ⟨0, 0⟩ {}
    hrow).2.2 hlength).1 1 _ rfl
  exact ⟨hrow, hlength, hkey, hback, hreads.index _ hkey, hreads.fromEnd _ hback⟩

end Stencil.Expr
