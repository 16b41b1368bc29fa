import Stencil.Proofs.Json.Quote
import Stencil.Proofs.Number.Layout

/-!
# JSON texts tell values apart

Different values have different compact texts (`compact_injective`): the first
character tells the kind of a value, a number or a string tells where it ends, and the
marks of arrays and objects do the rest. Objects are the same here if their fields are,
in their order.
-/

namespace Stencil.Json

open Number (Stops Writes)

/-! ## Numbers -/

/-- Nothing follows a value, or the mark after it. -/
def Delimited (rest : Text) : Prop :=
  ∀ c ∈ rest.head?, c = ',' ∨ c = ']' ∨ c = '}'

theorem Delimited.stops {rest : Text} (h : Delimited rest) : Stops rest := by
  intro c hc
  rcases h c hc with rfl | rfl | rfl <;> decide

theorem delimited_nil : Delimited [] := by
  rintro c ⟨⟩

theorem delimited_cons {c : Char} (h : c = ',' ∨ c = ']' ∨ c = '}') (rest : Text) :
    Delimited (c :: rest) := by
  rintro d ⟨⟩
  exact h

theorem decimalInt_eq (n : Int) :
    Number.decimalInt n = Number.signed (n < 0) (Number.decimal n.natAbs) := by
  unfold Number.decimalInt Number.signed
  by_cases h : n < 0 <;> simp [h]

theorem writes_decimal (n : Nat) :
    Writes (Number.decimal n) ⟨Number.decimal n, [], 0⟩ :=
  Number.writes_whole (Number.allDigits_decimal n) (Number.decimal_ne_nil n)

/-- A floating number is no integer. -/
theorem numberText_ne {n : Int} {x : Number.Finite} {rest rest' : Text} (hrest : Stops rest)
    (hrest' : Stops rest') :
    numberText (.int n) ++ rest ≠ numberText (.float x) ++ rest' := by
  intro h
  obtain ⟨d, -, hx⟩ := Number.Layout.json.write_finite x.property
  obtain ⟨m, hm, -, hfloat⟩ := Number.writes_writeMagnitude .json d
  rw [numberText, numberText, decimalInt_eq, hx] at h
  -- the numeral of an integer has neither a fraction nor an exponent
  obtain ⟨-, rfl, -⟩ := Number.signed_append_inj (writes_decimal n.natAbs) hm hrest hrest' h
  rcases hfloat rfl rfl with hfraction | hexponent
  · exact hfraction rfl
  · exact hexponent rfl

/-- The text of a number tells which number it is, and where it ends. -/
theorem numberText_append_inj {m n : JsonNumber} {rest rest' : Text} (hrest : Stops rest)
    (hrest' : Stops rest') (h : numberText m ++ rest = numberText n ++ rest') :
    m = n ∧ rest = rest' := by
  cases m with
  | int m =>
      cases n with
      | int n =>
          rw [numberText, numberText, decimalInt_eq, decimalInt_eq] at h
          obtain ⟨hsign, hnumeral, hrests⟩ := Number.signed_append_inj
            (writes_decimal m.natAbs) (writes_decimal n.natAbs) hrest hrest' h
          have habs : m.natAbs = n.natAbs :=
            Number.decimal_injective (Number.Numeral.mk.inj hnumeral).1
          have hneg : m < 0 ↔ n < 0 := decide_eq_decide.1 hsign
          exact ⟨congrArg JsonNumber.int (by omega), hrests⟩
      | float y => exact absurd h (numberText_ne hrest hrest')
  | float x =>
      cases n with
      | int n => exact absurd h.symm (numberText_ne hrest' hrest)
      | float y =>
          obtain ⟨hxy, hrests⟩ :=
            Number.Layout.write_append_inj (l := .json) rfl x.property y.property hrest hrest' h
          exact ⟨congrArg JsonNumber.float (Subtype.ext hxy), hrests⟩

/-! ## The first character -/

/-- The kind of value whose text starts with a character. -/
def kindAt (c : Char) : String :=
  if c = 'n' then "null"
  else if c = 't' ∨ c = 'f' then "boolean"
  else if c = '"' then "string"
  else if c = '[' then "array"
  else if c = '\x7b' then "object"
  else if c = '-' ∨ c = '.' ∨ Number.isDigit c then "number"
  else ""

theorem kindAt_of_isDigit {c : Char} (h : Number.isDigit c = true) : kindAt c = "number" := by
  have hne : ∀ d, Number.isDigit d = false → c ≠ d := by
    rintro d hd rfl
    rw [h] at hd
    cases hd
  simp [kindAt, h, hne 'n' rfl, hne 't' rfl, hne 'f' rfl, hne '"' rfl, hne '[' rfl,
    hne '\x7b' rfl]

theorem kindAt_signed {negative : Bool} {t : Text} {n : Number.Numeral} (h : Writes t n) :
    ∃ c rest, Number.signed negative t = c :: rest ∧ kindAt c = "number" := by
  cases negative with
  | true => exact ⟨'-', t, rfl, rfl⟩
  | false =>
      obtain ⟨c, rest, rfl, hc⟩ := h.head
      refine ⟨c, rest, rfl, ?_⟩
      rcases hc with hdigit | rfl
      · exact kindAt_of_isDigit hdigit
      · rfl

theorem kindAt_numberText (n : JsonNumber) :
    ∃ c rest, numberText n = c :: rest ∧ kindAt c = "number" := by
  cases n with
  | int n =>
      rw [numberText, decimalInt_eq]
      exact kindAt_signed (writes_decimal n.natAbs)
  | float x =>
      obtain ⟨d, -, hx⟩ := Number.Layout.json.write_finite x.property
      obtain ⟨m, hm, -⟩ := Number.writes_writeMagnitude .json d
      rw [numberText, hx]
      exact kindAt_signed hm

/-- The first character of a value's text tells its kind. -/
theorem kindAt_compact (v : Json) : ∃ c rest, compact v = c :: rest ∧ kindAt c = v.kind := by
  cases v with
  | null => exact ⟨'n', _, rfl, rfl⟩
  | bool b =>
      cases b with
      | true => exact ⟨'t', _, rfl, rfl⟩
      | false => exact ⟨'f', _, rfl, rfl⟩
  | number n => exact kindAt_numberText n
  | string t => exact ⟨'"', _, rfl, rfl⟩
  | array items => exact ⟨'[', _, rfl, rfl⟩
  | object fields => exact ⟨'\x7b', _, rfl, rfl⟩

theorem kind_eq_of_append {v w : Json} {rest rest' : Text}
    (h : compact v ++ rest = compact w ++ rest') : v.kind = w.kind := by
  obtain ⟨c, s, hv, hc⟩ := kindAt_compact v
  obtain ⟨d, t, hw, hd⟩ := kindAt_compact w
  rw [hv, hw] at h
  rw [← hc, ← hd, (List.cons.inj h).1]

/-- No value starts with the mark that ends an array. -/
theorem compact_ne_close (v : Json) (rest rest' : Text) : compact v ++ rest ≠ ']' :: rest' := by
  intro h
  obtain ⟨c, s, hv, hc⟩ := kindAt_compact v
  rw [hv] at h
  obtain rfl := (List.cons.inj h).1
  have hnone : kindAt ']' = "" := rfl
  rw [hnone] at hc
  cases v <;> simp [kind] at hc

/-! ## Values -/

/-- The text of the value tells which value it is, and where it ends. -/
def Determined (v : Json) : Prop :=
  ∀ w rest rest', Delimited rest → Delimited rest' →
    compact v ++ rest = compact w ++ rest' → v = w ∧ rest = rest'

/-- The text of the items tells which they are, up to the end of the array. -/
def ItemsDetermined (xs : List Json) : Prop :=
  ∀ ys rest rest', compactItems xs ++ ']' :: rest = compactItems ys ++ ']' :: rest' →
    xs = ys ∧ rest = rest'

/-- The text of the fields tells which they are, up to the end of the object. -/
def FieldsDetermined (fs : List (Text × Json)) : Prop :=
  ∀ gs rest rest', compactFields fs ++ '\x7d' :: rest = compactFields gs ++ '\x7d' :: rest' →
    fs = gs ∧ rest = rest'

theorem determined_null : Determined .null := by
  intro w rest rest' _ _ h
  have hkind := kind_eq_of_append h
  cases w with
  | null => exact ⟨rfl, List.append_cancel_left h⟩
  | _ => exact absurd hkind (by simp [kind])

theorem determined_bool (b : Bool) : Determined (.bool b) := by
  intro w rest rest' _ _ h
  have hkind := kind_eq_of_append h
  cases w with
  | bool b' =>
      cases b <;> cases b'
      · exact ⟨rfl, List.append_cancel_left h⟩
      · exact absurd (List.cons.inj h).1 (by decide)
      · exact absurd (List.cons.inj h).1 (by decide)
      · exact ⟨rfl, List.append_cancel_left h⟩
  | _ => exact absurd hkind (by simp [kind])

theorem determined_number (n : JsonNumber) : Determined (.number n) := by
  intro w rest rest' hrest hrest' h
  have hkind := kind_eq_of_append h
  cases w with
  | number m =>
      obtain ⟨rfl, hrests⟩ := numberText_append_inj hrest.stops hrest'.stops h
      exact ⟨rfl, hrests⟩
  | _ => exact absurd hkind (by simp [kind])

theorem determined_string (t : Text) : Determined (.string t) := by
  intro w rest rest' _ _ h
  have hkind := kind_eq_of_append h
  cases w with
  | string t' =>
      obtain ⟨rfl, hrests⟩ := quote_append_inj h
      exact ⟨rfl, hrests⟩
  | _ => exact absurd hkind (by simp [kind])

theorem determined_array {xs : List Json} (hxs : ItemsDetermined xs) : Determined (.array xs) := by
  intro w rest rest' _ _ h
  have hkind := kind_eq_of_append h
  cases w with
  | array ys =>
      simp only [compact, List.cons_append, List.append_assoc, List.nil_append] at h
      obtain ⟨rfl, hrests⟩ := hxs ys rest rest' (List.cons.inj h).2
      exact ⟨rfl, hrests⟩
  | _ => exact absurd hkind (by simp [kind])

theorem determined_object {fs : List (Text × Json)} (hfs : FieldsDetermined fs) :
    Determined (.object fs) := by
  intro w rest rest' _ _ h
  have hkind := kind_eq_of_append h
  cases w with
  | object gs =>
      simp only [compact, List.cons_append, List.append_assoc, List.nil_append] at h
      obtain ⟨rfl, hrests⟩ := hfs gs rest rest' (List.cons.inj h).2
      exact ⟨rfl, hrests⟩
  | _ => exact absurd hkind (by simp [kind])

/-! ## Items and fields -/

/-- What follows an item, if these items are to come. -/
def afterItem (xs : List Json) (rest : Text) : Text :=
  match xs with
  | [] => ']' :: rest
  | _ :: _ => ',' :: (compactItems xs ++ ']' :: rest)

/-- What follows a field, if these fields are to come. -/
def afterField (fs : List (Text × Json)) (rest : Text) : Text :=
  match fs with
  | [] => '\x7d' :: rest
  | _ :: _ => ',' :: (compactFields fs ++ '\x7d' :: rest)

theorem compactItems_cons (x : Json) (xs : List Json) (rest : Text) :
    compactItems (x :: xs) ++ ']' :: rest = compact x ++ afterItem xs rest := by
  cases xs with
  | nil => rw [compactItems, afterItem]
  | cons y ys => rw [compactItems, afterItem, List.append_assoc, List.cons_append]

theorem compactFields_cons (k : Text) (v : Json) (fs : List (Text × Json)) (rest : Text) :
    compactFields ((k, v) :: fs) ++ '\x7d' :: rest =
      quote k ++ ':' :: (compact v ++ afterField fs rest) := by
  cases fs with
  | nil => simp [compactFields, afterField]
  | cons g gs => simp [compactFields, afterField]

theorem delimited_afterItem (xs : List Json) (rest : Text) : Delimited (afterItem xs rest) := by
  cases xs with
  | nil => exact delimited_cons (by simp) rest
  | cons y ys => exact delimited_cons (by simp) _

theorem delimited_afterField (fs : List (Text × Json)) (rest : Text) :
    Delimited (afterField fs rest) := by
  cases fs with
  | nil => exact delimited_cons (by simp) rest
  | cons g gs => exact delimited_cons (by simp) _

theorem itemsDetermined_nil : ItemsDetermined [] := by
  intro ys rest rest' h
  cases ys with
  | nil => exact ⟨rfl, (List.cons.inj h).2⟩
  | cons y ys =>
      rw [compactItems_cons] at h
      exact absurd h.symm (compact_ne_close y _ rest)

theorem afterItem_inj {xs ys : List Json} (hxs : ItemsDetermined xs) {rest rest' : Text}
    (h : afterItem xs rest = afterItem ys rest') : xs = ys ∧ rest = rest' := by
  cases xs with
  | nil =>
      cases ys with
      | nil => exact ⟨rfl, (List.cons.inj h).2⟩
      | cons y ys => exact absurd (List.cons.inj h).1 (by decide)
  | cons x xs =>
      cases ys with
      | nil => exact absurd (List.cons.inj h).1 (by decide)
      | cons y ys => exact hxs (y :: ys) rest rest' (List.cons.inj h).2

theorem itemsDetermined_cons {x : Json} {xs : List Json} (hx : Determined x)
    (hxs : ItemsDetermined xs) : ItemsDetermined (x :: xs) := by
  intro ys rest rest' h
  cases ys with
  | nil =>
      rw [compactItems_cons] at h
      exact absurd h (compact_ne_close x _ rest')
  | cons y ys =>
      rw [compactItems_cons, compactItems_cons] at h
      obtain ⟨rfl, hafter⟩ := hx y _ _ (delimited_afterItem xs rest) (delimited_afterItem ys rest') h
      obtain ⟨rfl, hrests⟩ := afterItem_inj hxs hafter
      exact ⟨rfl, hrests⟩

theorem fieldsDetermined_nil : FieldsDetermined [] := by
  intro gs rest rest' h
  cases gs with
  | nil => exact ⟨rfl, (List.cons.inj h).2⟩
  | cons g gs =>
      obtain ⟨k, v⟩ := g
      rw [compactFields_cons] at h
      exact absurd (List.cons.inj h).1 (by decide)

theorem afterField_inj {fs gs : List (Text × Json)} (hfs : FieldsDetermined fs)
    {rest rest' : Text} (h : afterField fs rest = afterField gs rest') :
    fs = gs ∧ rest = rest' := by
  cases fs with
  | nil =>
      cases gs with
      | nil => exact ⟨rfl, (List.cons.inj h).2⟩
      | cons g gs => exact absurd (List.cons.inj h).1 (by decide)
  | cons f fs =>
      cases gs with
      | nil => exact absurd (List.cons.inj h).1 (by decide)
      | cons g gs => exact hfs (g :: gs) rest rest' (List.cons.inj h).2

theorem fieldsDetermined_cons {k : Text} {v : Json} {fs : List (Text × Json)}
    (hv : Determined v) (hfs : FieldsDetermined fs) : FieldsDetermined ((k, v) :: fs) := by
  intro gs rest rest' h
  cases gs with
  | nil =>
      rw [compactFields_cons] at h
      exact absurd (List.cons.inj h).1 (by decide)
  | cons g gs =>
      obtain ⟨k', v'⟩ := g
      rw [compactFields_cons, compactFields_cons] at h
      -- the key, the colon, the value, and what follows it
      obtain ⟨rfl, hvalue⟩ := quote_append_inj h
      obtain ⟨rfl, hafter⟩ := hv v' _ _ (delimited_afterField fs rest)
        (delimited_afterField gs rest') (List.cons.inj hvalue).2
      obtain ⟨rfl, hrests⟩ := afterField_inj hfs hafter
      exact ⟨rfl, hrests⟩

mutual

theorem determined : ∀ v : Json, Determined v
  | .null => determined_null
  | .bool b => determined_bool b
  | .number n => determined_number n
  | .string t => determined_string t
  | .array xs => determined_array (itemsDetermined xs)
  | .object fs => determined_object (fieldsDetermined fs)

theorem itemsDetermined : ∀ xs : List Json, ItemsDetermined xs
  | [] => itemsDetermined_nil
  | x :: xs => itemsDetermined_cons (determined x) (itemsDetermined xs)

theorem fieldsDetermined : ∀ fs : List (Text × Json), FieldsDetermined fs
  | [] => fieldsDetermined_nil
  | (_, v) :: fs => fieldsDetermined_cons (determined v) (fieldsDetermined fs)

end

/-- **Different values have different texts.** -/
theorem compact_injective : Function.Injective compact := by
  intro v w h
  have happend : compact v ++ [] = compact w ++ [] := by rw [h]
  exact (determined v w [] [] delimited_nil delimited_nil happend).1

end Stencil.Json
