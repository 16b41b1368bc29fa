import Stencil.Expr.Evaluator
import Stencil.Proofs.Expr.Comparison.Eval

/-!
# Built-in functions agree

Helpers and methods take what is alike to evaluations that agree, if what they call back
does. A method calls its callback in the same order with the same positions, so nothing
but the callback's own agreement is needed.
-/

namespace Stencil.Expr

open Comparison (Agree)

variable {C : Comparison} {s s' : Span}

/-- Calls agree on functions and arguments that are alike. -/
def CallsAgree (C : Comparison) (call call' : Call) : Prop :=
  ∀ f g args args', Function.Like C f g → List.Forall₂ (Value.Like C) args args' →
    C.Agree (Value.Like C) (call f args) (call' g args')

/-! ## Callbacks -/

theorem callback_agree (hs : C.spans s s') {args args' : List Value}
    (h : List.Forall₂ (Value.Like C) args args') :
    C.Agree (Function.Like C) (callback args s) (callback args' s') := by
  cases h with
  | nil => exact .fail hs _
  | cons hv _ =>
      have hkind := hv.kind
      cases hv with
      | function hf => exact .pure hf
      | _ =>
          simp only [callback, hkind]
          exact .fail hs _

theorem positionValue_like (i : Nat) : Value.Like C (positionValue i) (positionValue i) :=
  .number _

theorem foundPosition_like (i : Option Nat) : Value.Like C (foundPosition i) (foundPosition i) := by
  cases i <;> exact .number _

section Array

variable {call call' : Call} {f g : Function} {a b : Identity} {items items' : List Value}
  {array array' : Value}

/-- Items with their positions that are alike. -/
def ItemLike (C : Comparison) (item item' : Value × Nat) : Prop :=
  Value.Like C item.1 item'.1 ∧ item.2 = item'.2

theorem onItem_agree (hcall : CallsAgree C call call') (hf : Function.Like C f g)
    (harray : Value.Like C array array') (item item' : Value × Nat) (h : ItemLike C item item') :
    C.Agree (Value.Like C) (ArrayMethod.onItem call f array item)
      (ArrayMethod.onItem call' g array' item') := by
  obtain ⟨v, i⟩ := item
  obtain ⟨w, i'⟩ := item'
  obtain ⟨hv, rfl⟩ : Value.Like C v w ∧ i = i' := h
  exact hcall _ _ _ _ hf (.cons hv (.cons (positionValue_like i) (.cons harray .nil)))

theorem firstItem?_agree (hcall : CallsAgree C call call') (hf : Function.Like C f g)
    (harray : Value.Like C array array') (wanted : Bool)
    (h : List.Forall₂ (Value.Like C) items items') :
    C.Agree (Option.Rel (ItemLike C)) (ArrayMethod.firstItem? call f array wanted items)
      (ArrayMethod.firstItem? call' g array' wanted items') :=
  .findM? (zipIdx_like h 0) fun item item' hitem =>
    (onItem_agree hcall hf harray item item' hitem).bind fun _ _ hv =>
      .pure (congrArg (· == wanted) hv.isTruthy)

theorem mapItems_agree (hcall : CallsAgree C call call') (hf : Function.Like C f g)
    (harray : Value.Like C array array') (h : List.Forall₂ (Value.Like C) items items') :
    C.Agree (List.Forall₂ (Value.Like C)) (ArrayMethod.mapItems call f array items)
      (ArrayMethod.mapItems call' g array' items') :=
  .mapM (zipIdx_like h 0) (onItem_agree hcall hf harray)

theorem fold_agree (hcall : CallsAgree C call call') (hf : Function.Like C f g)
    (harray : Value.Like C array array') {start start' : Value}
    (hstart : Value.Like C start start') (position : Nat)
    (h : List.Forall₂ (Value.Like C) items items') :
    C.Agree (Value.Like C) (ArrayMethod.fold call f array start position items)
      (ArrayMethod.fold call' g array' start' position items') := by
  refine .foldlM (zipIdx_like h position) (fun item item' acc acc' hitem hacc => ?_) hstart
  obtain ⟨v, i⟩ := item
  obtain ⟨w, i'⟩ := item'
  obtain ⟨hv, rfl⟩ : Value.Like C v w ∧ i = i' := hitem
  exact hcall _ _ _ _ hf
    (.cons hacc (.cons hv (.cons (positionValue_like i) (.cons harray .nil))))

theorem comparesAfter_agree (hcall : CallsAgree C call call') {compare compare' : Option Function}
    (hcompare : Option.Rel (Function.Like C) compare compare') (v w v' w' : Value)
    (hv : Value.Like C v w) (hv' : Value.Like C v' w') :
    C.Agree Eq (ArrayMethod.comparesAfter call compare v v')
      (ArrayMethod.comparesAfter call' compare' w w') := by
  cases hcompare with
  | none => exact .pure (textAfter_like hv hv')
  | some hf =>
      exact (hcall _ _ _ _ hf (.cons hv (.cons hv' .nil))).bind fun r r' hr =>
        .pure (by rw [hr.toNumber])

/-- The first item that was found, or undefined. -/
theorem foundItem_like {found found' : Option (Value × Nat)}
    (h : Option.Rel (ItemLike C) found found') :
    Value.Like C ((found.map Prod.fst).getD .undefined)
      ((found'.map Prod.fst).getD .undefined) := by
  cases h with
  | none => exact .undefined
  | some hitem => exact hitem.1

/-- The position of the first item that was found. -/
theorem foundItemPosition_like {found found' : Option (Value × Nat)}
    (h : Option.Rel (ItemLike C) found found') :
    Value.Like C (foundPosition (found.map Prod.snd)) (foundPosition (found'.map Prod.snd)) := by
  have hposition : found.map Prod.snd = found'.map Prod.snd := by
    cases h with
    | none => rfl
    | some hitem => exact congrArg some hitem.2
  rw [hposition]
  exact foundPosition_like _

theorem sliceItems_like (h : List.Forall₂ (Value.Like C) items items') (start stop : Nat) :
    List.Forall₂ (Value.Like C) (sliceItems items start stop) (sliceItems items' start stop) :=
  List.forall₂_drop start (List.forall₂_take stop h)

theorem any_like {p q : Value → Bool} (h : List.Forall₂ (Value.Like C) items items')
    (hpq : ∀ v w, Value.Like C v w → p v = q w) : items.any p = items'.any q := by
  induction h with
  | nil => rfl
  | cons hv _ ih => rw [List.any_cons, List.any_cons, hpq _ _ hv, ih]

theorem findIdx?_like {p q : Value → Bool} (h : List.Forall₂ (Value.Like C) items items')
    (hpq : ∀ v w, Value.Like C v w → p v = q w) : items.findIdx? p = items'.findIdx? q := by
  induction h with
  | nil => rfl
  | cons hv _ ih => rw [List.findIdx?_cons, List.findIdx?_cons, hpq _ _ hv, ih]

section Arguments

variable {args args' : List Value}

theorem filter_agree (hcall : CallsAgree C call call') (hs : C.spans s s')
    (id : C.identities a b) (hitems : List.Forall₂ (Value.Like C) items items')
    (hargs : List.Forall₂ (Value.Like C) args args') :
    C.Agree (Value.Like C) (ArrayMethod.filter.apply call a items args s)
      (ArrayMethod.filter.apply call' b items' args' s') := by
  refine (callback_agree hs hargs).bind fun f g hf => Agree.bind
    (.filterM (zipIdx_like hitems 0) fun item item' hitem =>
      (onItem_agree hcall hf (.array id hitems) item item' hitem).bind fun v w hv =>
        .pure hv.isTruthy)
    fun kept kept' hkept => ?_
  exact .newArray (List.rel_map (fun _ _ hitem => hitem.1) hkept)

/-- Without a start, the first item is where a fold starts. -/
theorem reduce_agree (hcall : CallsAgree C call call') (hs : C.spans s s')
    (id : C.identities a b) (hitems : List.Forall₂ (Value.Like C) items items')
    (hargs : List.Forall₂ (Value.Like C) args args') :
    C.Agree (Value.Like C) (ArrayMethod.reduce.apply call a items args s)
      (ArrayMethod.reduce.apply call' b items' args' s') := by
  have harray : Value.Like C (.array a items) (.array b items') := .array id hitems
  refine (callback_agree hs hargs).bind fun f g hf => ?_
  cases hargs with
  | nil =>
      cases hitems with
      | nil => exact .fail hs _
      | cons hv hrest => exact fold_agree hcall hf harray hv 1 hrest
  | cons _ hmore =>
      cases hmore with
      | nil =>
          cases hitems with
          | nil => exact .fail hs _
          | cons hv hrest => exact fold_agree hcall hf harray hv 1 hrest
      | cons hstart _ => exact fold_agree hcall hf harray hstart 0 hitems

/-- A first argument that is not a function is no comparison. -/
theorem sort_agree (hcall : CallsAgree C call call')
    (hitems : List.Forall₂ (Value.Like C) items items')
    (hargs : List.Forall₂ (Value.Like C) args args') :
    C.Agree (Value.Like C) (ArrayMethod.sort.apply call a items args s)
      (ArrayMethod.sort.apply call' b items' args' s') := by
  have hsorted : ∀ compare compare', Option.Rel (Function.Like C) compare compare' →
      C.Agree (Value.Like C)
        (mergeSortM (ArrayMethod.comparesAfter call compare) items >>= Eval.newArray)
        (mergeSortM (ArrayMethod.comparesAfter call' compare') items' >>= Eval.newArray) :=
    fun _ _ hcompare =>
      (Agree.mergeSortM (comparesAfter_agree hcall hcompare) hitems).bind fun _ _ hsorted =>
        .newArray hsorted
  cases hargs with
  | nil => exact hsorted _ _ .none
  | cons hv _ =>
      cases hv with
      | function hf => exact hsorted _ _ (.some hf)
      | _ => exact hsorted _ _ .none

end Arguments

/-- **Methods of arrays agree.** -/
theorem ArrayMethod.apply_agree (hcall : CallsAgree C call call') (hs : C.spans s s')
    (id : C.identities a b) (hitems : List.Forall₂ (Value.Like C) items items')
    {args args' : List Value} (hargs : List.Forall₂ (Value.Like C) args args') (m : ArrayMethod) :
    C.Agree (Value.Like C) (m.apply call a items args s) (m.apply call' b items' args' s') := by
  have harray : Value.Like C (.array a items) (.array b items') := .array id hitems
  have hfirst := argument_like hargs 0
  have hsecond := argument_like hargs 1
  cases m with
  | map =>
      exact (callback_agree hs hargs).bind fun f g hf =>
        (mapItems_agree hcall hf harray hitems).bind fun _ _ hmapped => .newArray hmapped
  | filter => exact filter_agree hcall hs id hitems hargs
  | find =>
      exact (callback_agree hs hargs).bind fun f g hf =>
        (firstItem?_agree hcall hf harray true hitems).bind fun _ _ hfound =>
          .pure (foundItem_like hfound)
  | findIndex =>
      exact (callback_agree hs hargs).bind fun f g hf =>
        (firstItem?_agree hcall hf harray true hitems).bind fun _ _ hfound =>
          .pure (foundItemPosition_like hfound)
  | any =>
      refine (callback_agree hs hargs).bind fun f g hf =>
        (firstItem?_agree hcall hf harray true hitems).bind fun found found' hfound => .pure ?_
      cases hfound <;> exact .bool _
  | every =>
      refine (callback_agree hs hargs).bind fun f g hf =>
        (firstItem?_agree hcall hf harray false hitems).bind fun found found' hfound => .pure ?_
      cases hfound <;> exact .bool _
  | reduce => exact reduce_agree hcall hs id hitems hargs
  | join =>
      have htext := hfirst.toText
      unfold ArrayMethod.apply
      generalize argument args 0 = v at hfirst htext
      generalize argument args' 0 = w at hfirst htext
      cases hfirst <;> simp only [htext, itemTexts_like hitems] <;> exact .pure (.string _)
  | toText =>
      simp only [ArrayMethod.apply, harray.toText]
      exact .pure (.string _)
  | includes =>
      simp only [ArrayMethod.apply, any_like hitems fun v w hv => hv.sameValue hfirst]
      exact .pure (.bool _)
  | indexOf =>
      simp only [ArrayMethod.apply, findIdx?_like hitems fun v w hv => hv.strictEq hfirst]
      exact .pure (foundPosition_like _)
  | slice =>
      simp only [ArrayMethod.apply, relativePosition_like hfirst, relativePosition_like hsecond,
        hitems.length_eq]
      exact .newArray (sliceItems_like hitems _ _)
  | concat => exact .newArray (List.rel_append hitems (flatten_like 1 hargs))
  | reverse => exact .newArray (List.rel_reverse hitems)
  | sort => exact sort_agree hcall hitems hargs
  | flat =>
      have hnumber := hfirst.toNumber
      unfold ArrayMethod.apply
      generalize argument args 0 = v at hfirst hnumber
      generalize argument args' 0 = w at hfirst hnumber
      cases hfirst <;> simp only [hnumber] <;> exact .newArray (flatten_like _ hitems)
  | flatMap =>
      exact (callback_agree hs hargs).bind fun f g hf =>
        (mapItems_agree hcall hf harray hitems).bind fun _ _ hmapped =>
          .newArray (flatten_like 1 hmapped)
  | item =>
      simp only [ArrayMethod.apply, itemPosition?_like hfirst, hitems.length_eq]
      cases itemPosition? (argument args' 0) items'.length with
      | none => exact .pure .undefined
      | some i => exact .pure (getElem?_like hitems i)

end Array

/-! ## Methods of texts and numbers -/

section Text

variable {call call' : Call} {t : Text} {v w : Value}

theorem splitPieces_like (h : Value.Like C v w) :
    TextMethod.splitPieces t v = TextMethod.splitPieces t w := by
  have htext := h.toText
  cases h <;> simp only [TextMethod.splitPieces, htext]

theorem characterAt_like (t : Text) (i : Option Nat) :
    Value.Like C (TextMethod.characterAt t i) (TextMethod.characterAt t i) := by
  unfold TextMethod.characterAt
  cases i.bind (t[·]?) with
  | none => exact .undefined
  | some c => exact .string _

theorem replacement_agree (hcall : CallsAgree C call call') (pattern : Text)
    (h : Value.Like C v w) :
    C.Agree Eq (TextMethod.replacement call pattern v)
      (TextMethod.replacement call' pattern w) := by
  have htext := h.toText
  cases h with
  | function hf =>
      exact (hcall _ _ _ _ hf (.cons (.string _) .nil)).bind fun _ _ hr => .pure hr.toText
  | _ => exact .pure htext

theorem replaceBetween_agree (hcall : CallsAgree C call call') (pattern : Text)
    (h : Value.Like C v w) (pieces : List Text) :
    C.Agree Eq (TextMethod.replaceBetween call pattern v pieces)
      (TextMethod.replaceBetween call' pattern w pieces) := by
  cases pieces with
  | nil => exact .pure rfl
  | cons piece pieces =>
      have hpieces : List.Forall₂ Eq pieces pieces := List.forall₂_same.2 fun _ _ => rfl
      refine (Agree.mapM hpieces (S := Eq) fun piece _ heq =>
        (replacement_agree hcall pattern h).bind fun _ _ hr => .pure (by rw [hr, heq])).bind
          fun rest rest' hrest => .pure ?_
      rw [List.forall₂_eq_eq_eq] at hrest
      rw [hrest]

theorem repeatText_agree (hs : C.spans s s') (count : Float) :
    C.Agree (Value.Like C) (TextMethod.repeatText t count s)
      (TextMethod.repeatText t count s') := by
  unfold TextMethod.repeatText
  split
  · exact Agree.bind (R := Eq) (.fail hs _) fun _ _ _ => by
      dsimp only
      split
      · exact .fail hs _
      · exact .pure (.string _)
  · dsimp only
    split
    · exact .fail hs _
    · exact .pure (.string _)

theorem padding_agree (hs : C.spans s s') {args args' : List Value}
    (hargs : List.Forall₂ (Value.Like C) args args') :
    C.Agree Eq (TextMethod.padding t args s) (TextMethod.padding t args' s') := by
  have hsecond := argument_like hargs 1
  have htext := hsecond.toText
  unfold TextMethod.padding
  rw [(argument_like hargs 0).toNumber]
  generalize argument args 1 = v at hsecond htext
  generalize argument args' 1 = w at hsecond htext
  cases hsecond <;>
    (simp only [htext]
     split
     · exact .pure rfl
     · split
       · exact .fail hs _
       · exact .pure rfl)

/-- **Methods of texts agree.** -/
theorem TextMethod.apply_agree (hcall : CallsAgree C call call') (hs : C.spans s s')
    {args args' : List Value} (hargs : List.Forall₂ (Value.Like C) args args') (m : TextMethod) :
    C.Agree (Value.Like C) (m.apply call t args s) (m.apply call' t args' s') := by
  have hfirst := argument_like hargs 0
  have hsecond := argument_like hargs 1
  cases m with
  | toUpper | toLower | trim | trimStart | trimEnd | toText => exact .pure (.string _)
  | split =>
      unfold TextMethod.apply
      rw [splitPieces_like hfirst]
      generalize argument args 1 = v at hsecond
      generalize argument args' 1 = w at hsecond
      cases hsecond <;> exact .newArray (forall₂_map_self .string _)
  | includes | endsWith =>
      simp only [TextMethod.apply, hfirst.toText]
      exact .pure (.bool _)
  | startsWith =>
      simp only [TextMethod.apply, hfirst.toText, relativePosition_like hsecond]
      exact .pure (.bool _)
  | indexOf =>
      simp only [TextMethod.apply, hfirst.toText]
      exact .pure (foundPosition_like _)
  | slice =>
      simp only [TextMethod.apply, relativePosition_like hfirst, relativePosition_like hsecond]
      exact .pure (.string _)
  | substring =>
      simp only [TextMethod.apply, clampedPosition_like hfirst, clampedPosition_like hsecond]
      exact .pure (.string _)
  | replace =>
      simp only [TextMethod.apply, hfirst.toText]
      split
      · exact .pure (.string _)
      · exact (replaceBetween_agree hcall _ hsecond _).bind fun _ _ hr => .pure (by
          rw [hr]
          exact .string _)
  | replaceAll =>
      simp only [TextMethod.apply, hfirst.toText]
      exact (replaceBetween_agree hcall _ hsecond _).bind fun _ _ hr => .pure (by
        rw [hr]
        exact .string _)
  | repeated =>
      simp only [TextMethod.apply, hfirst.toNumber]
      exact repeatText_agree hs _
  | padStart | padEnd =>
      exact (padding_agree hs hargs).bind fun _ _ hr => .pure (by
        rw [hr]
        exact .string _)
  | charAt =>
      simp only [TextMethod.apply, hfirst.toNumber]
      exact .pure (.string _)
  | item =>
      simp only [TextMethod.apply, itemPosition?_like hfirst]
      exact .pure (characterAt_like t _)
  | concat =>
      have htexts : args.flatMap Value.toText = args'.flatMap Value.toText := by
        rw [← List.forall₂_eq_eq_eq]
        exact List.rel_flatMap hargs fun v w hv => by
          rw [List.forall₂_eq_eq_eq]
          exact hv.toText
      simp only [TextMethod.apply, htexts]
      exact .pure (.string _)

end Text

section Number

/-- **Methods of numbers agree.** -/
theorem NumberMethod.apply_agree (hs : C.spans s s') (x : Float) {args args' : List Value}
    (hargs : List.Forall₂ (Value.Like C) args args') (m : NumberMethod) :
    C.Agree (Value.Like C) (m.apply x args s) (m.apply x args' s') := by
  have hfirst := argument_like hargs 0
  cases m with
  | toFixed =>
      have hnumber := hfirst.toNumber
      unfold NumberMethod.apply
      generalize argument args 0 = v at hfirst hnumber
      generalize argument args' 0 = w at hfirst hnumber
      cases hfirst <;>
        (simp only [hnumber]
         split
         · exact .pure (.string _)
         · exact .fail hs _)
  | toText =>
      simp only [NumberMethod.apply, baseArgument_like hfirst]
      split
      · exact .pure (.string _)
      · exact .fail hs _

end Number

/-! ## Helpers -/

theorem pairEntry_like {v w : Value} (h : Value.Like C v w) :
    (pairEntry v).1 = (pairEntry w).1 ∧ Value.Like C (pairEntry v).2 (pairEntry w).2 :=
  ⟨(h.property ['0']).toText, h.property ['1']⟩

theorem indentArgument_like {v w : Value} (h : Value.Like C v w) :
    indentArgument v = indentArgument w := by
  cases h <;> rfl

theorem jsonText_like {v w v' w' : Value} (h : Value.Like C v w) (h' : Value.Like C v' w') :
    Value.Like C (jsonText v v') (jsonText w w') := by
  unfold jsonText
  rw [h.toJson?, indentArgument_like h']
  split
  · exact .undefined
  · exact .string _

theorem map_toNumber_like {vs ws : List Value} (h : List.Forall₂ (Value.Like C) vs ws) :
    vs.map Value.toNumber = ws.map Value.toNumber := by
  rw [← List.forall₂_eq_eq_eq]
  exact List.rel_map (fun _ _ hv => hv.toNumber) h

/-- **Helpers agree.** -/
theorem Helper.apply_agree (hs : C.spans s s') {args args' : List Value}
    (hargs : List.Forall₂ (Value.Like C) args args') (h : Helper) :
    C.Agree (Value.Like C) (h.apply args s) (h.apply args' s') := by
  have hfirst := argument_like hargs 0
  have hentries := hfirst.entries
  cases h with
  | abs | ceil | floor | round | trunc | sign | sqrt =>
      simp only [Helper.apply, hfirst.toNumber]
      exact .pure (.number _)
  | pow =>
      simp only [Helper.apply, hfirst.toNumber, (argument_like hargs 1).toNumber]
      exact .pure (.number _)
  | min | max =>
      simp only [Helper.apply, map_toNumber_like hargs]
      exact .pure (.number _)
  | jsonText => exact .pure (jsonText_like hfirst (argument_like hargs 2))
  | readJson =>
      simp only [Helper.apply, hfirst.toText]
      split
      · exact Agree.fresh.bind fun _ _ id => .pure (ofJson_like id _)
      · exact .fail hs _
  | keys =>
      refine .newArray (List.rel_map (fun f g hfg => ?_) hentries)
      rw [hfg.1]
      exact .string _
  | values => exact .newArray (List.rel_map (fun f g hfg => hfg.2) hentries)
  | entries =>
      refine Agree.fresh.bind fun a b id => .pure (.array id ?_)
      refine List.rel_map (fun p q hpq => ?_) (zipIdx_like hentries 0)
      obtain ⟨⟨key, v⟩, i⟩ := p
      obtain ⟨⟨key', w⟩, i'⟩ := q
      obtain ⟨⟨rfl, hv⟩, rfl⟩ : (key = key' ∧ Value.Like C v w) ∧ i = i' := hpq
      exact .array (C.identities_child id i) (.cons (.string key) (.cons hv .nil))
  | fromEntries =>
      unfold Helper.apply
      have hkind := hfirst.kind
      generalize argument args 0 = v at hfirst hkind
      generalize argument args' 0 = w at hfirst hkind
      cases hfirst with
      | @array _ _ vs ws id items =>
          have hpairs : FieldsLike C (vs.map pairEntry) (ws.map pairEntry) := by
            refine List.rel_map (fun v w hv => ?_) items
            exact pairEntry_like hv
          exact .newObject (ofList_like hpairs)
      | _ =>
          simp only [hkind]
          exact .fail hs _
  | isArray =>
      unfold Helper.apply
      generalize argument args 0 = v at hfirst
      generalize argument args' 0 = w at hfirst
      cases hfirst <;> exact .pure (.bool _)
  | text =>
      cases hargs with
      | nil => exact .pure (.string _)
      | cons hv _ =>
          simp only [Helper.apply, List.head?_cons, Option.map_some, hv.toText]
          exact .pure (.string _)
  | number =>
      cases hargs with
      | nil => exact .pure (.number _)
      | cons hv _ =>
          simp only [Helper.apply, List.head?_cons, Option.map_some, hv.toNumber]
          exact .pure (.number _)
  | boolean =>
      simp only [Helper.apply, hfirst.isTruthy]
      exact .pure (.bool _)
  | leadingInteger =>
      simp only [Helper.apply, hfirst.toText, baseArgument_like (argument_like hargs 1)]
      exact .pure (.number _)
  | leadingNumber =>
      simp only [Helper.apply, hfirst.toText]
      exact .pure (.number _)
  | isNaN =>
      simp only [Helper.apply, hfirst.toNumber]
      exact .pure (.bool _)
  | percentEncode =>
      simp only [Helper.apply, hfirst.toText]
      exact .pure (.string _)

/-! ## Functions -/

/-- Arrow functions agree on arguments that are alike. -/
def EntersAgree (C : Comparison) (enter enter' : Evaluator.Enter) : Prop :=
  ∀ (ps qs : List Text) (d e : Tree) (fs gs : Frames) (args args' : List Value),
    C.arrows ⟨ps, d, fs.map (List.map Prod.fst)⟩ ⟨qs, e, gs.map (List.map Prod.fst)⟩ →
    List.Forall₂ (List.Forall₂ fun f g => Value.Like C f.2 g.2) fs gs →
    List.Forall₂ (Value.Like C) args args' →
    C.Agree (Value.Like C) (enter ps d fs args) (enter' qs e gs args')

theorem applyMethod_agree {call call' : Call} (hcall : CallsAgree C call call')
    (hs : C.spans s s') {m n : Method} (h : Method.Like C m n) {args args' : List Value}
    (hargs : List.Forall₂ (Value.Like C) args args') :
    C.Agree (Value.Like C) (Evaluator.applyMethod call m args s)
      (Evaluator.applyMethod call' n args' s') := by
  cases h with
  | ofArray m id items => exact m.apply_agree hcall hs id items hargs
  | ofText m t => exact m.apply_agree hcall hs hargs
  | ofNumber m x => exact m.apply_agree hs x hargs
  | describe hv =>
      simp only [Evaluator.applyMethod, hv.toText]
      exact .pure (.string _)

/-- **Calls agree if arrow functions do.** -/
theorem callWith_agree {enter enter' : Evaluator.Enter} (henter : EntersAgree C enter enter')
    (hs : C.spans s s') (allowance : Nat) :
    CallsAgree C (Evaluator.callWith enter s allowance)
      (Evaluator.callWith enter' s' allowance) := by
  induction allowance with
  | zero =>
      intro f g args args' hf hargs
      cases hf with
      | closure _ arrow frames => exact henter _ _ _ _ _ _ _ _ arrow frames hargs
      | helper h => exact h.apply_agree hs hargs
      | method => exact .fail hs _
  | succ allowance ih =>
      intro f g args args' hf hargs
      cases hf with
      | closure _ arrow frames => exact henter _ _ _ _ _ _ _ _ arrow frames hargs
      | helper h => exact h.apply_agree hs hargs
      | method hm => exact applyMethod_agree ih hs hm hargs

end Stencil.Expr
