import Stencil.Proofs.Expr.Alignment
import Stencil.Proofs.Expr.Faithful

/-!
# Renaming the parameters of an arrow function

The names of parameters mean nothing outside the body that they are bound in, and there
they mean their place only. So the parameters of any arrow function in a tree may get other
names, as long as these differ from one another and nothing in the tree is called so yet
(`evaluate_renamed`): the evaluation comes to the same text, or fails the same at the same
range. It does not matter how the function gets about before it is called, or what the
names are bound to where it is called, or globally.
-/

namespace Stencil.Expr

open Evaluator

/-! ## Renaming -/

mutual

/-- The tree with some names renamed wherever they are not bound inside it. -/
def Tree.rename (ρ : Text → Text) (bound : List Text) : Tree → Tree
  | .undefined s => .undefined s
  | .null s => .null s
  | .bool s b => .bool s b
  | .number s x => .number s x
  | .string s t => .string s t
  | .template s parts => .template s (renameParts ρ bound parts)
  | .name s x => .name s (if x ∈ bound then ρ x else x)
  | .array s items => .array s (renameItems ρ bound items)
  | .object s properties => .object s (renameProperties ρ bound properties)
  | .member s object property optional => .member s (object.rename ρ bound) property optional
  | .index s object key optional =>
      .index s (object.rename ρ bound) (key.rename ρ bound) optional
  | .call s callee args => .call s (callee.rename ρ bound) (renameItems ρ bound args)
  | .arrow s params body =>
      .arrow s params (body.rename ρ (bound.filter fun x => x ∉ params))
  | .unary s op operand => .unary s op (operand.rename ρ bound)
  | .binary s op lhs rhs => .binary s op (lhs.rename ρ bound) (rhs.rename ρ bound)
  | .conditional s test consequent alternate =>
      .conditional s (test.rename ρ bound) (consequent.rename ρ bound) (alternate.rename ρ bound)

/-- The parts of a template with some names renamed. -/
def renameParts (ρ : Text → Text) (bound : List Text) : List Part → List Part
  | [] => []
  | .text t :: parts => .text t :: renameParts ρ bound parts
  | .code e :: parts => .code (e.rename ρ bound) :: renameParts ρ bound parts

/-- Trees with some names renamed. -/
def renameItems (ρ : Text → Text) (bound : List Text) : List Tree → List Tree
  | [] => []
  | e :: es => e.rename ρ bound :: renameItems ρ bound es

/-- The properties of an object with some names renamed. -/
def renameProperties (ρ : Text → Text) (bound : List Text) :
    List (Text × Tree) → List (Text × Tree)
  | [] => []
  | (key, e) :: properties => (key, e.rename ρ bound) :: renameProperties ρ bound properties

end

mutual

/-- All names in a tree, of parameters too. -/
def Tree.names : Tree → List Text
  | .undefined _ | .null _ | .bool .. | .number .. | .string .. => []
  | .template _ parts => partsNames parts
  | .name _ x => [x]
  | .array _ items => itemsNames items
  | .object _ properties => propertiesNames properties
  | .member _ object _ _ => object.names
  | .index _ object key _ => object.names ++ key.names
  | .call _ callee args => callee.names ++ itemsNames args
  | .arrow _ params body => params ++ body.names
  | .unary _ _ operand => operand.names
  | .binary _ _ lhs rhs => lhs.names ++ rhs.names
  | .conditional _ test consequent alternate =>
      test.names ++ consequent.names ++ alternate.names

/-- All names in the parts of a template. -/
def partsNames : List Part → List Text
  | [] => []
  | .text _ :: parts => partsNames parts
  | .code e :: parts => e.names ++ partsNames parts

/-- All names in some trees. -/
def itemsNames : List Tree → List Text
  | [] => []
  | e :: es => e.names ++ itemsNames es

/-- All names in the properties of an object. -/
def propertiesNames : List (Text × Tree) → List Text
  | [] => []
  | (_, e) :: properties => e.names ++ propertiesNames properties

end

/-! ## A node of a tree -/

/-- The parts of a template with other expressions. -/
def fillParts : List Part → List Tree → List Part
  | .text t :: parts, es => .text t :: fillParts parts es
  | .code _ :: parts, e :: es => .code e :: fillParts parts es
  | parts, _ => parts

namespace Tree

/-- A node with other nodes below it. -/
def withChildren : Tree → List Tree → Tree
  | .template s parts, es => .template s (fillParts parts es)
  | .array s _, es => .array s es
  | .object s properties, es => .object s ((properties.map Prod.fst).zip es)
  | .member s _ property optional, [e] => .member s e property optional
  | .index s _ _ optional, [e, key] => .index s e key optional
  | .call s _ _, callee :: args => .call s callee args
  | .arrow s params _, [body] => .arrow s params body
  | .unary s op _, [operand] => .unary s op operand
  | .binary s op _ _, [lhs, rhs] => .binary s op lhs rhs
  | .conditional s _ _ _, [test, consequent, alternate] =>
      .conditional s test consequent alternate
  | e, _ => e

/-- The node that a path leads to. -/
def at? (e : Tree) : (path : List Nat) → Option Tree
  | [] => some e
  | i :: path => e.children[i]?.bind fun child => child.at? path

/-- The tree with another node where a path leads to. -/
def replaceAt (e : Tree) (path : List Nat) (node : Tree) : Tree :=
  match path with
  | [] => node
  | i :: path => e.withChildren (e.children.modify i fun child => child.replaceAt path node)
termination_by structural path

/-- The parameters that the nodes below a node see in addition, innermost first. -/
def binds : Tree → List Text
  | .arrow _ params _ => params.reverse
  | _ => []

end Tree

/-! ## Names of nodes are names of the tree -/

theorem partsNames_eq (parts : List Part) :
    partsNames parts = (parts.filterMap Part.code?).flatMap Tree.names := by
  induction parts with
  | nil => rfl
  | cons part parts ih =>
      cases part with
      | text t => exact ih
      | code e => exact congrArg (e.names ++ ·) ih

theorem itemsNames_eq (items : List Tree) : itemsNames items = items.flatMap Tree.names := by
  induction items with
  | nil => rfl
  | cons e items ih => exact congrArg (e.names ++ ·) ih

theorem propertiesNames_eq (properties : List (Text × Tree)) :
    propertiesNames properties = (properties.map Prod.snd).flatMap Tree.names := by
  induction properties with
  | nil => rfl
  | cons p properties ih => exact congrArg (p.2.names ++ ·) ih

namespace Tree

variable {e node child : Tree}

theorem names_subset_of_child (h : child ∈ e.children) : child.names ⊆ e.names := by
  intro x hx
  have hbelow : x ∈ e.children.flatMap names := List.mem_flatMap.2 ⟨child, h, hx⟩
  cases e with
  | undefined | null | bool | number | string | name => cases h
  | template => rwa [names, partsNames_eq]
  | array => rwa [names, itemsNames_eq]
  | object => rwa [names, propertiesNames_eq]
  | call => rwa [names, itemsNames_eq, ← List.flatMap_cons]
  | arrow => exact List.mem_append_right _ (by simpa [children] using hbelow)
  | member | index | unary | binary | conditional =>
      simpa [names, children, or_assoc] using hbelow

theorem names_subset_of_at? {path : List Nat} (h : e.at? path = some node) :
    node.names ⊆ e.names := by
  induction path generalizing e with
  | nil =>
      obtain rfl := Option.some.inj h
      exact List.Subset.refl _
  | cons i path ih =>
      obtain ⟨child, hchild, hrest⟩ := Option.bind_eq_some_iff.1 h
      exact List.Subset.trans (ih hrest) (names_subset_of_child (List.mem_of_getElem? hchild))

end Tree

/-! ## A renamed body -/

/-- Where arrow functions with the parameters `zs` stand around, innermost first, these are
the parameters that are still to be renamed. No two parameters get one name, and none gets
that of one of `zs`. -/
structure StillBound (ρ : Text → Text) (params zs bound : List Text) : Prop where
  mem_iff (x : Text) : x ∈ bound ↔ x ∈ params ∧ x ∉ zs
  injOn : ∀ x ∈ params, ∀ y ∈ params, ρ x = ρ y → x = y
  fresh : ∀ x ∈ params, ρ x ∉ zs

namespace StillBound

variable {ρ : Text → Text} {params zs bound inner : List Text}

theorem root (hinj : ∀ x ∈ params, ∀ y ∈ params, ρ x = ρ y → x = y) :
    StillBound ρ params [] params where
  mem_iff x := by simp
  injOn := hinj
  fresh _ _ := List.not_mem_nil

/-- Parameters of an arrow function inside take those of the same names out. -/
theorem enter (h : StillBound ρ params zs bound) (hinner : ∀ x ∈ params, ρ x ∉ inner) :
    StillBound ρ params (inner.reverse ++ zs) (bound.filter fun x => x ∉ inner) where
  mem_iff x := by
    simp only [List.mem_filter, h.mem_iff, decide_eq_true_eq, List.mem_append, List.mem_reverse,
      not_or, and_assoc, and_comm (a := x ∉ zs)]
  injOn := h.injOn
  fresh x hx := by
    rw [List.mem_append, List.mem_reverse, not_or]
    exact ⟨hinner x hx, h.fresh x hx⟩

/-- A name is bound like what it is renamed to. -/
theorem boundAlike (h : StillBound ρ params zs bound) {x : Text}
    (hfresh : ∀ y ∈ params, ρ y ≠ x) (xs : List Text) :
    BoundAlike (zs ++ (params.reverse ++ xs)) (zs ++ ((params.map ρ).reverse ++ xs)) x
      (if x ∈ bound then ρ x else x) := by
  have hlength : params.reverse.length = (params.map ρ).reverse.length := by simp
  by_cases hx : x ∈ bound
  · obtain ⟨hparam, hzs⟩ := (h.mem_iff x).1 hx
    rw [if_pos hx, ← List.map_reverse]
    refine .behind rfl hzs (h.fresh x hparam) (.renamed (List.mem_reverse.2 hparam) ?_ xs xs)
    intro p hp q hq
    exact h.injOn p (List.mem_reverse.1 hp) q (List.mem_reverse.1 hq)
  · rw [if_neg hx]
    by_cases hzs : x ∈ zs
    · exact .common hzs _ _
    · have hparam : x ∉ params := fun hparam => hx ((h.mem_iff x).2 ⟨hparam, hzs⟩)
      refine .behind rfl hzs hzs (.behind hlength ?_ ?_ (.refl xs x))
      · rwa [List.mem_reverse]
      · rw [List.mem_reverse, List.mem_map]
        rintro ⟨y, hy, rfl⟩
        exact hfresh y hy rfl

end StillBound

section Body

variable {ρ : Text → Text} {params : List Text}

mutual

/-- **A body is aligned with the renamed body.** -/
theorem Tree.aligned_rename {zs bound : List Text} (h : StillBound ρ params zs bound)
    (xs : List Text) (e : Tree) (hfresh : ∀ x ∈ params, ρ x ∉ e.names) :
    Tree.Aligned False (zs ++ (params.reverse ++ xs)) (zs ++ ((params.map ρ).reverse ++ xs)) e
      (e.rename ρ bound) := by
  cases e with
  | undefined s => exact .undefined s
  | null s => exact .null s
  | bool s b => exact .bool s b
  | number s x => exact .number s x
  | string s t => exact .string s t
  | template s parts => exact .template s (partsAligned_rename h xs parts hfresh)
  | name s x =>
      refine .name s (h.boundAlike (fun y hy heq => hfresh y hy ?_) xs)
      exact List.mem_singleton.2 heq
  | array s items => exact .array s (itemsAligned_rename h xs items hfresh)
  | object s properties => exact .object s (propertiesAligned_rename h xs properties hfresh)
  | member s object property optional =>
      exact .member s (object.aligned_rename h xs hfresh) property (.inl rfl)
  | index s object key optional =>
      simp only [Tree.names, List.mem_append, not_or] at hfresh
      exact .index s (object.aligned_rename h xs fun x hx => (hfresh x hx).1)
        (key.aligned_rename h xs fun x hx => (hfresh x hx).2) (.inl rfl)
  | call s callee args =>
      simp only [Tree.names, List.mem_append, not_or] at hfresh
      exact .call s (callee.aligned_rename h xs fun x hx => (hfresh x hx).1)
        (itemsAligned_rename h xs args fun x hx => (hfresh x hx).2)
  | arrow s inner body =>
      simp only [Tree.names, List.mem_append, not_or] at hfresh
      have hbody := body.aligned_rename (h.enter fun x hx => (hfresh x hx).1) xs
        fun x hx => (hfresh x hx).2
      rw [List.append_assoc, List.append_assoc] at hbody
      exact .arrow s rfl hbody
  | unary s op operand => exact .unary s op (operand.aligned_rename h xs hfresh)
  | binary s op lhs rhs =>
      simp only [Tree.names, List.mem_append, not_or] at hfresh
      exact .binary s op (lhs.aligned_rename h xs fun x hx => (hfresh x hx).1)
        (rhs.aligned_rename h xs fun x hx => (hfresh x hx).2)
  | conditional s test consequent alternate =>
      simp only [Tree.names, List.mem_append, not_or] at hfresh
      exact .conditional s (test.aligned_rename h xs fun x hx => (hfresh x hx).1.1)
        (consequent.aligned_rename h xs fun x hx => (hfresh x hx).1.2)
        (alternate.aligned_rename h xs fun x hx => (hfresh x hx).2)
termination_by structural e

theorem partsAligned_rename {zs bound : List Text} (h : StillBound ρ params zs bound)
    (xs : List Text) (parts : List Part) (hfresh : ∀ x ∈ params, ρ x ∉ partsNames parts) :
    PartsAligned False (zs ++ (params.reverse ++ xs)) (zs ++ ((params.map ρ).reverse ++ xs)) parts
      (renameParts ρ bound parts) := by
  cases parts with
  | nil => exact .nil
  | cons part parts => cases part with
      | text t => exact .text t (partsAligned_rename h xs parts hfresh)
      | code e =>
          simp only [partsNames, List.mem_append, not_or] at hfresh
          exact .code (e.aligned_rename h xs fun x hx => (hfresh x hx).1)
            (partsAligned_rename h xs parts fun x hx => (hfresh x hx).2)
termination_by structural parts

theorem itemsAligned_rename {zs bound : List Text} (h : StillBound ρ params zs bound)
    (xs : List Text) (items : List Tree) (hfresh : ∀ x ∈ params, ρ x ∉ itemsNames items) :
    ItemsAligned False (zs ++ (params.reverse ++ xs)) (zs ++ ((params.map ρ).reverse ++ xs)) items
      (renameItems ρ bound items) := by
  cases items with
  | nil => exact .nil
  | cons e items =>
      simp only [itemsNames, List.mem_append, not_or] at hfresh
      exact .cons (e.aligned_rename h xs fun x hx => (hfresh x hx).1)
        (itemsAligned_rename h xs items fun x hx => (hfresh x hx).2)
termination_by structural items

theorem propertiesAligned_rename {zs bound : List Text} (h : StillBound ρ params zs bound)
    (xs : List Text) (properties : List (Text × Tree))
    (hfresh : ∀ x ∈ params, ρ x ∉ propertiesNames properties) :
    PropertiesAligned False (zs ++ (params.reverse ++ xs))
      (zs ++ ((params.map ρ).reverse ++ xs)) properties (renameProperties ρ bound properties) := by
  cases properties with
  | nil => exact .nil
  | cons p properties =>
      obtain ⟨key, e⟩ := p
      simp only [propertiesNames, List.mem_append, not_or] at hfresh
      exact .cons key (e.aligned_rename h xs fun x hx => (hfresh x hx).1)
        (propertiesAligned_rename h xs properties fun x hx => (hfresh x hx).2)
termination_by structural properties

end

end Body

/-! ## A renamed node -/

section Node

variable {relaxed : Prop} {xs ys : List Text}

theorem itemsAligned_of_forall₂ {items items' : List Tree}
    (h : List.Forall₂ (Tree.Aligned relaxed xs ys) items items') :
    ItemsAligned relaxed xs ys items items' := by
  induction h with
  | nil => exact .nil
  | cons he _ ih => exact .cons he ih

theorem partsAligned_fillParts {parts : List Part} {es : List Tree}
    (h : List.Forall₂ (Tree.Aligned relaxed xs ys) (parts.filterMap Part.code?) es) :
    PartsAligned relaxed xs ys parts (fillParts parts es) := by
  induction parts generalizing es with
  | nil => exact .nil
  | cons part parts ih =>
      cases part with
      | text t => exact .text t (ih h)
      | code e =>
          cases h with
          | cons he h => exact .code he (ih h)

theorem propertiesAligned_zip {properties : List (Text × Tree)} {es : List Tree}
    (h : List.Forall₂ (Tree.Aligned relaxed xs ys) (properties.map Prod.snd) es) :
    PropertiesAligned relaxed xs ys properties ((properties.map Prod.fst).zip es) := by
  induction properties generalizing es with
  | nil => exact .nil
  | cons p properties ih =>
      cases h with
      | cons he h => exact .cons p.1 he (ih h)

/-- Nodes are aligned if what is below them is, in the scope there. -/
theorem Tree.aligned_withChildren {e : Tree} {es : List Tree}
    (h : List.Forall₂ (Tree.Aligned relaxed (e.binds ++ xs) (e.binds ++ xs)) e.children es) :
    Tree.Aligned relaxed xs xs e (e.withChildren es) := by
  cases e with
  | undefined | null | bool | number | string | name =>
      cases h
      exact aligned_self relaxed xs _
  | template s parts => exact .template s (partsAligned_fillParts h)
  | array s items => exact .array s (itemsAligned_of_forall₂ h)
  | object s properties => exact .object s (propertiesAligned_zip h)
  | member s object property optional =>
      obtain _ | ⟨hobject, _ | _⟩ := h
      exact .member s hobject property (.inl rfl)
  | index s object key optional =>
      obtain _ | ⟨hobject, _ | ⟨hkey, _ | _⟩⟩ := h
      exact .index s hobject hkey (.inl rfl)
  | call s callee args =>
      obtain _ | ⟨hcallee, hargs⟩ := h
      exact .call s hcallee (itemsAligned_of_forall₂ hargs)
  | arrow s params body =>
      obtain _ | ⟨hbody, _ | _⟩ := h
      exact .arrow s rfl hbody
  | unary s op operand =>
      obtain _ | ⟨hoperand, _ | _⟩ := h
      exact .unary s op hoperand
  | binary s op lhs rhs =>
      obtain _ | ⟨hlhs, _ | ⟨hrhs, _ | _⟩⟩ := h
      exact .binary s op hlhs hrhs
  | conditional s test consequent alternate =>
      obtain _ | ⟨htest, _ | ⟨hyes, _ | ⟨hno, _ | _⟩⟩⟩ := h
      exact .conditional s htest hyes hno

theorem forall₂_modify {α : Type} {R : α → α → Prop} {f : α → α} (hself : ∀ a, R a a)
    (as : List α) (i : Nat) (h : ∀ a, as[i]? = some a → R a (f a)) :
    List.Forall₂ R as (as.modify i f) := by
  induction as generalizing i with
  | nil => cases i <;> exact .nil
  | cons a as ih =>
      cases i with
      | zero => exact .cons (h a rfl) (List.forall₂_same.2 fun a _ => hself a)
      | succ i => exact .cons (hself a) (ih i h)

/-- **Trees are aligned if they are but for one node, and the nodes there are aligned.** -/
theorem Tree.aligned_replaceAt {node node' : Tree}
    (hnode : ∀ xs, Tree.Aligned relaxed xs xs node node') (path : List Nat) {e : Tree}
    (h : e.at? path = some node) (xs : List Text) :
    Tree.Aligned relaxed xs xs e (e.replaceAt path node') := by
  induction path generalizing e xs with
  | nil =>
      obtain rfl := Option.some.inj h
      exact hnode xs
  | cons i path ih =>
      refine aligned_withChildren (forall₂_modify (aligned_self relaxed _) _ i fun child hchild => ?_)
      refine ih ?_ _
      rwa [at?, hchild, Option.bind_some] at h

end Node

/-! ## Evaluations -/

/-- The same text, or failures of one kind at one range. -/
inductive SameAnswer : Except ExprError Value → Except ExprError Value → Prop where
  | text {v w : Value} (h : v.render = w.render) : SameAnswer (.ok v) (.ok w)
  | failure {e e' : ExprError} (h : e.SameKind e') : SameAnswer (.error e) (.error e')

/-- Aligned trees come to the same. -/
theorem evaluate_aligned (globals : Globals) (limits : Limits) {e e' : Tree}
    (h : Tree.Aligned False [] [] e e') :
    SameAnswer (e.evaluate globals limits) (e'.evaluate globals limits) := by
  have hvisits : VisitsAligned False (run ⟨globals, limits⟩ (limits.steps + 1)) _ :=
    run_aligned ⟨globals, limits⟩ (limits.steps + 1)
  have hvalues : (aligning False).Agree (Value.Like _) (value _ [] 0 e) (value _ [] 0 e') :=
    value_aligned hvisits .nil h
  have hagree := hvalues {} {} rfl
  change SameAnswer (Prod.fst <$> value _ [] 0 e {}) (Prod.fst <$> value _ [] 0 e' {})
  generalize value _ [] 0 e {} = outcome at hagree ⊢
  generalize value _ [] 0 e' {} = outcome' at hagree ⊢
  cases hagree with
  | values hvalue _ => exact .text hvalue.render
  | failures hkind => exact .failure hkind
  | excused hfalse => exact absurd hfalse id
  | allowed _ hfalse => exact absurd hfalse id

/-- **The names of parameters mean their places.** Other names that differ from one another
and are nowhere in the tree may take theirs, in the whole body of an arrow function wherever
that stands, and its evaluation answers the same, whatever the globals are. -/
theorem evaluate_renamed (globals : Globals) (limits : Limits) {e : Tree} {path : List Nat}
    {span : Span} {params : List Text} {body : Tree}
    (harrow : e.at? path = some (.arrow span params body)) {ρ : Text → Text}
    (hinj : ∀ x ∈ params, ∀ y ∈ params, ρ x = ρ y → x = y)
    (hfresh : ∀ x ∈ params, ρ x ∉ e.names) :
    SameAnswer (e.evaluate globals limits)
      ((e.replaceAt path (.arrow span (params.map ρ) (body.rename ρ params))).evaluate globals
        limits) := by
  have hbody : ∀ x ∈ params, ρ x ∉ body.names := fun x hx hmem =>
    hfresh x hx (Tree.names_subset_of_at? harrow (List.mem_append_right params hmem))
  refine evaluate_aligned globals limits (Tree.aligned_replaceAt (fun xs => ?_) path harrow [])
  exact .arrow span (List.length_map ρ).symm
    (body.aligned_rename (.root hinj) xs hbody)

/-- `((x, y) => [x, x => x, y => x])(null, true)` -/
def shadowing : Tree :=
  .call nowhere
    (.arrow nowhere [['x'], ['y']]
      (.array nowhere
        [.name nowhere ['x'], .arrow nowhere [['x']] (.name nowhere ['x']),
          .arrow nowhere [['y']] (.name nowhere ['x'])]))
    [.null nowhere, .bool nowhere true]

/-- The parameters of the outer function are renamed to `x1` and `y1`, and with them what
they bind: not what an inner parameter does. -/
theorem evaluate_renamed_shadowing :
    (∀ x ∈ [['x'], ['y']], ∀ y ∈ [['x'], ['y']], x ++ ['1'] = y ++ ['1'] → x = y) ∧
      (∀ x ∈ [['x'], ['y']], x ++ ['1'] ∉ shadowing.names) ∧
      SameAnswer (shadowing.evaluate Globals.builtin {})
        (Tree.evaluate Globals.builtin {} <| .call nowhere
          (.arrow nowhere [['x', '1'], ['y', '1']]
            (.array nowhere
              [.name nowhere ['x', '1'], .arrow nowhere [['x']] (.name nowhere ['x']),
                .arrow nowhere [['y']] (.name nowhere ['x', '1'])]))
          [.null nowhere, .bool nowhere true]) := by
  have harrow : shadowing.at? [0] = some (.arrow nowhere [['x'], ['y']] _) := rfl
  have hinj : ∀ x ∈ [['x'], ['y']], ∀ y ∈ [['x'], ['y']], x ++ ['1'] = y ++ ['1'] → x = y := by
    decide
  have hfresh : ∀ x ∈ [['x'], ['y']], x ++ ['1'] ∉ shadowing.names := by decide
  have hsame := evaluate_renamed Globals.builtin {} harrow hinj hfresh
  simp only [Tree.replaceAt, Tree.rename, renameItems, List.filter, List.map, shadowing] at hsame
  exact ⟨hinj, hfresh, hsame⟩

end Stencil.Expr
