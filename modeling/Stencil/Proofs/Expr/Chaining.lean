import Stencil.Proofs.Expr.Alignment
import Stencil.Proofs.Expr.Visits

/-!
# Optional chaining

Member, index and call links over a base are a chain. Where the object of an optional link
comes to undefined or null, the whole chain stops: its value is undefined, and nothing is
visited but the links from the outermost down to that one, and what the visit of the object
has visited (`stops_chain`). In every other place an optional link does what a plain one
does, so a tree whose links are made plain, where it has a value, has the same in the same
number of steps (`textAndSteps_of_plain`).
-/

namespace Stencil.Expr

open Evaluator

/-! ## Plain links -/

mutual

/-- The tree with all links made plain. -/
def Tree.plain : Tree → Tree
  | .undefined s => .undefined s
  | .null s => .null s
  | .bool s b => .bool s b
  | .number s x => .number s x
  | .string s t => .string s t
  | .template s parts => .template s (plainParts parts)
  | .name s x => .name s x
  | .array s items => .array s (plainItems items)
  | .object s properties => .object s (plainProperties properties)
  | .member s object property _ => .member s object.plain property false
  | .index s object key _ => .index s object.plain key.plain false
  | .call s callee args => .call s callee.plain (plainItems args)
  | .arrow s params body => .arrow s params body.plain
  | .unary s op operand => .unary s op operand.plain
  | .binary s op lhs rhs => .binary s op lhs.plain rhs.plain
  | .conditional s test consequent alternate =>
      .conditional s test.plain consequent.plain alternate.plain

/-- The parts of a template with all links made plain. -/
def plainParts : List Part → List Part
  | [] => []
  | .text t :: parts => .text t :: plainParts parts
  | .code e :: parts => .code e.plain :: plainParts parts

/-- Trees with all links made plain. -/
def plainItems : List Tree → List Tree
  | [] => []
  | e :: es => e.plain :: plainItems es

/-- The properties of an object with all links made plain. -/
def plainProperties : List (Text × Tree) → List (Text × Tree)
  | [] => []
  | (key, e) :: properties => (key, e.plain) :: plainProperties properties

end

mutual

/-- A tree is aligned with itself where its links are made plain in the first. -/
theorem Tree.aligned_plain (xs : List Text) (e : Tree) : Tree.Aligned True xs xs e.plain e := by
  have hoptional : ∀ optional : Bool, false = optional ∨ True ∧ false = false :=
    fun _ => .inr ⟨trivial, rfl⟩
  cases e with
  | undefined s => exact .undefined s
  | null s => exact .null s
  | bool s b => exact .bool s b
  | number s x => exact .number s x
  | string s t => exact .string s t
  | template s parts => exact .template s (partsAligned_plain xs parts)
  | name s t => exact .name s (.refl xs t)
  | array s items => exact .array s (itemsAligned_plain xs items)
  | object s properties => exact .object s (propertiesAligned_plain xs properties)
  | member s object property optional =>
      exact .member s (object.aligned_plain xs) property (hoptional optional)
  | index s object key optional =>
      exact .index s (object.aligned_plain xs) (key.aligned_plain xs) (hoptional optional)
  | call s callee args => exact .call s (callee.aligned_plain xs) (itemsAligned_plain xs args)
  | arrow s params body => exact .arrow s rfl (body.aligned_plain (params.reverse ++ xs))
  | unary s op operand => exact .unary s op (operand.aligned_plain xs)
  | binary s op lhs rhs => exact .binary s op (lhs.aligned_plain xs) (rhs.aligned_plain xs)
  | conditional s test consequent alternate =>
      exact .conditional s (test.aligned_plain xs) (consequent.aligned_plain xs)
        (alternate.aligned_plain xs)
termination_by structural e

theorem partsAligned_plain (xs : List Text) (parts : List Part) :
    PartsAligned True xs xs (plainParts parts) parts := by
  cases parts with
  | nil => exact .nil
  | cons part parts => cases part with
      | text t => exact .text t (partsAligned_plain xs parts)
      | code e => exact .code (e.aligned_plain xs) (partsAligned_plain xs parts)
termination_by structural parts

theorem itemsAligned_plain (xs : List Text) (items : List Tree) :
    ItemsAligned True xs xs (plainItems items) items := by
  cases items with
  | nil => exact .nil
  | cons e items => exact .cons (e.aligned_plain xs) (itemsAligned_plain xs items)
termination_by structural items

theorem propertiesAligned_plain (xs : List Text) (properties : List (Text × Tree)) :
    PropertiesAligned True xs xs (plainProperties properties) properties := by
  cases properties with
  | nil => exact .nil
  | cons p properties =>
      obtain ⟨key, e⟩ := p
      exact .cons key (e.aligned_plain xs) (propertiesAligned_plain xs properties)
termination_by structural properties

end

/-- The text that an expression stands for, and the steps that its evaluation takes. -/
def Tree.textAndSteps (globals : Globals) (limits : Limits) (e : Tree) :
    Except ExprError (Text × Nat) :=
  (fun r => (r.1.render, r.2.steps)) <$>
    value (run ⟨globals, limits⟩ (limits.steps + 1)) [] 0 e {}

theorem fst_textAndSteps (globals : Globals) (limits : Limits) (e : Tree) :
    Prod.fst <$> e.textAndSteps globals limits = Value.render <$> e.evaluate globals limits := by
  change _ = Value.render <$> Prod.fst <$> value (run ⟨globals, limits⟩ (limits.steps + 1)) [] 0 e {}
  unfold Tree.textAndSteps
  cases value (run ⟨globals, limits⟩ (limits.steps + 1)) [] 0 e {} <;> rfl

/-- **Optional links change nothing where plain ones succeed.** -/
theorem textAndSteps_of_plain {globals : Globals} {limits : Limits} {e : Tree} {t : Text}
    {steps : Nat} (h : e.plain.textAndSteps globals limits = .ok (t, steps)) :
    e.textAndSteps globals limits = .ok (t, steps) := by
  have hvisits : VisitsAligned True (run ⟨globals, limits⟩ (limits.steps + 1)) _ :=
    run_aligned ⟨globals, limits⟩ (limits.steps + 1)
  have hvalues : (aligning True).Agree (Value.Like _) (value _ [] 0 e.plain) (value _ [] 0 e) :=
    value_aligned hvisits .nil (e.aligned_plain [])
  have hagree := hvalues {} {} rfl
  unfold Tree.textAndSteps at h ⊢
  obtain ⟨⟨v, p⟩, hplain, htext⟩ := Except.map_eq_ok_iff.1 h
  rw [hplain] at hagree
  generalize value _ [] 0 e {} = outcome at hagree ⊢
  cases hagree with
  | @values _ w _ q hvalue hprogress =>
      obtain ⟨rfl, rfl⟩ := Prod.mk.inj htext
      obtain rfl : p = q := hprogress
      rw [Except.map_ok, hvalue.render]
  | allowed _ hfalse => exact absurd hfalse id

/-! ## Chains -/

/-- A tree with a link attached to it at a range. -/
def attachAt (object : Tree) (link : Span × Parser.Link) : Tree :=
  match link.2 with
  | .member property optional => .member link.1 object property optional
  | .index key optional => .index link.1 object key optional
  | .call args => .call link.1 object args

/-- A tree with links attached to it, one after another. -/
def chain (base : Tree) (links : List (Span × Parser.Link)) : Tree :=
  links.foldl attachAt base

/-- Whether the chain stops before the link where its object is undefined or null. -/
def Parser.Link.isOptional : Parser.Link → Bool
  | .member _ optional | .index _ optional => optional
  | .call _ => false

/-- What the object of a link has to come to for the chain to stop before the link. -/
def Stops (link : Parser.Link) (target : Option Value) : Prop :=
  target = none ∨ link.isOptional ∧ (target.getD .undefined).isNullish

theorem link_of_stops {link : Parser.Link} {target : Option Value} (h : Stops link target)
    (next : Value → Eval Value) : Evaluator.link link.isOptional target next = pure none := by
  cases target with
  | none => rfl
  | some v =>
      obtain ⟨hoptional, hnullish⟩ := h.resolve_left (Option.some_ne_none v)
      have hstops : (link.isOptional && v.isNullish) = true := by
        rw [hoptional, Bool.true_and]
        exact hnullish
      exact if_pos hstops

/-- A link starts with the visit of its object, and asks for nothing more if the chain stops
before it. -/
theorem node_attachAt (setting : Setting) (frames : Frames) (depth : Nat) (object : Tree)
    (link : Span × Parser.Link) :
    ∃ next : Option Value → Visit → Eval (Option Value),
      (∀ visit, node setting visit frames depth (attachAt object link) =
        visit frames depth object >>= fun target => next target visit) ∧
      ∀ target visit, Stops link.2 target → next target visit = pure none := by
  obtain ⟨span, link⟩ := link
  cases link with
  | member | index | call =>
      exact ⟨_, fun _ => rfl, fun _ _ hstops => link_of_stops hstops _⟩

namespace Evaluator.Activation

/-- A visit of a tree that starts some visits into another, each inside the one before it. -/
def inner (a : Activation) (visits : Nat) (tree : Tree) : Activation :=
  ⟨⟨a.frames, a.depth, tree, { a.progress with steps := a.progress.steps + visits }⟩,
    a.nesting - visits⟩

theorem inner_zero (a : Activation) : a.inner 0 a.tree = a := rfl

theorem inner_inner (a : Activation) (m n : Nat) (tree tree' : Tree) :
    (a.inner m tree).inner n tree' = a.inner (m + n) tree' := by
  unfold inner
  rw [Nat.add_assoc, Nat.sub_sub]

variable {setting : Setting} {a : Activation} {object : Tree} {link : Span × Parser.Link}
  {target : Option Value} {q : Progress}

/-- A visit in which another completes has a step and a visit left for it. -/
theorem Completes.room (h : (a.inner 1 object).Completes setting) :
    a.progress.steps < setting.limits.steps ∧ a.nesting = a.nesting - 1 + 1 := by
  constructor
  · exact Nat.lt_of_succ_lt h.lt
  · cases hnesting : a.nesting with
    | succ nesting => rfl
    | zero =>
        obtain ⟨v, q, hresult⟩ := h
        unfold inner result at hresult
        rw [hnesting] at hresult
        cases hresult

/-- **A link before which the chain stops gives nothing**, and visits only its object. -/
theorem link_stops (ha : a.tree = attachAt object link)
    (hobject : (a.inner 1 object).result setting = .ok (target, q)) (hstops : Stops link.2 target) :
    a.result setting = .ok (none, q) ∧
      ∀ b, a.Reaches setting b ↔ b = a ∨ (a.inner 1 object).Reaches setting b := by
  obtain ⟨next, hnode, hnext⟩ := node_attachAt setting a.frames a.depth object link
  obtain ⟨hlt, hnesting⟩ := Completes.room ⟨target, q, hobject⟩
  have hask : (a.inner 1 object).ask (run setting (a.nesting - 1)) = .ok (target, q) := hobject
  have hdemands : ∀ r, Demands (fun visit => node setting visit a.frames a.depth
      (attachAt object link)) (run setting (a.nesting - 1)) a.counted r ↔
        r = (a.inner 1 object).toRequest := by
    intro r
    simp only [hnode]
    refine (demands_operand_iff (s := (a.inner 1 object).toRequest)).trans (or_iff_left ?_)
    rintro ⟨v, q', hv, hmore⟩
    obtain ⟨rfl, rfl⟩ := Prod.mk.inj (Except.ok.inj (hask.symm.trans hv))
    have hfails := hmore (.runtime ⟨0, 0⟩ .invalidLength)
    rw [hnext _ _ hstops] at hfails
    cases hfails
  have henters : ∀ b, a.Enters setting b ↔ b = a.inner 1 object := by
    rintro ⟨r, nesting⟩
    rw [enters_iff, ha]
    constructor
    · rintro ⟨hnested, -, hr⟩
      obtain rfl : nesting = a.nesting - 1 := by
        rw [hnested]
        rfl
      rw [(hdemands r).1 hr]
      rfl
    · intro heq
      obtain ⟨rfl, rfl⟩ := Activation.mk.inj heq
      exact ⟨hnesting, hlt, (hdemands _).2 rfl⟩
  constructor
  · rw [result_of_nesting hnesting hlt, ha, hnode, Eval.bind_apply]
    change (a.inner 1 object).ask (run setting (a.nesting - 1)) >>= _ = _
    rw [hask, Except.bind_ok, hnext _ _ hstops]
    rfl
  · intro b
    unfold Reaches
    rw [Relation.ReflTransGen.cases_head_iff]
    simp only [henters, exists_eq_left, eq_comm (a := a)]

/-- **A chain stops at the object of an optional link that is undefined or null.** Its value
is undefined, and its visits are those of the links from that one on, and those that the
visit of the object makes. -/
theorem stops_chain (hoptional : link.2.isOptional) (after : List (Span × Parser.Link))
    (ha : a.tree = chain object (link :: after))
    (hobject : (a.inner (after.length + 1) object).result setting = .ok (target, q))
    (hnullish : (target.getD .undefined).isNullish) :
    a.result setting = .ok (none, q) ∧
      ∀ b, a.Reaches setting b ↔
        (∃ before, before <+: after ∧
          b = a.inner (after.length - before.length) (chain object (link :: before))) ∨
        (a.inner (after.length + 1) object).Reaches setting b := by
  induction after using List.reverseRecOn generalizing a with
  | nil =>
      obtain ⟨hresult, hreaches⟩ := link_stops ha hobject (.inr ⟨hoptional, hnullish⟩)
      refine ⟨hresult, fun b => ?_⟩
      rw [hreaches b]
      simp [← ha, inner_zero]
  | append_singleton after next ih =>
      have hchain : chain object (link :: (after ++ [next])) =
          attachAt (chain object (link :: after)) next := by
        rw [chain, ← List.cons_append, List.foldl_append]
        rfl
      have hinner : ∀ n tree, (a.inner 1 (chain object (link :: after))).inner n tree =
          a.inner (n + 1) tree := by
        intro n tree
        rw [inner_inner, Nat.add_comm]
      rw [List.length_append, List.length_singleton] at hobject
      obtain ⟨hbelow, hvisited⟩ := ih (a := a.inner 1 (chain object (link :: after))) rfl
        (by rw [hinner]; exact hobject)
      obtain ⟨hresult, hreaches⟩ := link_stops (ha.trans hchain) hbelow (.inl rfl)
      refine ⟨hresult, fun b => ?_⟩
      have hbefore : (∃ before, before <+: after ∧ b = (a.inner 1 (chain object (link :: after))).inner
          (after.length - before.length) (chain object (link :: before))) ↔
            ∃ before, before <+: after ∧
              b = a.inner (after.length + 1 - before.length) (chain object (link :: before)) := by
        refine exists_congr fun before => and_congr_right fun hprefix => ?_
        rw [hinner, Nat.sub_add_comm hprefix.length_le]
      have hself : a.inner (after.length + 1 - (after ++ [next]).length)
          (chain object (link :: (after ++ [next]))) = a := by
        rw [List.length_append, List.length_singleton, Nat.sub_self, ← ha, inner_zero]
      rw [hreaches b, hvisited b, hbefore, hinner, List.length_append, List.length_singleton]
      simp only [List.prefix_concat_iff, or_and_right, exists_or, exists_eq_left, or_assoc, hself]

end Evaluator.Activation

/-- **Optional links extend plain ones, and stop the whole chain.** Where a tree with plain
links only has a text, the tree with optional links has it in as many steps. And where the
object of an optional link comes to undefined or null, the value of the outermost link is
undefined, and no key or argument of that link or of those after it is visited: only the
links themselves are, and what the visit of the object makes. -/
theorem optional_chaining (globals : Globals) (limits : Limits) :
    (∀ (e : Tree) (t : Text) (steps : Nat),
      e.plain.textAndSteps globals limits = .ok (t, steps) →
        e.textAndSteps globals limits = .ok (t, steps)) ∧
    ∀ (a : Activation) (object : Tree) (link : Span × Parser.Link)
      (after : List (Span × Parser.Link)) (target : Option Value) (q : Progress),
      a.tree = chain object (link :: after) → link.2.isOptional →
      (a.inner (after.length + 1) object).result ⟨globals, limits⟩ = .ok (target, q) →
      (target.getD .undefined).isNullish →
        value (run ⟨globals, limits⟩ a.nesting) a.frames a.depth a.tree a.progress =
            .ok (.undefined, q) ∧
          ∀ b, a.Reaches ⟨globals, limits⟩ b ↔
            (∃ before, before <+: after ∧
              b = a.inner (after.length - before.length) (chain object (link :: before))) ∨
            (a.inner (after.length + 1) object).Reaches ⟨globals, limits⟩ b := by
  refine ⟨fun e t steps => textAndSteps_of_plain, ?_⟩
  intro a object link after target q ha hoptional hobject hnullish
  obtain ⟨hresult, hreaches⟩ :=
    Activation.stops_chain hoptional after ha hobject hnullish
  refine ⟨?_, hreaches⟩
  change a.result ⟨globals, limits⟩ >>= _ = _
  rw [hresult]
  rfl

/-- `null?.a[x](y)` -/
def stopped : Tree :=
  chain (.null nowhere)
    [(nowhere, .member ['a'] true), (nowhere, .index (.name nowhere ['x']) false),
      (nowhere, .call [.name nowhere ['y']])]

/-- Neither of the undefined names is visited. -/
theorem optional_chaining_stopped :
    ((Activation.root ⟨9, 1⟩ stopped).inner 3 (.null nowhere)).result ⟨[], ⟨9, 1⟩⟩ =
        .ok (some .null, ⟨4, 0⟩) ∧
      value (run ⟨[], ⟨9, 1⟩⟩ 10) [] 0 stopped {} = .ok (.undefined, ⟨4, 0⟩) := by
  have hobject : ((Activation.root ⟨9, 1⟩ stopped).inner 3 (.null nowhere)).result ⟨[], ⟨9, 1⟩⟩ =
      .ok (some .null, ⟨4, 0⟩) := rfl
  have hstops := (optional_chaining [] ⟨9, 1⟩).2 (.root ⟨9, 1⟩ stopped) (.null nowhere)
    (nowhere, .member ['a'] true)
    [(nowhere, .index (.name nowhere ['x']) false), (nowhere, .call [.name nowhere ['y']])]
    (some .null) ⟨4, 0⟩ rfl rfl hobject rfl
  exact ⟨hobject, hstops.1⟩

end Stencil.Expr
