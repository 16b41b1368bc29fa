import Stencil.Proofs.Render.Demand

/-!
# A renderer with a stack of its own

A scope lists the partials being rendered, so that `renderText` has nothing to put back
when a body is done. The renderer here keeps one stack for the whole render instead. It
puts a partial on it before the body is rendered and takes the last one off when the body
is done, with markup or with a failure; and it asks this stack, never the scope, whether a
partial may be entered. A `Course` is the stack with all that became of it on the way.

The passes are those of `renderPasses`, step by step. So whatever relates work to tasks and
goes through sequences, relates the passes to one another if it relates invocations
(`Follows.renderPasses`).
-/

namespace Stencil.Render

variable {α β : Type}

/-- The stack of a renderer, and what became of it. -/
structure Course where
  /-- The partials being rendered, outermost first. -/
  stack : List Entry
  /-- The stacks before, the last one first. -/
  past : List (List Entry)
  /-- The partials that were not let in, each with the stack then, the last one first. -/
  refused : List (List Entry × Text)

namespace Course

/-- Nothing is being rendered, and nothing has been. -/
def start : Course :=
  ⟨[], [], []⟩

/-- Every stack so far. -/
def moments (c : Course) : List (List Entry) :=
  c.stack :: c.past

/-- Goes on with another stack. -/
def turn (c : Course) (stack : List Entry) : Course :=
  { c with stack, past := c.moments }

/-- Puts a partial on the stack. -/
def push (c : Course) (entry : Entry) : Course :=
  c.turn (c.stack ++ [entry])

/-- Takes the last partial off the stack. -/
def pop (c : Course) : Course :=
  c.turn c.stack.dropLast

/-- Notes that a partial was not let in. -/
def refuse (c : Course) (name : Text) : Course :=
  { c with refused := (c.stack, name) :: c.refused }

@[simp] theorem stack_push (c : Course) (entry : Entry) :
    (c.push entry).stack = c.stack ++ [entry] := rfl

@[simp] theorem moments_push (c : Course) (entry : Entry) :
    (c.push entry).moments = (c.stack ++ [entry]) :: c.moments := rfl

@[simp] theorem moments_pop (c : Course) : c.pop.moments = c.stack.dropLast :: c.moments := rfl

end Course

/-- What a renderer does: it succeeds or fails, and in both cases has come somewhere. -/
def Work (α : Type) :=
  Course → Except RenderError α × Course

namespace Work

/-- Does what asks for no partials. -/
def settled (x : Except RenderError α) : Work α :=
  fun c => (x, c)

/-- Does one thing and then another. A failure of the first ends it where it is. -/
def bind (w : Work α) (f : α → Work β) : Work β := fun c =>
  match w c with
  | (.ok a, c) => f a c
  | (.error e, c) => (.error e, c)

instance : Monad Work where
  pure a := settled (.ok a)
  bind := bind

/-- Fails because a partial is not let in. -/
def refuse (name : Text) : Work Text :=
  fun c => (.error (.cyclic (c.stack.map Entry.name ++ [name])), c.refuse name)

/-- Works with one more partial on the stack. -/
def within (entry : Entry) (w : Work α) : Work α := fun c =>
  let (x, after) := w (c.push entry)
  (x, after.pop)

/-- Renders the body of a partial for an invocation, unless the partial is on the stack with
the same bindings, or the stack is full. -/
def enter (setting : Setting) (inner : Scope → (body : Text) → Work Text) (scope : Scope)
    (name body fragment : Text) : Work Text := fun c =>
  let entered := scope.enter name fragment
  if ⟨name, entered.digest⟩ ∈ c.stack ∨ setting.config.maxPartialDepth ≤ c.stack.length then
    refuse name c
  else within ⟨name, entered.digest⟩ (inner entered body) c

section Enter

variable {setting : Setting} {inner : Scope → (body : Text) → Work Text} {scope : Scope}
  {name fragment : Text} {c : Course}

theorem enter_of_refused
    (h : ⟨name, (scope.enter name fragment).digest⟩ ∈ c.stack ∨
      setting.config.maxPartialDepth ≤ c.stack.length) (body : Text) :
    enter setting inner scope name body fragment c = refuse name c :=
  if_pos h

theorem enter_of_admitted
    (h : ¬ (⟨name, (scope.enter name fragment).digest⟩ ∈ c.stack ∨
      setting.config.maxPartialDepth ≤ c.stack.length)) (body : Text) :
    enter setting inner scope name body fragment c =
      within ⟨name, (scope.enter name fragment).digest⟩
        (inner (scope.enter name fragment) body) c :=
  if_neg h

end Enter

/-! ## The passes -/

/-- The results on the items of a list, where results by key are known. -/
def mapDistinctFrom (key : α → Text) (f : α → Work β) :
    (known : Bindings β) → List α → Work (List β)
  | _, [] => pure []
  | known, a :: as =>
      match known.get? (key a) with
      | some b => return b :: (← mapDistinctFrom key f known as)
      | none => do
          let b ← f a
          return b :: (← mapDistinctFrom key f ((key a, b) :: known) as)

variable (setting : Setting) (enter : (name body fragment : Text) → Work Text)

/-- Puts the rendered body of a partial in the place of its invocations. -/
def expand? (origin : Origin) (name body : Text) (draft : Draft) : Work (Option Draft) := do
  let scan := Markup.scanTags (some (tagName name)) draft.text
  settled <| checkTerminated setting.config .tag origin (scan.unterminated.map draft.map.toSource)
  if scan.regions = [] then return none
  let outputs ←
    mapDistinctFrom Markup.Region.text (fun r => enter name body r.text) [] scan.regions
  return some (draft.replace scan outputs)

/-- Looks for invocations of one partial. -/
def expandNext (origin : Origin) (state : Draft × Bool) (p : Text × Text) :
    Work (Draft × Bool) := do
  match ← expand? setting enter origin p.1 p.2 state.1 with
  | some draft => return (draft, true)
  | none => return state

/-- Looks for invocations of each partial in turn. -/
def expandRound (origin : Origin) (draft : Draft) : Work (Draft × Bool) :=
  setting.registry.foldlM (expandNext setting enter origin) (draft, false)

/-- Runs rounds until one finds no invocation, at most so many. -/
def expandRounds (origin : Origin) : (rounds : Nat) → Draft → Work Draft
  | 0, draft => pure draft
  | rounds + 1, draft => do
      let (draft, found) ← expandRound setting enter origin draft
      if found then expandRounds origin rounds draft else return draft

/-- Renders a text with its escapes left in it. -/
def renderPasses (scope : Scope) (t : Text) : Work Text := do
  let draft ← settled (expressionPass setting scope t)
  let draft ← expandRounds setting enter scope.origin setting.config.maxPartialDepth draft
  settled (checkKnown setting scope.origin draft)
  return draft.text

omit enter

/-- Renders a text, where at most so many partials may nest in it. -/
def renderText : (room : Nat) → Scope → Text → Work Text
  | 0, scope, t =>
      let inner (entered : Scope) (_ : Text) := settled (.error entered.cycle)
      renderPasses setting (Work.enter setting inner scope) scope t
  | room + 1, scope, t => renderPasses setting (Work.enter setting (renderText room) scope) scope t

/-- Renders a template. -/
def render (template : Text) (context : Context) (partials : Partial.Registry)
    (config : Config) : Work Text := do
  let markup ← renderText ⟨partials, config⟩ config.maxPartialDepth (Scope.root context) template
  return Markup.unescape markup

end Work

/-! ## What asks for no partials is no cycle -/

/-- A failure that is no cycle. -/
def RenderError.IsOther (e : RenderError) : Prop :=
  ∀ chain, e ≠ .cyclic chain

theorem not_isCycle_of_outcome {x : Except RenderError α}
    (h : Outcome (fun _ => True) RenderError.IsOther x) : ¬ IsCycle x := by
  rintro ⟨chain, rfl⟩
  exact h chain rfl

theorem outcome_checkTerminated (config : Config) (kind : RegionKind) (origin : Origin)
    (offset : Option Nat) : Outcome (fun _ => True) RenderError.IsOther
      (checkTerminated config kind origin offset) := by
  cases offset with
  | none => trivial
  | some k =>
      rw [checkTerminated]
      split
      · intro chain h
        cases h
      · trivial

theorem outcome_expressionPass (setting : Setting) (scope : Scope) (t : Text) :
    Outcome (fun _ => True) RenderError.IsOther (expressionPass setting scope t) := by
  rw [expressionPass_eq]
  refine (outcome_checkTerminated _ _ _ _).bind fun _ _ _ => ?_
  refine (Outcome.mapM fun r _ => ?_).bind fun _ _ _ => trivial
  rw [regionText]
  split
  · trivial
  · intro chain h
    cases h

theorem outcome_checkKnown (setting : Setting) (origin : Origin) (draft : Draft) :
    Outcome (fun _ => True) RenderError.IsOther (checkKnown setting origin draft) := by
  unfold checkKnown
  dsimp only
  split
  · split
    · intro chain h
      cases h
    · trivial
  · trivial

/-! ## Work and tasks -/

/-- A relation between what a renderer does and tasks that goes through sequences. -/
structure Follows (C : ∀ {α : Type}, Work α → Except RenderError α → Prop) : Prop where
  settled : ∀ {α : Type} {x : Except RenderError α}, ¬ IsCycle x → C (Work.settled x) x
  bind : ∀ {α β : Type} {w : Work α} {x : Except RenderError α} {f : α → Work β}
    {g : α → Except RenderError β}, C w x → (∀ a, C (f a) (g a)) → C (w >>= f) (x >>= g)

namespace Follows

variable {C : ∀ {α : Type}, Work α → Except RenderError α → Prop} (hC : Follows C)
include hC

theorem pure (a : α) : C (Pure.pure a : Work α) (.ok a) :=
  hC.settled (not_isCycle_ok a)

theorem mapDistinctFrom {key : α → Text} {f : α → Work β} {g : α → Except RenderError β}
    (h : ∀ a, C (f a) (g a)) (as : List α) (known : Bindings β) :
    C (Work.mapDistinctFrom key f known as) (Stencil.mapDistinctFrom key g known as) := by
  induction as generalizing known with
  | nil => exact hC.pure []
  | cons a as ih =>
      rw [Work.mapDistinctFrom, Stencil.mapDistinctFrom]
      cases known.get? (key a) with
      | some b => exact hC.bind (ih _) fun bs => hC.pure _
      | none => exact hC.bind (h a) fun b => hC.bind (ih _) fun bs => hC.pure _

theorem foldlM {f : β → α → Work β} {g : β → α → Except RenderError β} {as : List α}
    (h : ∀ b, ∀ a ∈ as, C (f b a) (g b a)) (b : β) : C (as.foldlM f b) (as.foldlM g b) := by
  induction as generalizing b with
  | nil => exact hC.pure b
  | cons a as ih =>
      rw [List.foldlM_cons, List.foldlM_cons]
      refine hC.bind (h b a List.mem_cons_self) fun b' => ?_
      exact ih (fun c a' ha' => h c a' (List.mem_cons_of_mem a ha')) b'

variable {setting : Setting} {enter : (name body fragment : Text) → Work Text} {invoke : Invoke}
  (h : ∀ p ∈ setting.registry, ∀ fragment, C (enter p.1 p.2 fragment) (invoke p.1 p.2 fragment))
include h

theorem expandNext (origin : Origin) (state : Draft × Bool) {p : Text × Text}
    (hp : p ∈ setting.registry) :
    C (Work.expandNext setting enter origin state p)
      (Render.expandNext setting invoke origin state p) := by
  have hexpand : C (Work.expand? setting enter origin p.1 p.2 state.1)
      (Render.expand? setting invoke origin p.1 p.2 state.1) := by
    rw [Work.expand?, Render.expand?]
    refine hC.bind (hC.settled (not_isCycle_of_outcome (outcome_checkTerminated _ _ _ _)))
      fun _ => ?_
    split
    · exact hC.pure none
    · refine hC.bind (hC.mapDistinctFrom (fun r : Markup.Region => ?_) _ _) fun outputs => hC.pure _
      exact h p hp r.text
  refine hC.bind hexpand fun result => ?_
  cases result with
  | none => exact hC.pure state
  | some draft => exact hC.pure (draft, true)

theorem expandRounds (origin : Origin) (rounds : Nat) (draft : Draft) :
    C (Work.expandRounds setting enter origin rounds draft)
      (Render.expandRounds setting invoke origin rounds draft) := by
  induction rounds generalizing draft with
  | zero => exact hC.pure draft
  | succ rounds ih =>
      refine hC.bind (hC.foldlM (fun state p hp => hC.expandNext h origin state hp) _)
        fun state => ?_
      obtain ⟨draft', found⟩ := state
      cases found with
      | true => exact ih draft'
      | false => exact hC.pure draft'

/-- **The passes go in step** if invocations do. -/
theorem renderPasses (scope : Scope) (t : Text) :
    C (Work.renderPasses setting enter scope t) (Render.renderPasses setting invoke scope t) := by
  refine hC.bind (hC.settled (not_isCycle_of_outcome (outcome_expressionPass setting scope t)))
    fun draft => ?_
  refine hC.bind (hC.expandRounds h scope.origin _ draft) fun draft' => ?_
  refine hC.bind (hC.settled (not_isCycle_of_outcome (outcome_checkKnown setting _ draft')))
    fun _ => ?_
  exact hC.pure _

end Follows

end Stencil.Render
