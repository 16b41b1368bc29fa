import Stencil.Proofs.Markup.Verbatim
import Stencil.Proofs.Render.Single

/-!
# Chains of partials

In a chain each partial invokes the next, between two texts of its own, and the last one is
only text. A chain expands from the outside in, and the texts come out in that order: the
texts before the invocations, then those behind them, turned round.

How long a chain can be is how deep partials can nest, no more and no less
(`render_chain`). The number of rounds is bounded by the same number, but it does not matter
here: a body has one tag, so one round is all that a body needs. What the tag of a chain
gives is read off the chain by `Chain.outcome`, and a render gives the same
(`innerRender_chain`), by induction on the chain.
-/

namespace Stencil.Render

open Markup
open Partial (Registry isValidName)

/-! ## Text that means itself -/

/-- Text without anything that opens structure, and nothing that could take the meaning of
structure away. -/
structure Literal (t : Text) : Prop where
  backslash : '\\' ∉ t
  brace : '{' ∉ t
  tag : '<' ∉ t

namespace Literal

variable {s t : Text}

instance (t : Text) : Decidable (Literal t) :=
  decidable_of_iff ('\\' ∉ t ∧ '{' ∉ t ∧ '<' ∉ t)
    ⟨fun h => ⟨h.1, h.2.1, h.2.2⟩, fun h => ⟨h.backslash, h.brace, h.tag⟩⟩

theorem nil : Literal [] :=
  ⟨by simp, by simp, by simp⟩

theorem append (hs : Literal s) (ht : Literal t) : Literal (s ++ t) where
  backslash := by simp [hs.backslash, ht.backslash]
  brace := by simp [hs.brace, ht.brace]
  tag := by simp [hs.tag, ht.tag]

theorem closed (h : Literal t) : pending false t = false :=
  pending_of_no_backslash h.backslash

theorem free_brace (h : Literal t) : Free '{' false t :=
  free_of_not_mem h.brace false

theorem free_tag (h : Literal t) : Free '<' false t :=
  free_of_not_mem h.tag false

theorem unescape_eq (h : Literal t) : unescape t = t := by
  refine unescape_eq_self_iff.2 fun d _ hinside => ?_
  exact h.backslash (hinside.subset List.mem_cons_self)

theorem settled {registry : Registry} (hvalid : registry.Valid) (h : Literal t) :
    Settled registry t :=
  settled_of_tagless hvalid (tagless_of_free h.free_tag)

end Literal

/-! ## Chains -/

/-- Partials that invoke one another in turn, the outermost first. -/
inductive Chain where
  /-- A partial that is only text. -/
  | last (name text : Text)
  /-- A partial that invokes the next one, between two texts. -/
  | link (name before after : Text) (next : Chain)

namespace Chain

/-- The name of the outermost partial. -/
def name : Chain → Text
  | last name _ | link name _ _ _ => name

/-- The body of the outermost partial. -/
def body : Chain → Text
  | last _ text => text
  | link _ before after next => before ++ (emptyTag next.name ++ after)

/-- The partials with their bodies. -/
def partials : Chain → List (Text × Text)
  | last name text => [(name, text)]
  | chain@(link name _ _ next) => (name, chain.body) :: next.partials

/-- The names of the partials. -/
def names : Chain → List Text
  | last name _ => [name]
  | link name _ _ next => name :: next.names

/-- What stands before the invocations, and the text of the last partial. -/
def lefts : Chain → List Text
  | last _ text => [text]
  | link _ before _ next => before :: next.lefts

/-- What stands behind the invocations. -/
def rights : Chain → List Text
  | last _ _ => []
  | link _ _ after next => after :: next.rights

/-- All of the texts, each in the place of the invocation around it. -/
def expansion : Chain → Text
  | last _ text => text
  | link _ before after next => before ++ next.expansion ++ after

variable {chain : Chain}

/-- The texts come out from the outside in, and out again. -/
theorem expansion_eq (chain : Chain) :
    chain.expansion = chain.lefts.flatten ++ chain.rights.reverse.flatten := by
  induction chain with
  | last name text => simp [expansion, lefts, rights]
  | link name before after next ih => simp [expansion, lefts, rights, ih]

theorem name_mem_names (chain : Chain) : chain.name ∈ chain.names := by
  cases chain <;> simp [name, names]

theorem mem_partials (chain : Chain) : (chain.name, chain.body) ∈ chain.partials := by
  cases chain <;> simp [name, body, partials]

/-- All of the texts of the chain mean themselves. -/
structure AllLiteral (chain : Chain) : Prop where
  lefts : ∀ t ∈ chain.lefts, Literal t
  rights : ∀ t ∈ chain.rights, Literal t

theorem allLiteral_link {name before after : Text} {next : Chain} :
    (link name before after next).AllLiteral ↔
      Literal before ∧ Literal after ∧ next.AllLiteral := by
  constructor
  · intro h
    obtain ⟨hbefore, hlefts⟩ := List.forall_mem_cons.1 h.lefts
    obtain ⟨hafter, hrights⟩ := List.forall_mem_cons.1 h.rights
    exact ⟨hbefore, hafter, hlefts, hrights⟩
  · rintro ⟨hbefore, hafter, h⟩
    exact ⟨List.forall_mem_cons.2 ⟨hbefore, h.lefts⟩, List.forall_mem_cons.2 ⟨hafter, h.rights⟩⟩

theorem AllLiteral.expansion (h : chain.AllLiteral) : Literal chain.expansion := by
  induction chain with
  | last name text => exact h.lefts text List.mem_cons_self
  | link name before after next ih =>
      obtain ⟨hbefore, hafter, hnext⟩ := allLiteral_link.1 h
      exact (hbefore.append (ih hnext)).append hafter

/-! ## What a tag gives -/

/-- What the tag of the outermost partial gives inside some partials, with room for so many
more. -/
def outcome (entered : List Text) : (room : Nat) → Chain → Except RenderError Text
  | 0, chain => .error (.cyclic (entered ++ [chain.name]))
  | _ + 1, last _ text => .ok text
  | room + 1, link name before after next =>
      (fun inside => before ++ inside ++ after) <$> next.outcome (entered ++ [name]) room

/-- With room for the chain, the tag gives all of it. -/
theorem outcome_of_le {room : Nat} (h : chain.names.length ≤ room) (entered : List Text) :
    chain.outcome entered room = .ok chain.expansion := by
  induction chain generalizing room entered with
  | last name text =>
      obtain ⟨room, rfl⟩ := Nat.exists_eq_add_of_le' h
      rfl
  | link name before after next ih =>
      obtain ⟨room, rfl⟩ := Nat.exists_eq_add_of_le' (Nat.le_of_add_left_le h)
      rw [outcome, ih (Nat.le_of_succ_le_succ h)]
      rfl

/-- With less it is a cycle, and the last of its names is that of the partial that was one
too many. -/
theorem outcome_of_lt {room : Nat} (h : room < chain.names.length) (entered : List Text) :
    chain.outcome entered room = .error (.cyclic (entered ++ chain.names.take (room + 1))) := by
  induction chain generalizing room entered with
  | last name text =>
      obtain rfl : room = 0 := Nat.lt_one_iff.1 h
      rfl
  | link name before after next ih =>
      cases room with
      | zero => rfl
      | succ room =>
          rw [outcome, ih (Nat.lt_of_succ_lt_succ h), Except.map_error, names, List.take_succ_cons,
            List.append_assoc]
          rfl

theorem literal_of_outcome (h : chain.AllLiteral) {entered : List Text} {room : Nat}
    {markup : Text} (hmarkup : chain.outcome entered room = .ok markup) : Literal markup := by
  rcases Nat.lt_or_ge room chain.names.length with hlt | hge
  · rw [outcome_of_lt hlt] at hmarkup
    exact absurd hmarkup (by simp)
  · rw [outcome_of_le hge] at hmarkup
    exact Except.ok.inj hmarkup ▸ h.expansion

end Chain

/-! ## Rendering a chain -/

variable {setting : Setting}

/-- The body of a partial that has not been entered is rendered if there is room, and is a
cycle if not. -/
theorem invoke_of_fresh {scope : Scope} {name : Text}
    (hfresh : name ∉ scope.stack.map Entry.name) (inner : Inner) (body fragment : Text) :
    invoke inner scope name body fragment = inner (scope.enter name fragment) body := by
  unfold invoke
  dsimp only
  rw [if_neg fun h => hfresh (List.mem_map.2 ⟨_, List.contains_iff_mem.1 h, rfl⟩)]

theorem map_name_enter (scope : Scope) (name fragment : Text) :
    (scope.enter name fragment).stack.map Entry.name = scope.stack.map Entry.name ++ [name] := by
  simp [Scope.enter]

theorem cycle_enter (scope : Scope) (name fragment : Text) :
    (scope.enter name fragment).cycle = .cyclic (scope.stack.map Entry.name ++ [name]) := by
  rw [Scope.cycle, map_name_enter]

/-- A tag between texts that mean themselves gives way to what its partial gives, if that
means itself too. -/
theorem renderText_tag (hvalid : setting.registry.Valid)
    (hdepth : 1 ≤ setting.config.maxPartialDepth) {room : Nat} {scope : Scope}
    {name body before after : Text} (hmem : (name, body) ∈ setting.registry)
    (hfresh : name ∉ scope.stack.map Entry.name) (hbefore : Literal before)
    (hafter : Literal after)
    (hmarkup : ∀ markup, innerRender setting room (scope.enter name (emptyTag name)) body =
      .ok markup → Literal markup) :
    renderText setting room scope (before ++ (emptyTag name ++ after)) =
      (fun markup => before ++ markup ++ after) <$>
        innerRender setting room (scope.enter name (emptyTag name)) body := by
  obtain ⟨rounds, hrounds⟩ := Nat.exists_eq_add_of_le' hdepth
  have hget := Bindings.get?_of_mem hvalid.distinct hmem
  have hname := hvalid.named name (Bindings.mem_names hmem)
  have hfree : Free '{' false (before ++ (emptyTag name ++ after)) := by
    rw [free_append, hbefore.closed, free_append, emptyTag, pending_openingTag]
    exact ⟨hbefore.free_brace, free_openingTag hname rfl (by decide) (by decide)
      (free_of_not_mem (by decide) false) rfl, hafter.free_brace⟩
  have hinvoke := invoke_of_fresh hfresh (innerRender setting room) body (emptyTag name)
  rw [renderText_eq, renderPasses_single hvalid hrounds hget
    (expressionPass_of_free setting scope hfree)
    (single_emptyTag hvalid (Bindings.mem_names hmem) hbefore.free_tag hbefore.closed
      hafter.free_tag), hinvoke]
  intro markup hgives
  rw [hinvoke] at hgives
  exact ((hbefore.append (hmarkup markup hgives)).append hafter).settled hvalid

/-- **The tag of a chain gives what is read off the chain**, wherever it stands: by
induction on the chain, where none of its partials has been entered before. -/
theorem innerRender_chain (hvalid : setting.registry.Valid)
    (hdepth : 1 ≤ setting.config.maxPartialDepth) {chain : Chain}
    (hregistered : chain.partials ⊆ setting.registry) (hnodup : chain.names.Nodup)
    (hliteral : chain.AllLiteral) {room : Nat} {scope : Scope}
    (hfresh : ∀ name ∈ chain.names, name ∉ scope.stack.map Entry.name) :
    innerRender setting room (scope.enter chain.name (emptyTag chain.name)) chain.body =
      chain.outcome (scope.stack.map Entry.name) room := by
  induction chain generalizing room scope with
  | last name text =>
      cases room with
      | zero => exact congrArg _ (cycle_enter scope name _)
      | succ room =>
          have htext := hliteral.lefts text List.mem_cons_self
          exact renderText_of_settled setting room
            (expressionPass_of_free setting _ htext.free_brace) (htext.settled hvalid)
  | link name before after next ih =>
      cases room with
      | zero => exact congrArg _ (cycle_enter scope name _)
      | succ room =>
          obtain ⟨hbefore, hafter, hnext⟩ := Chain.allLiteral_link.1 hliteral
          obtain ⟨hname, hnodup⟩ := List.nodup_cons.1 hnodup
          have hregistered : next.partials ⊆ setting.registry :=
            fun _ hp => hregistered (List.mem_cons_of_mem _ hp)
          -- the partials after this one are none of those entered before, and not this one
          have hlater : ∀ other ∈ next.names,
              other ∉ (scope.enter name (emptyTag name)).stack.map Entry.name := by
            intro other hother
            rw [map_name_enter, List.mem_append, List.mem_singleton, not_or]
            exact ⟨hfresh other (List.mem_cons_of_mem _ hother), fun heq => hname (heq ▸ hother)⟩
          have hinner : innerRender setting room
              ((scope.enter name (emptyTag name)).enter next.name (emptyTag next.name)) next.body =
                next.outcome (scope.stack.map Entry.name ++ [name]) room := by
            rw [← map_name_enter scope name (emptyTag name)]
            exact ih hregistered hnodup hnext hlater
          have htag := renderText_tag hvalid hdepth (hregistered next.mem_partials)
            (hlater _ next.name_mem_names) hbefore hafter fun markup hmarkup =>
              Chain.literal_of_outcome hnext (hinner.symm.trans hmarkup)
          rw [hinner] at htag
          exact htag

/-- **A chain of partials expands if it is no longer than partials can nest.** If it is longer,
it is a cycle, of the partials that can nest and the next one. -/
theorem render_chain {registry : Registry} (hvalid : registry.Valid) {chain : Chain}
    (hregistered : chain.partials ⊆ registry) (hnodup : chain.names.Nodup)
    (hliteral : chain.AllLiteral) {config : Config} (hdepth : 1 ≤ config.maxPartialDepth)
    (c : Context) :
    (chain.names.length ≤ config.maxPartialDepth →
      render (emptyTag chain.name) c registry config =
        .ok (chain.lefts.flatten ++ chain.rights.reverse.flatten)) ∧
    (config.maxPartialDepth < chain.names.length →
      render (emptyTag chain.name) c registry config =
        .error (.cyclic (chain.names.take (config.maxPartialDepth + 1)))) := by
  have hinner : innerRender ⟨registry, config⟩ config.maxPartialDepth
      ((Scope.root c).enter chain.name (emptyTag chain.name)) chain.body =
        chain.outcome [] config.maxPartialDepth :=
    innerRender_chain hvalid hdepth hregistered hnodup hliteral (by simp [Scope.root])
  have hfresh : chain.name ∉ (Scope.root c).stack.map Entry.name := by simp [Scope.root]
  have htag : renderText ⟨registry, config⟩ config.maxPartialDepth (Scope.root c)
      ([] ++ (emptyTag chain.name ++ [])) = _ :=
    renderText_tag hvalid hdepth (hregistered chain.mem_partials) hfresh .nil .nil
      fun markup hmarkup => Chain.literal_of_outcome hliteral (hinner.symm.trans hmarkup)
  rw [hinner, List.append_nil, List.nil_append] at htag
  rw [render, htag]
  constructor
  · intro hle
    have hexpansion := hliteral.expansion
    rw [chain.expansion_eq] at hexpansion
    rw [Chain.outcome_of_le hle, chain.expansion_eq]
    simp [hexpansion.unescape_eq]
  · intro hlt
    rw [Chain.outcome_of_lt hlt]
    rfl

/-- Two partials, where the inner one has been registered first: they expand if two can
nest, and do not if only one can. -/
theorem render_chain_two :
    Registry.Valid [("b".toList, "x".toList), ("a".toList, "(<_b/>)".toList)] ∧
    (Chain.link "a".toList ['('] [')'] (.last "b".toList ['x'])).AllLiteral ∧
    render "<_a/>".toList [] [("b".toList, "x".toList), ("a".toList, "(<_b/>)".toList)]
      { maxPartialDepth := 2 } = .ok "(x)".toList ∧
    render "<_a/>".toList [] [("b".toList, "x".toList), ("a".toList, "(<_b/>)".toList)]
      { maxPartialDepth := 1 } = .error (.cyclic ["a".toList, "b".toList]) := by
  have hvalid : Registry.Valid [("b".toList, "x".toList), ("a".toList, "(<_b/>)".toList)] := by
    decide
  have hregistered : (Chain.link "a".toList ['('] [')'] (.last "b".toList ['x'])).partials ⊆
      [("b".toList, "x".toList), ("a".toList, "(<_b/>)".toList)] := by decide
  have hliteral : (Chain.link "a".toList ['('] [')'] (.last "b".toList ['x'])).AllLiteral :=
    ⟨by decide, by decide⟩
  refine ⟨hvalid, hliteral, ?_, ?_⟩
  · exact (render_chain hvalid hregistered (by decide) hliteral (by decide) []).1 (by decide)
  · exact (render_chain hvalid hregistered (by decide) hliteral (by decide) []).2 (by decide)

end Stencil.Render
