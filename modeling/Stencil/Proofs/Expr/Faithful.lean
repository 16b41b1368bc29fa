import Stencil.Expr.Tree
import Stencil.Proofs.Text.Range

/-!
# Trees that say where they were read

A tree is faithful to a source if every node of it says where it was read: the source holds
a text at the range of the node, that of a name is the name, and the children of the node
stand in its range, one behind the other. Where the source is itself a text in another one,
the tree is faithful to that as well (`Tree.Faithful.within`).
-/

namespace Stencil.Expr

/-- The expression that is a part of a template. -/
def Part.code? : Part → Option Tree
  | .text _ => none
  | .code e => some e

/-- The nodes right below a node, in the order of the source. -/
def Tree.children : Tree → List Tree
  | .template _ parts => parts.filterMap Part.code?
  | .array _ items => items
  | .object _ properties => properties.map Prod.snd
  | .member _ e _ _ => [e]
  | .index _ e key _ => [e, key]
  | .call _ callee args => callee :: args
  | .arrow _ _ body => [body]
  | .unary _ _ operand => [operand]
  | .binary _ _ lhs rhs => [lhs, rhs]
  | .conditional _ test consequent alternate => [test, consequent, alternate]
  | _ => []

/-- The node is the tree, or one of the nodes below it. -/
inductive Tree.Within : (node e : Tree) → Prop where
  | root (e : Tree) : Within e e
  | deeper {node child e : Tree} (child_mem : child ∈ e.children) (h : Within node child) :
      Within node e

/-- One range stops before the other starts. -/
def Tree.Before (a b : Tree) : Prop :=
  a.span.stop ≤ b.span.start

/-- The node says where it was read. -/
structure Tree.Placed (source : Text) (base : Nat) (node : Tree) : Prop where
  /-- There is something at its range. -/
  text : ∃ t, t ≠ [] ∧ Text.Holds source base node.span t
  /-- If it is a name, the name is what is there. -/
  named : ∀ span t, node = .name span t → Text.Holds source base span t
  /-- Its children are in its range. -/
  inside : ∀ child ∈ node.children,
    node.span.start ≤ child.span.start ∧ child.span.stop ≤ node.span.stop
  /-- Its children do not overlap, and are in the order of the source. -/
  ordered : node.children.Pairwise Tree.Before

/-- Every node of the tree says where it was read. -/
def Tree.Faithful (source : Text) (base : Nat) (e : Tree) : Prop :=
  ∀ node : Tree, node.Within e → node.Placed source base

namespace Tree

variable {source t : Text} {base : Nat} {span : Span} {e node : Tree}

theorem Faithful.placed (h : Faithful source base e) : e.Placed source base :=
  h e (.root e)

theorem Faithful.lt (h : Faithful source base e) : e.span.start < e.span.stop := by
  obtain ⟨t, hne, ht⟩ := h.placed.text
  exact ht.lt hne

/-- A tree is faithful if its root says where it was read, and the trees below are faithful. -/
theorem Placed.faithful (h : e.Placed source base)
    (hchildren : ∀ child ∈ e.children, Faithful source base child) : Faithful source base e := by
  intro node hnode
  cases hnode with
  | root => exact h
  | deeper hchild hnode => exact hchildren _ hchild node hnode

/-- A tree that is faithful to a text in a source is faithful to the source. -/
theorem Faithful.within (h : Faithful t span.start e) (ht : Text.Holds source base span t) :
    Faithful source base e := by
  intro node hnode
  have hplaced := h node hnode
  obtain ⟨u, hne, hu⟩ := hplaced.text
  exact ⟨⟨u, hne, ht.within hu⟩, fun span' v hname => ht.within (hplaced.named span' v hname),
    hplaced.inside, hplaced.ordered⟩

end Tree

/-! ## Rows of trees -/

/-- Trees that stand in a range of a source, one behind the other. -/
structure Row (source : Text) (base : Nat) (span : Span) (es : List Tree) : Prop where
  /-- There is something at the range. -/
  text : ∃ t, t ≠ [] ∧ Text.Holds source base span t
  faithful : ∀ e ∈ es, e.Faithful source base
  inside : ∀ e ∈ es, span.start ≤ e.span.start ∧ e.span.stop ≤ span.stop
  ordered : es.Pairwise Tree.Before

namespace Row

variable {source : Text} {base start stop start' stop' : Nat} {span inner : Span}
  {es fs : List Tree} {e : Tree}

theorem lt (h : Row source base span es) : span.start < span.stop := by
  obtain ⟨t, hne, ht⟩ := h.text
  exact ht.lt hne

theorem boundary_start (h : Row source base span es) :
    Text.Boundary source base span.start := by
  obtain ⟨t, -, ht⟩ := h.text
  exact ht.boundary_start

theorem boundary_stop (h : Row source base span es) : Text.Boundary source base span.stop := by
  obtain ⟨t, -, ht⟩ := h.text
  exact ht.boundary_stop

/-- Two rows, one behind the other, are one. -/
theorem append (h : Row source base ⟨start, stop⟩ es) (h' : Row source base ⟨start', stop'⟩ fs)
    (hle : stop ≤ start') : Row source base ⟨start, stop'⟩ (es ++ fs) := by
  have hfirst := h.lt
  have hsecond := h'.lt
  dsimp only at hfirst hsecond
  refine ⟨h.boundary_start.holds h'.boundary_stop (by dsimp only; omega),
    List.forall_mem_append.2 ⟨h.faithful, h'.faithful⟩,
    List.forall_mem_append.2 ⟨fun e he => ?_, fun e he => ?_⟩,
    List.pairwise_append.2 ⟨h.ordered, h'.ordered, fun e he f hf => ?_⟩⟩
  · obtain ⟨hstart, hstop⟩ := h.inside e he
    exact ⟨hstart, by dsimp only at hstop ⊢; omega⟩
  · obtain ⟨hstart, hstop⟩ := h'.inside e he
    exact ⟨by dsimp only at hstart ⊢; omega, hstop⟩
  · exact Nat.le_trans (h.inside e he).2 (Nat.le_trans hle (h'.inside f hf).1)

/-- A row starts where its first tree does. -/
theorem fromHead (h : Row source base ⟨start, stop⟩ (e :: es)) :
    Row source base ⟨e.span.start, stop⟩ (e :: es) := by
  obtain ⟨he, hes⟩ := List.forall_mem_cons.1 h.inside
  have hfaithful := h.faithful e List.mem_cons_self
  obtain ⟨t, -, ht⟩ := hfaithful.placed.text
  refine ⟨ht.boundary_start.holds h.boundary_stop (Nat.lt_of_lt_of_le hfaithful.lt he.2),
    h.faithful, List.forall_mem_cons.2 ⟨⟨Nat.le_refl _, he.2⟩, fun f hf => ⟨?_, (hes f hf).2⟩⟩,
    h.ordered⟩
  have hbefore := (List.pairwise_cons.1 h.ordered).1 f hf
  exact Nat.le_trans (Nat.le_of_lt hfaithful.lt) hbefore

/-- A row stops where its last tree does. -/
theorem toLast (es : List Tree) (h : Row source base ⟨start, stop⟩ (es ++ [e])) :
    Row source base ⟨start, e.span.stop⟩ (es ++ [e]) := by
  have hlast : e ∈ es ++ [e] := List.mem_append_right es List.mem_cons_self
  have he := h.inside e hlast
  have hfaithful := h.faithful e hlast
  obtain ⟨t, -, ht⟩ := hfaithful.placed.text
  refine ⟨h.boundary_start.holds ht.boundary_stop (Nat.lt_of_le_of_lt he.1 hfaithful.lt),
    h.faithful, fun f hf => ⟨(h.inside f hf).1, ?_⟩, h.ordered⟩
  rcases List.mem_append.1 hf with hf | hf
  · have hbefore := (List.pairwise_append.1 h.ordered).2.2 f hf e List.mem_cons_self
    exact Nat.le_trans hbefore (Nat.le_of_lt hfaithful.lt)
  · obtain rfl := List.mem_singleton.1 hf
    exact Nat.le_refl _

/-- A node around a row is faithful. -/
theorem node (h : Row source base e.span es) (hchildren : e.children = es)
    (hnamed : ∀ span t, e = .name span t → Text.Holds source base span t) :
    e.Faithful source base := by
  have hplaced : e.Placed source base := by
    refine ⟨h.text, hnamed, ?_, ?_⟩
    · rw [hchildren]
      exact h.inside
    · rw [hchildren]
      exact h.ordered
  refine hplaced.faithful ?_
  rw [hchildren]
  exact h.faithful

/-- One tree is a row in any range around it. -/
theorem single (h : Row source base span es) (he : e.Faithful source base)
    (hstart : span.start ≤ e.span.start) (hstop : e.span.stop ≤ span.stop) :
    Row source base span [e] :=
  ⟨h.text, by simpa using he, by simpa using ⟨hstart, hstop⟩, List.pairwise_singleton _ _⟩

end Row

end Stencil.Expr
