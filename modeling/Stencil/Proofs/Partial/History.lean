import Mathlib.Data.List.Dedup
import Mathlib.Data.List.Induction
import Stencil.Proofs.Partial.Registry

/-!
# Histories of a registry

A registry comes about by edits, of which some are refused. What a history of edits comes
to can be told without one: a `Ledger` has the body of every name that is there, and beside
them all names in the order in which they were newly added, once for each time. The places
of the names in a registry are those of their last additions: `Follows` says so, and every
edit keeps it (`Follows.edit`). A ledger is followed by one registry, so that what edits make
is what their ledger says (`follows_ofEdits_iff`).
-/

namespace Stencil.Partial

/-- A change that is asked of a registry. -/
inductive Edit where
  | register (name body : Text)
  | put (name body : Text)
  | remove (name : Text)
deriving Repr, DecidableEq

/-- The registry after a change, with the body that it tells; or why it is refused. -/
def Edit.run (r : Registry) : Edit → Except RegistryError (Registry × Option Text)
  | .register name body => (r.register name body).map fun r => (r, none)
  | .put name body => r.put name body
  | .remove name => .ok (r.remove name)

/-- The registry after a change. A change that is refused leaves it as it is. -/
def Registry.edit (r : Registry) (e : Edit) : Registry :=
  match e.run r with
  | .ok p => p.1
  | .error _ => r

/-- The registry that edits make of an empty one. -/
def Registry.ofEdits (edits : List Edit) : Registry :=
  edits.foldl Registry.edit []

/-! ## Ledgers -/

/-- What a history of edits comes to. -/
structure Ledger where
  /-- The bodies of the names that are there. -/
  bodies : Text → Option Text
  /-- The names in the order in which they were newly added, once for each time. -/
  added : List Text

namespace Ledger

/-- Before any edit. -/
def empty : Ledger :=
  ⟨fun _ => none, []⟩

/-- The name has the body now. It is newly added if it was not there. -/
def add (l : Ledger) (name body : Text) : Ledger where
  bodies := fun other => if other = name then some body else l.bodies other
  added := if l.bodies name = none then l.added ++ [name] else l.added

/-- The ledger after an edit. What is refused: a name that no partial can have, and a name
that is there, if it is to be registered. -/
def edit (l : Ledger) : Edit → Ledger
  | .register name body =>
      if isValidName name = true ∧ l.bodies name = none then l.add name body else l
  | .put name body => if isValidName name = true then l.add name body else l
  | .remove name => { l with bodies := fun other => if other = name then none else l.bodies other }

/-- The ledger after edits. -/
def ofEdits (edits : List Edit) : Ledger :=
  edits.foldl edit empty

/-- The names that are there, each at the place of its last addition. -/
def names (l : Ledger) : List Text :=
  l.added.dedup.filter fun name => (l.bodies name).isSome

end Ledger

/-- The registry has the bodies of the ledger under names that partials can have, in the
order in which these were last newly added. -/
structure Registry.Follows (r : Registry) (l : Ledger) : Prop where
  valid : r.Valid
  bodies : ∀ name, Bindings.get? r name = l.bodies name
  order : Bindings.names r = l.names

/-! ## One edit -/

/-- Of the additions of a name the last one counts. -/
theorem dedup_snoc {α : Type} [DecidableEq α] (xs : List α) (x : α) :
    (xs ++ [x]).dedup = xs.dedup.filter (· ≠ x) ++ [x] := by
  induction xs with
  | nil => rfl
  | cons y xs ih =>
      rw [List.cons_append, List.dedup_cons, List.dedup_cons, ih]
      by_cases hmem : y ∈ xs
      · rw [if_pos (List.mem_append_left _ hmem), if_pos hmem]
      · rw [if_neg hmem]
        by_cases heq : y = x
        · rw [if_pos (by simp [heq]), List.filter_cons_of_neg (by simp [heq])]
        · rw [if_neg (by simp [hmem, heq]), List.filter_cons_of_pos (by simp [heq]),
            List.cons_append]

namespace Registry

variable {r r' : Registry} {l l' : Ledger} {name body : Text}

theorem edit_of_ok {e : Edit} {p : Registry × Option Text} (h : e.run r = .ok p) :
    r.edit e = p.1 := by
  rw [edit, h]

theorem edit_of_error {e : Edit} {error : RegistryError} (h : e.run r = .error error) :
    r.edit e = r := by
  rw [edit, h]

theorem ofEdits_snoc (edits : List Edit) (e : Edit) :
    ofEdits (edits ++ [e]) = (ofEdits edits).edit e := by
  rw [ofEdits, List.foldl_append]
  rfl

theorem follows_empty : Follows [] Ledger.empty :=
  ⟨valid_nil, fun _ => rfl, rfl⟩

namespace Follows

/-- What is no name of the registry has no body in the ledger. -/
theorem bodies_eq_none_iff (h : r.Follows l) :
    l.bodies name = none ↔ name ∉ Bindings.names r := by
  rw [← h.bodies, Bindings.get?_eq_none_iff]

/-- Adding a partial keeps its place if it has one. -/
theorem insert (h : r.Follows l) (hname : isValidName name = true) (body : Text) :
    Follows (Bindings.insert r name body) (l.add name body) where
  valid := valid_insert h.valid hname body
  bodies := by
    intro other
    rw [Bindings.get?_insert, h.bodies, Ledger.add]
    simp only [eq_comm]
  order := by
    rw [Bindings.names_insert, Ledger.names, Ledger.add]
    by_cases hmem : name ∈ Bindings.names r
    · have hbound : ¬ l.bodies name = none := by
        rw [h.bodies_eq_none_iff, not_not]
        exact hmem
      rw [if_pos hmem, if_neg hbound, h.order, Ledger.names]
      refine List.filter_congr ?_
      intro other _
      by_cases heq : other = name
      · simp [heq, Option.isSome_iff_ne_none.2 hbound]
      · simp [heq]
    · have hfree : l.bodies name = none := h.bodies_eq_none_iff.2 hmem
      rw [if_neg hmem, if_pos hfree, h.order, Ledger.names, dedup_snoc, List.filter_append,
        List.filter_filter]
      congr 1
      · refine List.filter_congr ?_
        intro other _
        by_cases heq : other = name
        · simp [heq, hfree]
        · simp [heq]
      · simp

theorem remove (h : r.Follows l) (name : Text) :
    Follows (r.remove name).1 (l.edit (.remove name)) where
  valid := valid_remove h.valid name
  bodies := by
    intro other
    rw [Registry.remove, Bindings.get?_erase, h.bodies]
    rfl
  order := by
    rw [Registry.remove, Bindings.names_erase, h.order, Ledger.names, Ledger.names,
      List.filter_filter]
    refine List.filter_congr ?_
    intro other _
    by_cases heq : other = name
    · simp [heq, Ledger.edit]
    · simp [heq, Ledger.edit]

/-- **Every edit keeps a registry to its ledger**, also one that is refused. -/
theorem edit (h : r.Follows l) (e : Edit) : (r.edit e).Follows (l.edit e) := by
  cases e with
  | register name body =>
      by_cases hname : isValidName name = true
      · by_cases hfree : l.bodies name = none
        · have hcontains : Bindings.contains r name = false := by
            rw [Bindings.contains, h.bodies, hfree]
            rfl
          have hrun :
              (Edit.register name body).run r = .ok (Bindings.insert r name body, none) := by
            rw [Edit.run, register, hname, hcontains]
            rfl
          rw [edit_of_ok hrun, Ledger.edit, if_pos ⟨hname, hfree⟩]
          exact h.insert hname body
        · have hcontains : Bindings.contains r name = true := by
            rw [Bindings.contains, h.bodies]
            exact Option.isSome_iff_ne_none.2 hfree
          have hrun : (Edit.register name body).run r = .error (.duplicate name) := by
            rw [Edit.run, register, hname, hcontains]
            rfl
          rw [edit_of_error hrun, Ledger.edit, if_neg (fun hboth => hfree hboth.2)]
          exact h
      · have hrun : (Edit.register name body).run r = .error (.invalidName name) := by
          rw [Edit.run, register, Bool.eq_false_iff.2 hname]
          rfl
        rw [edit_of_error hrun, Ledger.edit, if_neg (fun hboth => hname hboth.1)]
        exact h
  | put name body =>
      by_cases hname : isValidName name = true
      · have hrun : (Edit.put name body).run r =
            .ok (Bindings.insert r name body, Bindings.get? r name) := by
          rw [Edit.run, put, hname]
          rfl
        rw [edit_of_ok hrun, Ledger.edit, if_pos hname]
        exact h.insert hname body
      · have hrun : (Edit.put name body).run r = .error (.invalidName name) := by
          rw [Edit.run, put, Bool.eq_false_iff.2 hname]
          rfl
        rw [edit_of_error hrun, Ledger.edit, if_neg hname]
        exact h
  | remove name => exact h.remove name

/-- A ledger tells a registry. -/
theorem unique (h : r.Follows l) (h' : r'.Follows l) : r = r' := by
  refine Bindings.eq_of_names h.valid.distinct (h.order.trans h'.order.symm) ?_
  intro name
  rw [h.bodies, h'.bodies]

end Follows

/-- **What edits make of an empty registry is what their ledger says.** -/
theorem follows_ofEdits_iff {edits : List Edit} :
    r.Follows (Ledger.ofEdits edits) ↔ r = ofEdits edits := by
  have hfollows : (ofEdits edits).Follows (Ledger.ofEdits edits) := by
    induction edits using List.reverseRecOn with
    | nil => exact follows_empty
    | append_singleton edits e ih =>
        rw [ofEdits_snoc, Ledger.ofEdits, List.foldl_append]
        exact ih.edit e
  constructor
  · intro h
    exact h.unique hfollows
  · rintro rfl
    exact hfollows

end Registry

end Stencil.Partial
