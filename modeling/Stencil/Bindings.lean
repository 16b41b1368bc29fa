import Stencil.Text.Basic

/-!
# Ordered bindings

A mapping from names to values that keeps the order in which names were first
added. Binding a name again replaces its value and keeps its place; removing a
name keeps the order of the rest. The order of a mapping is visible wherever it
is listed, and only there: `get?_insert` is all a look-up can tell.
-/

namespace Stencil

/-- Names with their values, in the order in which the names were added. -/
abbrev Bindings (α : Type) := List (Text × α)

namespace Bindings

variable {α : Type}

/-- The value of the first binding of a name. -/
def get? : Bindings α → Text → Option α
  | [], _ => none
  | (k, v) :: bs, name => if k = name then some v else get? bs name

def contains (bs : Bindings α) (name : Text) : Bool :=
  (bs.get? name).isSome

/-- Binds a name. A name that is bound already keeps its place. -/
def insert : Bindings α → Text → α → Bindings α
  | [], name, value => [(name, value)]
  | (k, v) :: bs, name, value =>
      if k = name then (k, value) :: bs else (k, v) :: insert bs name value

/-- Binds all names of a list, from left to right. -/
def overlay (bs inner : Bindings α) : Bindings α :=
  inner.foldl (fun bs b => bs.insert b.1 b.2) bs

def erase (bs : Bindings α) (name : Text) : Bindings α :=
  bs.filter fun b => b.1 ≠ name

/-- The bindings of a list of pairs, where the last value of a name counts and
its first place. -/
def ofList (pairs : List (Text × α)) : Bindings α :=
  overlay [] pairs

def names (bs : Bindings α) : List Text :=
  bs.map Prod.fst

/-! ## A look-up sees the last value bound -/

@[simp] theorem get?_nil (name : Text) : get? ([] : Bindings α) name = none := rfl

theorem get?_insert (bs : Bindings α) (k name : Text) (v : α) :
    (bs.insert k v).get? name = if k = name then some v else bs.get? name := by
  induction bs with
  | nil => simp [insert, get?]
  | cons b bs ih =>
      obtain ⟨k', v'⟩ := b
      by_cases h : k' = k
      · subst h
        by_cases h' : k' = name <;> simp [insert, get?, h']
      · by_cases h' : k' = name
        · subst h'
          simp [insert, get?, h, Ne.symm h]
        · simp [insert, get?, h, h', ih]

/-- A new name goes to the end; a bound one changes no place. -/
theorem names_insert (bs : Bindings α) (k : Text) (v : α) :
    names (bs.insert k v) = if k ∈ names bs then names bs else names bs ++ [k] := by
  induction bs with
  | nil => simp [insert, names]
  | cons b bs ih =>
      obtain ⟨k', v'⟩ := b
      by_cases h : k' = k
      · subst h
        simp [insert, names]
      · have h' : ¬ k = k' := fun e => h e.symm
        simp only [names] at ih
        simp only [insert, h, if_false, names, List.map_cons, List.mem_cons, h', false_or, ih]
        by_cases hm : k ∈ List.map Prod.fst bs <;> simp [hm]

end Bindings

end Stencil
