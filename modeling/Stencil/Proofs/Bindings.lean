import Stencil.Bindings
import Mathlib.Data.List.Nodup
import Mathlib.Data.List.Perm.Basic

/-!
# Bindings of distinct names

A mapping binds each of its names once. `Distinct` says so of a list of bindings;
every mapping that is built by `insert` from nothing has it, and `overlay` keeps
it. Of distinct bindings, laid over others, every value can be looked up
(`get?_overlay`), and look-ups tell them up to their order (`perm_iff`).
-/

namespace Stencil.Bindings

variable {α : Type}

/-- Each name is bound once. -/
def Distinct (bs : Bindings α) : Prop :=
  bs.names.Nodup

instance (bs : Bindings α) : Decidable bs.Distinct :=
  inferInstanceAs (Decidable bs.names.Nodup)

@[simp] theorem names_nil : names ([] : Bindings α) = [] := rfl

@[simp] theorem names_cons (b : Text × α) (bs : Bindings α) :
    names (b :: bs) = b.1 :: names bs := rfl

theorem distinct_nil : Distinct ([] : Bindings α) := List.nodup_nil

theorem distinct_cons {b : Text × α} {bs : Bindings α} :
    Distinct (b :: bs) ↔ b.1 ∉ names bs ∧ Distinct bs := List.nodup_cons

/-! ## Look-ups -/

theorem get?_cons (k name : Text) (v : α) (bs : Bindings α) :
    get? ((k, v) :: bs) name = if k = name then some v else get? bs name := rfl

/-- The first of two lists that binds a name counts. -/
theorem get?_append (bs cs : Bindings α) (name : Text) :
    get? (bs ++ cs) name = (bs.get? name).or (cs.get? name) := by
  induction bs with
  | nil => rfl
  | cons b bs ih =>
      obtain ⟨k, v⟩ := b
      rw [List.cons_append, get?_cons, get?_cons]
      split
      · rfl
      · exact ih

theorem get?_eq_none_iff {bs : Bindings α} {name : Text} :
    bs.get? name = none ↔ name ∉ bs.names := by
  induction bs with
  | nil => simp
  | cons b bs ih =>
      obtain ⟨k, v⟩ := b
      rw [get?_cons, names_cons, List.mem_cons, not_or]
      by_cases h : k = name
      · simp [h]
      · simp [h, Ne.symm h, ih]

theorem mem_of_get? {bs : Bindings α} {name : Text} {v : α} (h : bs.get? name = some v) :
    (name, v) ∈ bs := by
  induction bs with
  | nil => exact absurd h (by simp)
  | cons b bs ih =>
      obtain ⟨k, w⟩ := b
      rw [get?_cons] at h
      by_cases hk : k = name
      · rw [if_pos hk] at h
        obtain rfl := Option.some.inj h
        simp [hk]
      · rw [if_neg hk] at h
        exact List.mem_cons_of_mem _ (ih h)

theorem mem_names {bs : Bindings α} {b : Text × α} (h : b ∈ bs) : b.1 ∈ bs.names :=
  List.mem_map.2 ⟨b, h, rfl⟩

theorem mem_names_of_get? {bs : Bindings α} {name : Text} {v : α} (h : bs.get? name = some v) :
    name ∈ bs.names :=
  mem_names (mem_of_get? h)

/-- Of distinct bindings each can be looked up. -/
theorem get?_of_mem {bs : Bindings α} (h : bs.Distinct) {name : Text} {v : α}
    (hmem : (name, v) ∈ bs) : bs.get? name = some v := by
  induction bs with
  | nil => exact absurd hmem (by simp)
  | cons b bs ih =>
      obtain ⟨k, w⟩ := b
      obtain ⟨hk, hbs⟩ := distinct_cons.1 h
      rw [get?_cons]
      rcases List.mem_cons.1 hmem with heq | hmem
      · obtain ⟨rfl, rfl⟩ := Prod.mk.inj heq
        rw [if_pos rfl]
      · have hne : k ≠ name := by
          rintro rfl
          exact hk (List.mem_map.2 ⟨(k, v), hmem, rfl⟩)
        rw [if_neg hne, ih hbs hmem]

/-! ## Building -/

theorem distinct_insert {bs : Bindings α} (h : bs.Distinct) (k : Text) (v : α) :
    (bs.insert k v).Distinct := by
  rw [Distinct, names_insert]
  split
  · exact h
  · next hk => exact List.nodup_append.2 ⟨h, List.nodup_singleton k, by
      rintro a ha b hb rfl
      exact hk (List.mem_singleton.1 hb ▸ ha)⟩

theorem distinct_overlay {bs : Bindings α} (h : bs.Distinct) (inner : Bindings α) :
    (bs.overlay inner).Distinct := by
  induction inner generalizing bs with
  | nil => exact h
  | cons b inner ih => exact ih (distinct_insert h b.1 b.2)

theorem distinct_ofList (pairs : List (Text × α)) : (ofList pairs).Distinct :=
  distinct_overlay distinct_nil pairs

theorem overlay_cons (bs : Bindings α) (b : Text × α) (inner : Bindings α) :
    bs.overlay (b :: inner) = (bs.insert b.1 b.2).overlay inner := rfl

/-- **The inner bindings win**, and the others stay. -/
theorem get?_overlay {inner : Bindings α} (h : inner.Distinct) (bs : Bindings α) (name : Text) :
    (bs.overlay inner).get? name = (inner.get? name).or (bs.get? name) := by
  induction inner generalizing bs with
  | nil => rfl
  | cons b inner ih =>
      obtain ⟨k, v⟩ := b
      obtain ⟨hk, hinner⟩ := distinct_cons.1 h
      rw [overlay_cons, ih hinner, get?_insert, get?_cons]
      by_cases hname : k = name
      · subst hname
        rw [get?_eq_none_iff.2 hk, if_pos rfl, if_pos rfl]
        rfl
      · rw [if_neg hname, if_neg hname]

/-! ## Taking names away -/

theorem names_erase (bs : Bindings α) (k : Text) :
    names (bs.erase k) = bs.names.filter fun name => name ≠ k := by
  induction bs with
  | nil => rfl
  | cons b bs ih =>
      simp only [erase, names_cons, List.filter_cons] at ih ⊢
      split
      · rw [names_cons, ih]
      · exact ih

theorem get?_erase (bs : Bindings α) (k name : Text) :
    (bs.erase k).get? name = if name = k then none else bs.get? name := by
  split
  · next heq =>
      rw [get?_eq_none_iff, names_erase, heq]
      simp
  · next hne =>
      induction bs with
      | nil => rfl
      | cons b bs ih =>
          obtain ⟨k', v⟩ := b
          rw [erase, List.filter_cons]
          by_cases h : k' = k
          · have hname : k' ≠ name := fun heq => hne (heq.symm.trans h)
            rw [if_neg (by simp [h]), get?_cons, if_neg hname]
            exact ih
          · rw [if_pos (by simp [h]), get?_cons, get?_cons]
            split
            · rfl
            · exact ih

/-! ## Several overlays -/

/-- New names come after the old ones, in the order in which they come up first. -/
theorem names_overlay (bs inner : Bindings α) :
    names (bs.overlay inner) = bs.names ++ (inner.names.removeAll bs.names).eraseDups := by
  induction inner generalizing bs with
  | nil => simp [overlay, List.removeAll]
  | cons b inner ih =>
      rw [overlay_cons, ih, names_insert, names_cons]
      by_cases h : b.1 ∈ names bs
      · simp [h, List.removeAll]
      · have hdrop : (names inner).removeAll (names bs ++ [b.1]) =
            ((names inner).removeAll (names bs)).filter fun k => !k == b.1 := by
          simp only [List.removeAll, List.filter_filter]
          refine List.filter_congr fun k _ => ?_
          simp [Bool.and_comm, beq_eq_decide]
        have hkeep : (b.1 :: names inner).removeAll (names bs) =
            b.1 :: (names inner).removeAll (names bs) := by
          simp [List.removeAll, h]
        rw [if_neg h, hdrop, hkeep, List.eraseDups_cons, List.append_assoc, List.singleton_append]

/-- **The last binding of a name decides.** -/
theorem get?_overlay_reverse (bs inner : Bindings α) (name : Text) :
    (bs.overlay inner).get? name = (get? inner.reverse name).or (bs.get? name) := by
  induction inner generalizing bs with
  | nil => rfl
  | cons b inner ih =>
      obtain ⟨k, v⟩ := b
      rw [overlay_cons, ih, get?_insert, List.reverse_cons, get?_append, Option.or_assoc, get?_cons]
      split <;> rfl

theorem get?_ofList (pairs : List (Text × α)) (name : Text) :
    (ofList pairs).get? name = get? pairs.reverse name := by
  rw [ofList, get?_overlay_reverse, get?_nil, Option.or_none]

/-- A name has the place where it comes up first. -/
theorem names_ofList (pairs : List (Text × α)) :
    (ofList pairs).names = (pairs.map Prod.fst).eraseDups := by
  rw [ofList, names_overlay]
  simp [List.removeAll, names]

/-- A list of things that are bound by their names. -/
theorem get?_map_eq_find? {β : Type} (key : β → Text) (value : β → α) (xs : List β) (name : Text) :
    get? (xs.map fun x => (key x, value x)) name = (xs.find? fun x => key x = name).map value := by
  induction xs with
  | nil => rfl
  | cons x xs ih =>
      rw [List.map_cons, get?_cons, List.find?_cons]
      by_cases h : key x = name
      · simp [h]
      · simp [h, ih]

/-- Overlays one after another are one overlay. -/
theorem overlays_eq_overlay_flatten (bs : Bindings α) (overlays : List (Bindings α)) :
    overlays.foldl overlay bs = bs.overlay overlays.flatten :=
  List.foldl_flatten.symm

/-- **The last overlay that binds a name decides.** -/
theorem get?_overlays {overlays : List (Bindings α)} (h : ∀ o ∈ overlays, Distinct o)
    (bs : Bindings α) (name : Text) :
    (overlays.foldl overlay bs).get? name =
      (overlays.reverse.findSome? fun o => o.get? name).or (bs.get? name) := by
  induction overlays generalizing bs with
  | nil => rfl
  | cons o overlays ih =>
      rw [List.forall_mem_cons] at h
      rw [List.foldl_cons, ih h.2, get?_overlay h.1, List.reverse_cons, List.findSome?_append,
        Option.or_assoc]
      simp

/-! ## The order -/

theorem Distinct.nodup {bs : Bindings α} (h : bs.Distinct) : bs.Nodup :=
  List.Nodup.of_map Prod.fst h

theorem Distinct.perm {bs cs : Bindings α} (h : bs.Distinct) (hperm : bs.Perm cs) :
    cs.Distinct :=
  (hperm.map Prod.fst).nodup_iff.1 h

theorem get?_eq_some_iff {bs : Bindings α} (h : bs.Distinct) {name : Text} {v : α} :
    bs.get? name = some v ↔ (name, v) ∈ bs :=
  ⟨mem_of_get?, get?_of_mem h⟩

/-- Look-ups and the order of the names tell distinct bindings. -/
theorem eq_of_names {bs cs : Bindings α} (h : bs.Distinct) (hnames : bs.names = cs.names)
    (hget : ∀ name, bs.get? name = cs.get? name) : bs = cs := by
  induction bs generalizing cs with
  | nil => exact (List.map_eq_nil_iff.1 hnames.symm).symm
  | cons b bs ih =>
      cases cs with
      | nil => cases hnames
      | cons c cs =>
          obtain ⟨k, v⟩ := b
          obtain ⟨k', w⟩ := c
          rw [names_cons, names_cons] at hnames
          obtain ⟨rfl, hrest⟩ := List.cons.inj hnames
          obtain ⟨hk, hbs⟩ := distinct_cons.1 h
          have hvalue := hget k
          rw [get?_cons, get?_cons, if_pos rfl, if_pos rfl] at hvalue
          obtain rfl := Option.some.inj hvalue
          refine congrArg ((k, v) :: ·) (ih hbs hrest ?_)
          intro name
          by_cases hname : k = name
          · subst hname
            rw [get?_eq_none_iff.2 hk, get?_eq_none_iff.2 (hrest ▸ hk)]
          · have hother := hget name
            rwa [get?_cons, get?_cons, if_neg hname, if_neg hname] at hother

/-- **Look-ups tell distinct bindings up to their order.** -/
theorem perm_iff {bs cs : Bindings α} (hbs : bs.Distinct) (hcs : cs.Distinct) :
    bs.Perm cs ↔ ∀ name, bs.get? name = cs.get? name := by
  rw [List.perm_ext_iff_of_nodup hbs.nodup hcs.nodup]
  constructor
  · intro h name
    ext v
    rw [get?_eq_some_iff hbs, get?_eq_some_iff hcs, h]
  · rintro h ⟨name, v⟩
    rw [← get?_eq_some_iff hbs, ← get?_eq_some_iff hcs, h]

end Stencil.Bindings
