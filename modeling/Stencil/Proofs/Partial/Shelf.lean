import Stencil.Partial.Shelf
import Stencil.Proofs.Partial.History

/-!
# Histories of a shelf

Whoever has a handle of a shelf can change its registry, take a snapshot of it or make one more
handle. A `Sharing` is the memory with the shelf in it and the addresses that the handles have;
`Sharing.step` is what becomes of it. A `Book` is the same without memory: the ledger of the
registry as it is now, and for each snapshot the ledger as it was when the snapshot was taken.

That versions are shared does not show. A change in place touches no version that a snapshot
reads, and one that makes a copy leaves all versions as they are (`readSnapshots_update`). So
every step keeps a sharing to its book (`Sharing.Follows.step`), and after every history all
handles read the registry of the ledger, and all snapshots what they read at first
(`history_followed`).
-/

namespace Stencil.Partial

/-! ## One shelf -/

namespace Shelf

/-- Lets go of a snapshot. -/
def release (s : Shelf) (i : Nat) : Shelf :=
  { s with snapshots := s.snapshots.eraseIdx i }

/-- Every version that is read is there. -/
structure Sound (s : Shelf) : Prop where
  current : s.current < s.versions.length
  snapshots : ∀ i ∈ s.snapshots, i < s.versions.length

variable {s : Shelf} {i : Nat}

theorem sound_ofRegistry (r : Registry) : (ofRegistry r).Sound :=
  ⟨Nat.one_pos, fun _ hi => absurd hi List.not_mem_nil⟩

/-! A version of its own is added behind the others. -/

theorem version_replace (hi : i < s.versions.length) (r : Registry) :
    (s.replace r).version i = s.version i := by
  rw [version, version, replace, List.getElem?_append_left hi]

theorem Sound.replace (h : s.Sound) (r : Registry) : (s.replace r).Sound where
  current := by simp [Shelf.replace]
  snapshots := by
    intro i hi
    have hlt := h.snapshots i hi
    simp only [Shelf.replace, List.length_append]
    omega

@[simp] theorem read_replace (s : Shelf) (r : Registry) : (s.replace r).read = r := by
  simp [read, version, replace]

theorem readSnapshots_replace (h : s.Sound) (r : Registry) :
    (s.replace r).readSnapshots = s.readSnapshots := by
  refine List.map_congr_left ?_
  intro i hi
  exact version_replace (h.snapshots i hi) r

theorem Sound.update (h : s.Sound) (r : Registry) : (s.update r).Sound := by
  unfold Shelf.update
  split
  · exact h.replace r
  · constructor
    · simpa using h.current
    · simpa using h.snapshots

theorem read_update (h : s.Sound) (r : Registry) : (s.update r).read = r := by
  unfold Shelf.update
  split
  · exact read_replace s r
  · simp [read, version, h.current]

/-- **A change does not show in a snapshot.** -/
theorem readSnapshots_update (h : s.Sound) (r : Registry) :
    (s.update r).readSnapshots = s.readSnapshots := by
  unfold Shelf.update
  split
  · exact readSnapshots_replace h r
  · next hfree =>
      -- the version that is changed in place is none that a snapshot reads
      refine List.map_congr_left ?_
      intro i hi
      have hne : s.current ≠ i := by
        rintro rfl
        exact hfree (List.contains_iff_mem.2 hi)
      rw [version, version, List.getElem?_set_ne hne]

theorem Sound.snapshot (h : s.Sound) : s.snapshot.Sound where
  current := h.current
  snapshots := by
    intro i hi
    rcases List.mem_append.1 hi with hi | hi
    · exact h.snapshots i hi
    · rw [List.mem_singleton.1 hi]
      exact h.current

theorem readSnapshots_snapshot (s : Shelf) :
    s.snapshot.readSnapshots = s.readSnapshots ++ [s.read] := by
  show (s.snapshots ++ [s.current]).map s.version = _
  rw [List.map_append]
  rfl

theorem Sound.release (h : s.Sound) (i : Nat) : (s.release i).Sound where
  current := h.current
  snapshots := fun j hj => h.snapshots j (List.mem_of_mem_eraseIdx hj)

theorem readSnapshots_release (s : Shelf) (i : Nat) :
    (s.release i).readSnapshots = s.readSnapshots.eraseIdx i := by
  show (s.snapshots.eraseIdx i).map s.version = (s.snapshots.map s.version).eraseIdx i
  rw [List.eraseIdx_map]

end Shelf

/-! ## Memory, and the book of what is in it -/

/-- What is done through a handle. -/
inductive Act where
  | edit (handle : Nat) (e : Edit)
  /-- Swaps in the registry that edits make. -/
  | replace (handle : Nat) (edits : List Edit)
  | snapshot (handle : Nat)
  /-- Lets go of one of the snapshots. -/
  | release (handle snapshot : Nat)
  | clone (handle : Nat)

/-- The shelves in memory, and the handles that there are. -/
structure Sharing where
  shelves : List Shelf
  /-- The address of the shelf that each handle shares. -/
  handles : List Nat

namespace Sharing

/-- One handle of a new shelf. -/
def ofEdits (edits : List Edit) : Sharing :=
  ⟨[Shelf.ofRegistry (Registry.ofEdits edits)], [0]⟩

/-- The shelf of a handle. -/
def shelf? (w : Sharing) (handle : Nat) : Option Shelf :=
  w.handles[handle]?.bind fun address => w.shelves[address]?

/-- The registry that a handle reads. -/
def read (w : Sharing) (handle : Nat) : Option Registry :=
  (w.shelf? handle).map Shelf.read

/-- The registries that the snapshots taken of the shelf of a handle read. -/
def readSnapshots (w : Sharing) (handle : Nat) : Option (List Registry) :=
  (w.shelf? handle).map Shelf.readSnapshots

/-- Changes the shelf of a handle. -/
def change (w : Sharing) (handle : Nat) (f : Shelf → Shelf) : Sharing :=
  match w.handles[handle]? with
  | some address => { w with shelves := w.shelves.modify address f }
  | none => w

/-- What becomes of the memory. A clone of a handle has the address that the handle has. An
edit goes through `Shelf.update`, also where it is refused. -/
def step (w : Sharing) : Act → Sharing
  | .edit handle e => w.change handle fun s => s.update (s.read.edit e)
  | .replace handle edits => w.change handle fun s => s.replace (Registry.ofEdits edits)
  | .snapshot handle => w.change handle Shelf.snapshot
  | .release handle i => w.change handle fun s => s.release i
  | .clone handle =>
      match w.handles[handle]? with
      | some address => { w with handles := w.handles ++ [address] }
      | none => w

/-- The memory after a history. -/
def after (start : List Edit) (acts : List Act) : Sharing :=
  acts.foldl step (ofEdits start)

end Sharing

/-- What a history comes to: which edits count. -/
structure Book where
  /-- The edits that the registry is made of. -/
  edits : List Edit
  /-- For each snapshot, the edits that the registry was made of when it was taken. -/
  taken : List (List Edit)
  /-- How many handles there are. -/
  handles : Nat

namespace Book

/-- One handle, and no snapshots. -/
def ofEdits (edits : List Edit) : Book :=
  ⟨edits, [], 1⟩

/-- What is done through a handle, if it is there. -/
def change (b : Book) (handle : Nat) (f : Book → Book) : Book :=
  if handle < b.handles then f b else b

/-- The book after an act. -/
def step (b : Book) : Act → Book
  | .edit handle e => b.change handle fun b => { b with edits := b.edits ++ [e] }
  | .replace handle edits => b.change handle fun b => { b with edits }
  | .snapshot handle => b.change handle fun b => { b with taken := b.taken ++ [b.edits] }
  | .release handle i => b.change handle fun b => { b with taken := b.taken.eraseIdx i }
  | .clone handle => b.change handle fun b => { b with handles := b.handles + 1 }

/-- The book after a history. -/
def after (start : List Edit) (acts : List Act) : Book :=
  acts.foldl step (ofEdits start)

end Book

/-! ## One act -/

/-- The shelf reads what the book says. -/
structure Shelf.Follows (s : Shelf) (b : Book) : Prop where
  sound : s.Sound
  read : s.read = Registry.ofEdits b.edits
  snapshots : s.readSnapshots = b.taken.map Registry.ofEdits

/-- There is one shelf, all handles are of it, and it reads what the book says. -/
structure Sharing.Follows (w : Sharing) (b : Book) : Prop where
  shelf : ∃ s, w.shelves = [s] ∧ s.Follows b
  handles : w.handles = List.replicate b.handles 0

namespace Sharing

variable {w : Sharing} {b : Book}

theorem follows_ofEdits (edits : List Edit) : (ofEdits edits).Follows (Book.ofEdits edits) where
  shelf := ⟨_, rfl, Shelf.sound_ofRegistry _, rfl, rfl⟩
  handles := rfl

namespace Follows

theorem getElem?_handles (h : w.Follows b) (handle : Nat) :
    w.handles[handle]? = if handle < b.handles then some 0 else none := by
  rw [h.handles, List.getElem?_replicate]

/-- All handles are handles of the same shelf, and there are no others. -/
theorem shelf?_eq (h : w.Follows b) :
    ∃ s, s.Follows b ∧ ∀ handle, w.shelf? handle = if handle < b.handles then some s else none := by
  obtain ⟨s, hshelves, hs⟩ := h.shelf
  refine ⟨s, hs, ?_⟩
  intro handle
  rw [shelf?, h.getElem?_handles, hshelves]
  split
  · rfl
  · rfl

theorem change (h : w.Follows b) (handle : Nat) {f : Shelf → Shelf} {g : Book → Book}
    (hhandles : (g b).handles = b.handles) (hshelf : ∀ s, s.Follows b → (f s).Follows (g b)) :
    (w.change handle f).Follows (b.change handle g) := by
  rw [Sharing.change, h.getElem?_handles, Book.change]
  by_cases hlt : handle < b.handles
  · rw [if_pos hlt, if_pos hlt]
    obtain ⟨s, hshelves, hs⟩ := h.shelf
    constructor
    · exact ⟨f s, by rw [hshelves]; rfl, hshelf s hs⟩
    · rw [hhandles]
      exact h.handles
  · rw [if_neg hlt, if_neg hlt]
    exact h

/-- **Every act keeps the memory to the book.** -/
theorem step (h : w.Follows b) (act : Act) : (w.step act).Follows (b.step act) := by
  cases act with
  | edit handle e =>
      rw [Sharing.step, Book.step]
      refine h.change handle rfl ?_
      intro s hs
      refine ⟨hs.sound.update _, ?_, ?_⟩
      · rw [Shelf.read_update hs.sound, hs.read, Registry.ofEdits_snoc]
      · rw [Shelf.readSnapshots_update hs.sound]
        exact hs.snapshots
  | replace handle edits =>
      rw [Sharing.step, Book.step]
      refine h.change handle rfl ?_
      intro s hs
      refine ⟨hs.sound.replace _, Shelf.read_replace s _, ?_⟩
      rw [Shelf.readSnapshots_replace hs.sound]
      exact hs.snapshots
  | snapshot handle =>
      rw [Sharing.step, Book.step]
      refine h.change handle rfl ?_
      intro s hs
      refine ⟨hs.sound.snapshot, hs.read, ?_⟩
      rw [Shelf.readSnapshots_snapshot, hs.snapshots, hs.read, List.map_append]
      rfl
  | release handle i =>
      rw [Sharing.step, Book.step]
      refine h.change handle rfl ?_
      intro s hs
      refine ⟨hs.sound.release i, hs.read, ?_⟩
      rw [Shelf.readSnapshots_release, hs.snapshots, List.eraseIdx_map]
  | clone handle =>
      rw [Sharing.step, h.getElem?_handles, Book.step, Book.change]
      by_cases hlt : handle < b.handles
      · rw [if_pos hlt, if_pos hlt]
        obtain ⟨s, hshelves, hs⟩ := h.shelf
        constructor
        · exact ⟨s, hshelves, hs.sound, hs.read, hs.snapshots⟩
        · show w.handles ++ [0] = _
          rw [h.handles, List.replicate_succ']
      · rw [if_neg hlt, if_neg hlt]
        exact h

end Follows

namespace Follows

theorem read_eq (h : w.Follows b) (handle : Nat) :
    w.read handle = if handle < b.handles then some (Registry.ofEdits b.edits) else none := by
  obtain ⟨s, hs, hshelf⟩ := h.shelf?_eq
  rw [read, hshelf, ← hs.read]
  split
  · rfl
  · rfl

theorem readSnapshots_eq (h : w.Follows b) (handle : Nat) :
    w.readSnapshots handle =
      if handle < b.handles then some (b.taken.map Registry.ofEdits) else none := by
  obtain ⟨s, hs, hshelf⟩ := h.shelf?_eq
  rw [readSnapshots, hshelf, ← hs.snapshots]
  split
  · rfl
  · rfl

/-- What is refused changes nothing that can be read. -/
theorem refused (h : w.Follows b) {e : Edit} {error : RegistryError}
    (hrefused : e.run (Registry.ofEdits b.edits) = .error error) (handle other : Nat) :
    (w.step (.edit handle e)).read other = w.read other ∧
      (w.step (.edit handle e)).readSnapshots other = w.readSnapshots other := by
  have hnext := h.step (.edit handle e)
  rw [hnext.read_eq, hnext.readSnapshots_eq, h.read_eq, h.readSnapshots_eq, Book.step, Book.change]
  split
  · have hedit : Registry.ofEdits (b.edits ++ [e]) = Registry.ofEdits b.edits := by
      rw [Registry.ofEdits_snoc, Registry.edit_of_error hrefused]
    exact ⟨by rw [hedit], rfl⟩
  · exact ⟨rfl, rfl⟩

end Follows

/-! ## Histories -/

theorem follows_after (start : List Edit) (acts : List Act) :
    (after start acts).Follows (Book.after start acts) := by
  unfold after Book.after
  induction acts using List.reverseRecOn with
  | nil => exact follows_ofEdits start
  | append_singleton acts act ih =>
      rw [List.foldl_append, List.foldl_append]
      exact ih.step act

/-- **Sharing does not show.** After every history, each handle reads the registry that the
edits that count have made, and each snapshot the one that they had made when it was taken.
These are the registries of their ledgers: under distinct names that partials can have, the
bodies of the ledger, in the order in which the names were last newly added. An edit that is
refused changes nothing of it. -/
theorem history_followed (start : List Edit) (acts : List Act) :
    let w := after start acts
    let b := Book.after start acts
    (∀ handle < b.handles, w.read handle = some (Registry.ofEdits b.edits) ∧
      w.readSnapshots handle = some (b.taken.map Registry.ofEdits)) ∧
    (∀ edits ∈ b.edits :: b.taken, ∀ r : Registry,
      r.Follows (Ledger.ofEdits edits) ↔ r = Registry.ofEdits edits) ∧
    ∀ e error, e.run (Registry.ofEdits b.edits) = .error error → ∀ handle other,
      (w.step (.edit handle e)).read other = w.read other ∧
        (w.step (.edit handle e)).readSnapshots other = w.readSnapshots other := by
  intro w b
  have h : w.Follows b := follows_after start acts
  refine ⟨?_, ?_, ?_⟩
  · intro handle hlt
    rw [h.read_eq, h.readSnapshots_eq, if_pos hlt, if_pos hlt]
    exact ⟨rfl, rfl⟩
  · intro edits _ r
    exact Registry.follows_ofEdits_iff
  · intro e error hrefused handle other
    exact h.refused hrefused handle other

/-- After a snapshot and with a second handle, a name is taken away and comes back. -/
def reordering : List Act :=
  [.snapshot 0, .clone 0, .edit 1 (.remove ['a']), .edit 0 (.put ['a'] ['3'])]

/-- The name goes behind the others, which the snapshot does not see, and is no longer free. -/
theorem history_followed_reordering :
    let w := after [.register ['a'] ['1'], .register ['b'] ['2']] reordering
    w.read 1 = some [(['b'], ['2']), (['a'], ['3'])] ∧
      w.readSnapshots 0 = some [[(['a'], ['1']), (['b'], ['2'])]] ∧
      (w.step (.edit 1 (.register ['a'] ['4']))).read 0 = w.read 0 := by
  obtain ⟨hreads, -, hrefused⟩ :=
    history_followed [.register ['a'] ['1'], .register ['b'] ['2']] reordering
  refine ⟨(hreads 1 (by decide)).1.trans (by decide),
    (hreads 0 (by decide)).2.trans (by decide), ?_⟩
  exact (hrefused (.register ['a'] ['4']) (.duplicate ['a']) (by decide) 1 0).1

end Sharing

end Stencil.Partial
