import Stencil.Partial.Registry

/-!
# A registry that many share

A shelf is a place that holds a registry. Everyone who has the shelf reads and
changes the same registry, and can take a *snapshot*, which stays what it was.
The shelf changes its registry in place unless a snapshot still reads it; then
it leaves that version to the snapshot and goes on with a changed copy.
-/

namespace Stencil.Partial

/-- Versions of a registry, and who reads which. -/
structure Shelf where
  versions : List Registry
  /-- The version that is read and changed now. -/
  current : Nat
  /-- The versions that snapshots read, in the order in which they were taken. -/
  snapshots : List Nat
deriving Repr, DecidableEq

namespace Shelf

def ofRegistry (r : Registry) : Shelf :=
  ⟨[r], 0, []⟩

def version (s : Shelf) (i : Nat) : Registry :=
  s.versions[i]?.getD []

def read (s : Shelf) : Registry :=
  s.version s.current

def readSnapshots (s : Shelf) : List Registry :=
  s.snapshots.map s.version

def snapshot (s : Shelf) : Shelf :=
  { s with snapshots := s.snapshots ++ [s.current] }

/-- Goes on with another registry in a version of its own. -/
def replace (s : Shelf) (r : Registry) : Shelf :=
  { s with versions := s.versions ++ [r], current := s.versions.length }

/-- Changes the registry: in place, unless a snapshot reads it. -/
def update (s : Shelf) (r : Registry) : Shelf :=
  if s.snapshots.contains s.current then s.replace r
  else { s with versions := s.versions.set s.current r }

end Shelf

end Stencil.Partial
