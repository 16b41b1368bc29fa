import Stencil.Config
import Stencil.Toml.Reader

/-!
# Configurations in TOML

A configuration is a document with up to four entries, each of which has a
default. Other entries do not count.
-/

namespace Stencil

open Toml (Node Entries)

namespace Strictness

def ofName? (name : Text) : Option Strictness :=
  if name = "strict".toList then some .strict
  else if name = "lenient".toList then some .lenient
  else none

def isEmptyNode : Node → Bool
  | .value (.array []) => true
  | .value (.inline []) => true
  | .table _ [] => true
  | .tables [] => true
  | _ => false

/-- The strictness that an entry says: a name, or a table with nothing under a
name. -/
def ofNode? : Node → Option Strictness
  | .value (.string name) => ofName? name
  | .value (.inline [(name, v)]) => if isEmptyNode (.value v) then ofName? name else none
  | .table _ ((name, v) :: _) => if isEmptyNode v then ofName? name else none
  | _ => none

end Strictness

namespace Config

def natOfNode? : Node → Option Nat
  | .value (.integer n) => if 0 ≤ n then some n.toNat else none
  | _ => none

/-- What an entry says, or its default if there is no such entry. -/
def entry {α : Type} (entries : Entries) (key : String) (read? : Node → Option α) (default : α) :
    Option α :=
  match Bindings.get? entries key.toList with
  | some node => read? node
  | none => some default

def ofEntries? (entries : Entries) : Option Config := do
  let standard : Config := {}
  let strictness ← entry entries "strictness" Strictness.ofNode? standard.strictness
  let maxPartialDepth ← entry entries "max_partial_depth" natOfNode? standard.maxPartialDepth
  let steps ← entry entries "step_budget" natOfNode? standard.limits.steps
  let calls ← entry entries "max_call_depth" natOfNode? standard.limits.calls
  some ⟨strictness, maxPartialDepth, ⟨steps, calls⟩⟩

def read? (t : Text) : Option Config :=
  Toml.read? t >>= ofEntries?

end Config

end Stencil
