import Stencil.Bindings
import Stencil.Json.Basic

/-!
# Contexts

A context binds names to JSON values. One laid over another keeps the names of
both, and the inner values win.
-/

namespace Stencil

/-- The values that a text can use, by name. -/
abbrev Context := Bindings Json

structure NotAnObject where
  kind : String
deriving Repr, DecidableEq

def NotAnObject.message (e : NotAnObject) : String :=
  "context must be a JSON object, found " ++ e.kind

namespace Context

def ofJson : Json → Except NotAnObject Context
  | .object fields => .ok fields
  | v => .error ⟨v.kind⟩

/-- Equality up to the order of names. -/
def same (c d : Context) : Bool :=
  (Json.object c).same (.object d)

end Context

end Stencil
