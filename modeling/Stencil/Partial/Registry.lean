import Stencil.Bindings
import Stencil.Markup.Tag

/-!
# The registry of partials

Partials are bodies under names, in the order in which the names were added. A
name starts with a letter, and letters, digits, `_` and `-` may follow.
-/

namespace Stencil.Partial

def isValidName : Text → Bool
  | [] => false
  | c :: t => Markup.isLetter c && t.all Markup.isNameChar

inductive RegistryError where
  | invalidName (name : Text)
  | duplicate (name : Text)
deriving Repr, DecidableEq

def RegistryError.message : RegistryError → Text
  | invalidName name => "invalid partial name '".toList ++ name ++ ['\'']
  | duplicate name => "duplicate partial definition: ".toList ++ name

/-- Bodies of partials by name. -/
abbrev Registry := Bindings Text

namespace Registry

def register (r : Registry) (name body : Text) : Except RegistryError Registry :=
  if !isValidName name then .error (.invalidName name)
  else if Bindings.contains r name then .error (.duplicate name)
  else .ok (Bindings.insert r name body)

/-- Adds a partial or replaces its body, and tells the body before. -/
def put (r : Registry) (name body : Text) : Except RegistryError (Registry × Option Text) :=
  if !isValidName name then .error (.invalidName name)
  else .ok (Bindings.insert r name body, Bindings.get? r name)

def remove (r : Registry) (name : Text) : Registry × Option Text :=
  (Bindings.erase r name, Bindings.get? r name)

/-- Adds partials in order, up to the first that cannot be. -/
def ofList (partials : List (Text × Text)) : Except RegistryError Registry :=
  partials.foldlM (fun r p => r.register p.1 p.2) []

end Registry

end Stencil.Partial
