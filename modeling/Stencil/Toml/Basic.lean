import Stencil.Bindings

/-!
# TOML values and tables

A value is what stands after a key. The tables of a document are built from many
statements, and each remembers how it came about, because that decides which
later statements may add to it.
-/

namespace Stencil

inductive Toml where
  | string (t : Text)
  | integer (n : Int)
  | float (x : Float)
  | boolean (b : Bool)
  /-- A date, a time or both, as it is written. -/
  | moment (t : Text)
  | array (items : List Toml)
  /-- A table in braces, which nothing can be added to. -/
  | inline (entries : List (Text × Toml))

namespace Toml

/-- How a table came about. -/
inductive TableKind where
  /-- Named by a header of its own. -/
  | header
  /-- On the way to a table that a header names. -/
  | passed
  /-- On the way to a value with a dotted key. -/
  | dotted
deriving Repr, DecidableEq

inductive Node where
  | value (v : Toml)
  | table (kind : TableKind) (entries : List (Text × Node))
  /-- The tables under one repeated header. -/
  | tables (elements : List (List (Text × Node)))

abbrev Entries := List (Text × Node)

/-- How deep values may nest, and the least length of a key that is too long. -/
def nestingLimit : Nat := 80

end Toml

end Stencil
