import Stencil.Text.Basic

/-!
# The names of the built-in functions

Helpers are global functions, some of them fields of a global object. Methods
belong to arrays, texts and numbers. There are no others, so each kind is an
enumeration with its names.
-/

namespace Stencil.Expr

inductive Helper where
  | abs
  | ceil
  | floor
  | round
  | trunc
  | sign
  | min
  | max
  | pow
  | sqrt
  | jsonText
  | readJson
  | keys
  | values
  | entries
  | fromEntries
  | isArray
  | text
  | number
  | boolean
  | leadingInteger
  | leadingNumber
  | isNaN
  | percentEncode
deriving Repr, DecidableEq

inductive ArrayMethod where
  | map
  | filter
  | find
  | findIndex
  | any
  | every
  | reduce
  | join
  | includes
  | indexOf
  | slice
  | concat
  | reverse
  | sort
  | flat
  | flatMap
  | item
  | toText
deriving Repr, DecidableEq

inductive TextMethod where
  | toUpper
  | toLower
  | trim
  | trimStart
  | trimEnd
  | split
  | includes
  | startsWith
  | endsWith
  | indexOf
  | slice
  | substring
  | replace
  | replaceAll
  | repeated
  | padStart
  | padEnd
  | charAt
  | item
  | concat
  | toText
deriving Repr, DecidableEq

inductive NumberMethod where
  | toFixed
  | toText
deriving Repr, DecidableEq

/-- The name that every value with methods has a text under. -/
def toTextName : String := "toString"

def ArrayMethod.named : List (String × ArrayMethod) :=
  [("map", map), ("filter", filter), ("find", find), ("findIndex", findIndex), ("some", any),
   ("every", every), ("reduce", reduce), ("join", join), ("includes", includes),
   ("indexOf", indexOf), ("slice", slice), ("concat", concat), ("reverse", reverse),
   ("sort", sort), ("flat", flat), ("flatMap", flatMap), ("at", item), (toTextName, toText)]

def TextMethod.named : List (String × TextMethod) :=
  [("toUpperCase", toUpper), ("toLowerCase", toLower), ("trim", trim), ("trimStart", trimStart),
   ("trimEnd", trimEnd), ("split", split), ("includes", includes), ("startsWith", startsWith),
   ("endsWith", endsWith), ("indexOf", indexOf), ("slice", slice), ("substring", substring),
   ("replace", replace), ("replaceAll", replaceAll), ("repeat", repeated),
   ("padStart", padStart), ("padEnd", padEnd), ("charAt", charAt), ("at", item),
   ("concat", concat), (toTextName, toText)]

def NumberMethod.named : List (String × NumberMethod) :=
  [("toFixed", toFixed), (toTextName, toText)]

def withName? {α : Type} (named : List (String × α)) (name : Text) : Option α :=
  named.lookup (String.ofList name)

end Stencil.Expr
