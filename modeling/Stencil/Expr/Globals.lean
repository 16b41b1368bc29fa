import Stencil.Context
import Stencil.Expr.Value.Json

/-!
# Global names

An expression sees the built-in helpers and the names of its context, which may
take the place of a helper. A look-up does not depend on the order of the
context.
-/

namespace Stencil.Expr

abbrev Globals := Bindings Value

namespace Globals

def helper (entry : String × Helper) : Text × Value :=
  (entry.1.toList, .function (.helper entry.2))

/-- A global object with helpers as fields. -/
def namespaceOf (name : String) (fields : List (Text × Value)) : Text × Value :=
  (name.toList, .object (.bound name.toList) fields)

def circleRatio : Float := Float.ofBits 0x400921FB54442D18

def naturalBase : Float := Float.ofBits 0x4005BF0A8B145769

/-- The helpers, and the two numbers without digits. -/
def builtin : Globals :=
  [namespaceOf "Math"
    (List.map helper
      [("abs", .abs), ("ceil", .ceil), ("floor", .floor), ("round", .round), ("trunc", .trunc),
       ("sign", .sign), ("min", .min), ("max", .max), ("pow", .pow), ("sqrt", .sqrt)] ++
      [("PI".toList, .number circleRatio), ("E".toList, .number naturalBase)]),
   namespaceOf "JSON" (List.map helper [("stringify", .jsonText), ("parse", .readJson)]),
   namespaceOf "Object"
    (List.map helper
      [("keys", .keys), ("values", .values), ("entries", .entries),
       ("fromEntries", .fromEntries)]),
   namespaceOf "Array" (List.map helper [("isArray", .isArray)])] ++
  List.map helper
    [("String", .text), ("Number", .number), ("Boolean", .boolean),
     ("parseInt", .leadingInteger), ("parseFloat", .leadingNumber), ("isNaN", .isNaN),
     ("encodeURIComponent", .percentEncode)] ++
  [("NaN".toList, .number Number.nan), ("Infinity".toList, .number (Number.infinity false))]

def ofContext (c : Context) : Globals :=
  c.map fun b => (b.1, Value.ofJson (.bound b.1) b.2)

def within (c : Context) : Globals :=
  builtin.overlay (ofContext c)

end Globals

end Stencil.Expr
