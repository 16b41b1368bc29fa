import Stencil.Context
import Stencil.Markup.Attribute

/-!
# Invocations of partials

A fragment invokes a partial with bindings: its attributes, and `contents`, the
text between its first unescaped `>` and its last unescaped `<`. They are laid
over the context outside.
-/

namespace Stencil.Partial

/-- The markup between the opening and the closing tag of a fragment. -/
def contents (fragment : Text) : Text :=
  (((Markup.splitFirst? '>' false fragment).bind fun p =>
    Markup.splitLast? '<' false p.2).map Prod.fst).getD []

def contentsName : Text := "contents".toList

/-- What an invocation binds: its attributes, then its contents. -/
def invocationBindings (fragment : Text) : Context :=
  (Markup.attributeBindings fragment).insert contentsName
    (.string (Markup.unescape (contents fragment)))

def invocationContext (fragment : Text) (outer : Context) : Context :=
  Bindings.overlay outer (invocationBindings fragment)

end Stencil.Partial
