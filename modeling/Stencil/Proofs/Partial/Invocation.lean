import Stencil.Partial.Invocation
import Stencil.Proofs.Markup.Attributes

/-!
# What an invocation binds

An invocation binds each name once. What it binds is read off its opening tag, which
gives the attributes, and off the text inside, which is bound with its escapes resolved
(`invocationBindings_invocation`).
-/

namespace Stencil.Markup

open Partial (isValidName isNameChar_of_valid)

section Opening

variable {name attributes : Text} (hname : isValidName name = true) (h : TagRest attributes)
  (rest : Text)
include hname h

/-- The text behind the name in an opening tag ends at the first `>`. -/
theorem splitFirst?_openingTag :
    splitFirst? '>' false (openingTag name attributes ++ rest) =
      some (tagHead name attributes, rest) := by
  have hnameChars : ∀ c ∈ name, isNameChar c = true := fun _ => isNameChar_of_valid hname
  exact splitFirst?_tagHead ((free_tagHead_iff hnameChars).2 h.free)
    ((pending_tagHead hnameChars attributes).trans h.closed) rest

theorem attributeBindings_openingTag :
    attributeBindings (openingTag name attributes ++ rest) =
      Bindings.ofList ((attributesIn attributes).map fun a => (a.name, a.value)) :=
  attributeBindings_tagHead (fun _ => isNameChar_of_valid hname) h.free h.closed rest

end Opening

end Stencil.Markup

namespace Stencil.Partial

open Markup

theorem distinct_invocationBindings (fragment : Text) :
    Bindings.Distinct (invocationBindings fragment) :=
  Bindings.distinct_insert (Bindings.distinct_ofList _) _ _

theorem contents_invocation {name attributes inner : Text} (hname : isValidName name = true)
    (h : TagRest attributes) (hpend : pending false inner = false) :
    contents (invocation name attributes inner) = inner := by
  have hclosing : Free '<' false ('/' :: '_' :: name ++ ['>']) :=
    free_of_not_mem (by simp [not_mem_of_valid hname (d := '<') rfl]) false
  rw [contents, invocation, splitFirst?_openingTag hname h, Option.bind_some, closingTag,
    splitLast?_append hpend hclosing]
  rfl

/-- **What an invocation binds**: the attributes of its opening tag, and what it has
inside, resolved. -/
theorem invocationBindings_invocation {name attributes inner : Text}
    (hname : isValidName name = true) (h : TagRest attributes)
    (hpend : pending false inner = false) :
    invocationBindings (invocation name attributes inner) =
      (Bindings.ofList ((attributesIn attributes).map fun a => (a.name, a.value))).insert
        contentsName (.string (unescape inner)) := by
  rw [invocationBindings, contents_invocation hname h hpend, invocation,
    attributeBindings_openingTag hname h]

/-- A tag that closes itself binds empty contents. -/
theorem invocationBindings_emptyTag {name : Text} (h : isValidName name = true) :
    invocationBindings (emptyTag name) = [(contentsName, .string [])] := by
  have hcontents : contents (emptyTag name) = [] := by
    rw [contents, emptyTag, ← List.append_nil (openingTag _ _),
      splitFirst?_openingTag h tagRest_slash]
    rfl
  have no_blank : ∀ c ∈ ['/'], Text.isBlank c = false := List.forall_mem_singleton.2 (by decide)
  have hattributes : attributesIn (['/'] ++ []) = [] := by
    rw [attributesIn_append_of_no_blank no_blank, attributesIn]
  rw [invocationBindings, hcontents, emptyTag, ← List.append_nil (openingTag _ _),
    attributeBindings_openingTag h tagRest_slash, ← List.append_nil ['/'], hattributes]
  rfl

/-- Without attributes only the contents are bound. -/
theorem invocationBindings_enclose {name inner : Text} (h : isValidName name = true)
    (hpend : pending false inner = false) :
    invocationBindings (enclose name inner) = [(contentsName, .string (unescape inner))] := by
  rw [enclose_eq, invocationBindings_invocation h tagRest_nil hpend, attributesIn]
  rfl

end Stencil.Partial
