import Stencil.Context
import Stencil.Hash.Sip
import Stencil.Json.Printer

/-!
# Digests of contexts

The digest of a context is the sum of the hashes of its entries, so it does not
depend on their order, and the digest of an overlaid context follows from the
digest of the outer one by visiting the inner entries alone.
-/

namespace Stencil.Context

def utf8 (t : Text) : List UInt8 :=
  t.flatMap String.utf8EncodeChar

/-- A byte that no UTF-8 form has, between a name and its value. -/
def separator : UInt8 := 0xFF

def entryDigest (name : Text) (value : Json) : UInt64 :=
  Hash.sip (utf8 name ++ separator :: utf8 value.compact)

def digest (c : Context) : UInt64 :=
  c.foldr (fun b d => entryDigest b.1 b.2 + d) 0

/-- What the digest of a context becomes when a value is bound in it. -/
def digestAfter (c : Context) (digest : UInt64) (name : Text) (value : Json) : UInt64 :=
  let rest :=
    match Bindings.get? c name with
    | some old => digest - entryDigest name old
    | none => digest
  rest + entryDigest name value

/-- The digest of a context overlaid by another whose names are distinct, from
the digest of the context. -/
def overlaidDigest (c : Context) (digest : UInt64) (inner : Context) : UInt64 :=
  inner.foldl (fun d b => c.digestAfter d b.1 b.2) digest

end Stencil.Context
