import Stencil.Expr.Nesting
import Stencil.Number.Numeral

/-!
# The text of literals

`resolveEscapes` turns the raw text of a string or template literal into the
text it denotes. `templateChunks` cuts the body of a template literal into
literal texts and the sources of its interpolations, each with the offset at
which it stands.
-/

namespace Stencil.Expr

/-- The character that four hexadecimal digits denote, if there is one. -/
def codePoint? (ds : Text) : Option Char :=
  match Number.readNat? 16 ds with
  | some n => if n.isValidChar then some (Char.ofNat n) else none
  | none => none

/-- Resolves the backslash escapes of a literal. A backslash before a character
without a meaning of its own gives that character; at the end it stays. -/
def resolveEscapes : Text → Text
  | [] => []
  | ['\\'] => ['\\']
  | '\\' :: 'n' :: t => '\n' :: resolveEscapes t
  | '\\' :: 't' :: t => '\t' :: resolveEscapes t
  | '\\' :: 'r' :: t => '\r' :: resolveEscapes t
  | '\\' :: '0' :: t => '\x00' :: resolveEscapes t
  | '\\' :: '\n' :: t => resolveEscapes t
  | '\\' :: 'u' :: a :: b :: c :: d :: t =>
      match codePoint? [a, b, c, d] with
      | some ch => ch :: resolveEscapes t
      | none => 'u' :: resolveEscapes (a :: b :: c :: d :: t)
  | '\\' :: c :: t => c :: resolveEscapes t
  | c :: t => c :: resolveEscapes t

inductive Chunk where
  | text (t : Text)
  /-- The source of an interpolation and the offset at which it stands. -/
  | code (source : Text) (offset : Nat)
deriving Repr, DecidableEq

/-- A literal text as a chunk, none for an empty one. -/
def textChunk (raw : Text) : List Chunk :=
  if raw = [] then [] else [.text (resolveEscapes raw)]

/-- The chunks of a template body that stands at `offset`; `seen` is the literal
text right before it, reversed. -/
def templateChunksFrom (seen : Text) (offset : Nat) (body : Text) : List Chunk :=
  match body with
  | [] => textChunk seen.reverse
  | '\\' :: c :: rest =>
      templateChunksFrom (c :: '\\' :: seen) (offset + 1 + c.utf8Size) rest
  | '$' :: '{' :: rest =>
      textChunk seen.reverse ++
        match h : closing (.code 0) rest with
        | some (source, after) =>
            .code source (offset + 2) ::
              templateChunksFrom [] (offset + 2 + Text.byteLength source + 1) after
        | none => [.code rest (offset + 2)]
  | c :: rest => templateChunksFrom (c :: seen) (offset + c.utf8Size) rest
termination_by body.length
decreasing_by
  · simp only [List.length_cons]
    omega
  · have := length_of_closing h
    simp
    omega
  · simp

def templateChunks (offset : Nat) (body : Text) : List Chunk :=
  templateChunksFrom [] offset body

end Stencil.Expr
