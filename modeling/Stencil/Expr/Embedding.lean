import Stencil.Expr.Nesting
import Stencil.Markup.Brace
import Stencil.Markup.Tag

/-!
# Markup inside expressions

An expression may hold markup, as in `items.map(i => <li>{i}</li>)`. Before it
is read, `embed` turns every markup fragment that stands in code into a
template literal whose interpolations are the fragment's brace regions, turned
likewise. Markup inside string and template literals is text already and stays.
-/

namespace Stencil.Expr

open Markup

/-- Literal text for the inside of a template literal. -/
def escapeLiteral (t : Text) : Text :=
  t.flatMap fun c => if c = '\\' || c = '\x60' || c = '$' then ['\\', c] else [c]

/-- The pieces of a fragment as a template literal: the gaps as literal text and
the regions as interpolations of their texts with templates in them. -/
def templateOf (embedded : List Text) (s : Scan) : Text :=
  let parts := (s.regions.zip embedded).flatMap fun p =>
    escapeLiteral p.1.gap ++ '$' :: '{' :: p.2 ++ ['}']
  '\x60' :: parts ++ escapeLiteral s.tail ++ ['\x60']

def literalLayer? (c : Char) : Option Layer :=
  if c = '\'' || c = '"' then some (.quoted c)
  else if c = '\x60' then some .template
  else none

/-- Turns the markup fragments of an expression into templates. Each smaller
text takes one of `fuel`, so the length of the text is enough. -/
def embedWith : (fuel : Nat) → Text → Text
  | 0, t => t
  | _ + 1, [] => []
  | fuel + 1, c :: rest =>
      match literalLayer? c with
      | some layer =>
          match closing layer rest with
          | some (body, after) => c :: body ++ layer.closer :: embedWith fuel after
          | none => c :: rest
      | none =>
          if c = '\\' then
            match rest with
            | [] => [c]
            | d :: rest => c :: d :: embedWith fuel rest
          else
            match fragmentAt? (c :: rest) with
            | some fragment =>
                let s := scanExpressions fragment
                templateOf (s.texts.map (embedWith fuel)) s ++
                  embedWith fuel ((c :: rest).drop fragment.length)
            | none => c :: embedWith fuel rest

/-- An expression with its markup fragments as template literals. -/
def embed (t : Text) : Text :=
  embedWith (t.length + 1) t

end Stencil.Expr
