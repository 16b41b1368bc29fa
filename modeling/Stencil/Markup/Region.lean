import Stencil.Text.Basic

/-!
# Regions of a text

A scan cuts a text into *regions* and the gaps between them. Each region keeps
the gap before it, so the pieces of a scan are the pieces of the text, and no
caller cuts the text again. A region that opened and never closed is not a
region: its offset is reported, and its text stays in the last gap.
-/

namespace Stencil.Markup

structure Region where
  /-- The text between the region before this one and this one. -/
  gap : Text
  text : Text
  /-- Where the region stands, its delimiters included. -/
  span : Span
deriving Repr, DecidableEq

structure Scan where
  regions : List Region
  tail : Text
  /-- Where a region opened that the text never closes. -/
  unterminated : Option Nat
deriving Repr, DecidableEq

namespace Scan

def texts (s : Scan) : List Text :=
  s.regions.map Region.text

def cons (s : Scan) (r : Region) : Scan :=
  { s with regions := r :: s.regions }

def consOption (r : Option Region) (s : Scan) : Scan :=
  r.elim s s.cons

/-- The gaps with a text of each region in between, in order. -/
def weave (s : Scan) (outputs : List Text) : Text :=
  ((s.regions.zip outputs).flatMap fun p => p.1.gap ++ p.2) ++ s.tail

end Scan

end Stencil.Markup
