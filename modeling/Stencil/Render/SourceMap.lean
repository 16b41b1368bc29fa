import Stencil.Markup.Region

/-!
# From expanded markup back to its source

A render replaces regions of a text again and again. Each time it notes a layer
of splices: which range of the text before gave way to which range of the text
after. An offset inside replaced text stands for the start of what it replaced;
any other offset moves with the text around it.
-/

namespace Stencil.Render

/-- A replacement: `output` in the text after took the place of `source` in the
text before. -/
structure Splice where
  source : Span
  output : Span
deriving Repr, DecidableEq

/-- The offset before some splices that an offset after them stands for, where
`unchanged` is that offset if no splice is at or before it. -/
def throughSplices (offset unchanged : Nat) : List Splice → Nat
  | [] => unchanged
  | s :: rest =>
      if offset < s.output.start then unchanged
      else if offset < s.output.stop then s.source.start
      else throughSplices offset (offset - s.output.stop + s.source.stop) rest

/-- The splices of every pass over a text, the last pass first. -/
abbrev SourceMap := List (List Splice)

def SourceMap.toSource (m : SourceMap) (offset : Nat) : Nat :=
  m.foldl (fun offset splices => throughSplices offset offset splices) offset

/-- The splices of replacing regions by texts, where `offset` bytes are written
already. -/
def splicesFrom (offset : Nat) : List (Markup.Region × Text) → List Splice
  | [] => []
  | (r, output) :: rest =>
      let start := offset + Text.byteLength r.gap
      let stop := start + Text.byteLength output
      ⟨r.span, ⟨start, stop⟩⟩ :: splicesFrom stop rest

/-- A text in the course of its render, and the way back to its source. -/
structure Draft where
  text : Text
  map : SourceMap
deriving Repr, DecidableEq

namespace Draft

def ofSource (t : Text) : Draft :=
  ⟨t, []⟩

def replace (d : Draft) (scan : Markup.Scan) (outputs : List Text) : Draft :=
  ⟨scan.weave outputs, splicesFrom 0 (scan.regions.zip outputs) :: d.map⟩

end Draft

end Stencil.Render
