import Stencil.Number.Digits
import Stencil.Report.Colour
import Stencil.Text.Blank
import Stencil.Text.Line
import Stencil.Text.Width

/-!
# The layout of a report

A report is a headline and, if it is about a range of a text, the line of that
range in a frame: a head with the place, the line, a row that underlines the
range, and a row with an arm from the middle of the range to its label.

```
Error: headline
   ╭─[name:2:3]
   │
 2 │ a [range] b
   │   ───┬───
   │      ╰───── label
───╯
```

Columns are characters of the line, but each is as wide as the terminal shows its
character: a tab runs to the next multiple of `tabWidth`.
-/

namespace Stencil.Report

/-- A range of characters of a text with what is to be told about it. -/
structure Label where
  start : Nat
  stop : Nat
  text : Text
deriving Repr, DecidableEq

def tabWidth : Nat := 4

/-- The cells that a character takes in a column. -/
def cellsAt (column : Nat) (c : Char) : Nat :=
  if c = '\t' then (column / tabWidth + 1) * tabWidth - column
  else if Text.isBlank c then 1
  else Text.cells c

/-- A line of text in a frame, and the range of it that is marked. -/
structure Marked where
  /-- The line without the blanks at its end. -/
  line : Text
  column : Nat
  /-- How many columns the range has, at least one. -/
  size : Nat
deriving Repr, DecidableEq

namespace Marked

def contains (m : Marked) (column : Nat) : Bool :=
  m.column ≤ column && column < m.column + m.size

def middle (m : Marked) : Nat :=
  m.column + m.size / 2

def rowWidth (m : Marked) : Nat :=
  m.column + m.size + 2

/-- The characters of the line, blanks as spaces, those of the range accented. -/
def lineCells (m : Marked) : Text :=
  m.line.zipIdx.flatMap fun p =>
    let colour := if m.contains p.2 then Colour.accent else Colour.plain
    if Text.isBlank p.1 then (List.replicate (cellsAt p.2 p.1) (cell colour ' ')).flatten
    else cell colour p.1

/-- One column of a row below the line: a cell, and what fills the others. -/
def columnCells (m : Marked) (column : Nat) (first others : Text) : Text :=
  match (m.line[column]?.map (cellsAt column)).getD 1 with
  | 0 => []
  | width + 1 => first ++ (List.replicate width others).flatten

def bar : Text :=
  cell .accent '─'

def underline (m : Marked) : Text :=
  (List.range m.rowWidth).flatMap fun column =>
    if column = m.middle then m.columnCells column (cell .accent '┬') bar
    else if m.contains column then m.columnCells column bar bar
    else m.columnCells column [' '] [' ']

def arm (m : Marked) : Text :=
  (List.range m.rowWidth).flatMap fun column =>
    if column < m.middle then m.columnCells column [' '] [' ']
    else if column = m.middle then m.columnCells column (cell .accent '╰') bar
    else m.columnCells column bar bar

end Marked

def headline (message : Text) : Text :=
  coloured .accent "Error:".toList ++ ' ' :: message ++ ['\n']

def frame (source name : Text) (label : Label) : Text :=
  let place := Text.place source label.start
  let number := Number.decimal place.line
  let margin := List.replicate number.length ' '
  let marked : Marked := ⟨Text.trimEnd place.text, place.column, max 1 (label.stop - label.start)⟩
  let faint := ' ' :: coloured .faintFrame (margin ++ " │".toList) ++ [' ']
  ' ' :: margin ++ ' ' :: cell .frame '╭' ++ cell .frame '─' ++ cell .frame '[' ++ name ++
      ':' :: number ++ ':' :: Number.decimal (place.column + 1) ++ cell .frame ']' ++ ['\n'] ++
    ' ' :: margin ++ ' ' :: cell .frame '│' ++ ['\n'] ++
    ' ' :: coloured .frame (number ++ " │".toList) ++ ' ' :: marked.lineCells ++ ['\n'] ++
    faint ++ marked.underline ++ ['\n'] ++
    faint ++ marked.arm ++ ' ' :: label.text ++ ['\n'] ++
    coloured .frame (List.replicate (number.length + 2) '─' ++ ['╯']) ++ ['\n']

def write (message source name : Text) (label : Option Label) : Text :=
  headline message ++ (label.map (frame source name)).getD []

end Stencil.Report
