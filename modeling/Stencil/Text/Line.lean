import Stencil.Text.Search

/-!
# Lines

A line ends with a line feed, a carriage return or both in that order, a vertical
tab, a form feed, or one of the three line and paragraph separators beyond ASCII.
Its terminator is part of it, so the lines of a text are the text (`flatten_lines`).
-/

namespace Stencil.Text

def isTerminator (c : Char) : Bool :=
  c = '\n' || c = '\r' || c = '\x0b' || c = '\x0c' || c = '\u0085' || c = '\u2028' || c = '\u2029'

def lines : Text → List Text
  | [] => []
  | [c] => [[c]]
  | c :: d :: t =>
      if c = '\r' && d = '\n' then [c, d] :: lines t
      else if isTerminator c then [c] :: lines (d :: t)
      else consPiece c (lines (d :: t))

theorem flatten_consPiece (c : Char) (ps : List Text) :
    (consPiece c ps).flatten = c :: ps.flatten := by
  cases ps <;> simp [consPiece]

theorem flatten_lines (t : Text) : (lines t).flatten = t := by
  fun_induction lines t with
  | case1 => rfl
  | case2 c => rfl
  | case3 c d t h ih => simp [ih]
  | case4 c d t h h' ih => simp [ih]
  | case5 c d t h h' ih => simp [flatten_consPiece, ih]

structure Place where
  /-- The number of the line, from one. -/
  line : Nat
  /-- The number of characters before the position in its line. -/
  column : Nat
  text : Text
deriving Repr, DecidableEq

/-- The place of a position, where the first of the lines has a number. A
position beyond the lines is in the last one. -/
def placeIn (line position : Nat) : List Text → Place
  | [] => ⟨line, position, []⟩
  | [t] => ⟨line, position, t⟩
  | t :: u :: rest =>
      if position < t.length then ⟨line, position, t⟩
      else placeIn (line + 1) (position - t.length) (u :: rest)

def place (t : Text) (position : Nat) : Place :=
  placeIn 1 position (lines t)

def charactersBefore (byte : Nat) : Text → Nat
  | [] => 0
  | c :: t => if byte = 0 then 0 else charactersBefore (byte - c.utf8Size) t + 1

end Stencil.Text
