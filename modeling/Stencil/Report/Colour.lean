import Stencil.Text.Basic

/-!
# Coloured text

A terminal shows a text in a colour when a control sequence stands before it, and
another after it ends the colour.
-/

namespace Stencil.Report

inductive Colour where
  | accent
  | plain
  | frame
  /-- The frame beside what is no text. -/
  | faintFrame
deriving Repr, DecidableEq

/-- The parameters of a colour's control sequence. -/
def Colour.code : Colour → Text
  | accent => "31".toList
  | plain => "38;5;249".toList
  | frame => "38;5;246".toList
  | faintFrame => "38;5;240".toList

def control (code : Text) : Text :=
  '\x1b' :: '[' :: code ++ ['m']

def coloured (colour : Colour) (t : Text) : Text :=
  control colour.code ++ t ++ control ['0']

def cell (colour : Colour) (c : Char) : Text :=
  coloured colour [c]

end Stencil.Report
