import Stencil.Text.Basic
import Stencil.Number.Digits

/-!
# Percent-encoding

A component of an address keeps ASCII letters, ASCII digits and nine marks. Each
byte of the UTF-8 form of any other character becomes a percent sign and two
upper-case hexadecimal digits.
-/

namespace Stencil.Text

/-- The marks that stay as they are in a component. -/
def componentMarks : Text := "-_.!~*'()".toList

def isComponentChar (c : Char) : Bool :=
  c.isAlphanum || componentMarks.contains c

def percentByte (b : UInt8) : Text :=
  let hex (d : Nat) : Char := (Number.digitChar d).toUpper
  ['%', hex (b.toNat / 16), hex (b.toNat % 16)]

/-- The text as a component of an address. -/
def percentEncode (t : Text) : Text :=
  t.flatMap fun c => if isComponentChar c then [c] else (String.utf8EncodeChar c).flatMap percentByte

end Stencil.Text
