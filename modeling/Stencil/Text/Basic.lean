/-!
# Texts, byte offsets and spans

A text is the list of its characters. Positions that leave the library are
byte offsets into the UTF-8 form of a text, so every text has a *byte length*,
and a region of a text is a `Span` of byte offsets.

`Text.byteLength_append` is what lets a scanner count offsets as it walks.
-/

namespace Stencil

/-- A text, character by character. -/
abbrev Text := List Char

namespace Text

/-- Bytes the UTF-8 form of a text takes. -/
def byteLength : Text → Nat
  | [] => 0
  | c :: t => c.utf8Size + byteLength t

@[simp] theorem byteLength_nil : byteLength [] = 0 := rfl

@[simp] theorem byteLength_cons (c : Char) (t : Text) :
    byteLength (c :: t) = c.utf8Size + byteLength t := rfl

@[simp] theorem byteLength_append (s t : Text) :
    byteLength (s ++ t) = byteLength s + byteLength t := by
  induction s with
  | nil => simp
  | cons c s ih => simp [ih, Nat.add_assoc]

/-- The text starting where `head` ends, if the text starts with `head`. -/
def dropHead? : (head t : Text) → Option Text
  | [], t => some t
  | _ :: _, [] => none
  | c :: head, d :: t => if c = d then dropHead? head t else none

theorem dropHead?_eq_some_iff {head t rest : Text} :
    dropHead? head t = some rest ↔ t = head ++ rest := by
  induction head generalizing t with
  | nil => simp [dropHead?, eq_comm]
  | cons c head ih =>
      cases t with
      | nil => simp [dropHead?]
      | cons d t =>
          by_cases h : c = d
          · simp [dropHead?, h, ih]
          · simp [dropHead?, h, Ne.symm h]

end Text

/-- A range of byte offsets, `start` inclusive and `stop` exclusive. -/
structure Span where
  start : Nat
  stop : Nat
deriving Repr, DecidableEq, Inhabited

namespace Span

/-- The same range, counted from `base` bytes earlier. -/
def shift (base : Nat) (s : Span) : Span :=
  ⟨base + s.start, base + s.stop⟩

def upTo (s t : Span) : Span :=
  ⟨s.start, t.stop⟩

end Span

end Stencil
