import Stencil.Text.Basic

/-!
# Escapes in markup

A backslash takes the structural meaning from the character after it. Reading
a text from the left, a character is *escaped* when it follows an odd run of
backslashes; `marked` pairs each character with that flag.

Two functions leave escapes behind. `unescape` resolves the five sequences of
`isEscapable` and keeps every other backslash; `escapeText` doubles every
backslash. `unescape_escapeText` says that the second is undone by the first.
-/

namespace Stencil.Markup

/-- Characters that a backslash turns into plain text. -/
def isEscapable (c : Char) : Bool :=
  c = '{' || c = '}' || c = '<' || c = '>' || c = '\\'

/-- Whether the next character is escaped, after a character `c` that is itself
escaped or not. -/
def pendingAfter (escaped : Bool) (c : Char) : Bool :=
  !escaped && c = '\\'

/-- Each character with whether it is escaped; `escaped` is the flag of the
first. -/
def marked (escaped : Bool) : Text → List (Char × Bool)
  | [] => []
  | c :: t => (c, escaped) :: marked (pendingAfter escaped c) t

/-- Whether a character that followed the text would be escaped. -/
def pending (escaped : Bool) : Text → Bool
  | [] => escaped
  | c :: t => pending (pendingAfter escaped c) t

/-- The text before the first unescaped `target`, and the text after it. -/
def splitFirst? (target : Char) (escaped : Bool) : Text → Option (Text × Text)
  | [] => none
  | c :: t =>
      if c = target && !escaped then some ([], t)
      else (splitFirst? target (pendingAfter escaped c) t).map fun p => (c :: p.1, p.2)

def splitLast? (target : Char) (escaped : Bool) : Text → Option (Text × Text)
  | [] => none
  | c :: t =>
      match splitLast? target (pendingAfter escaped c) t with
      | some p => some (c :: p.1, p.2)
      | none => if c = target && !escaped then some ([], t) else none

/-- Resolves the escape sequences of a text. A backslash before any other
character is that backslash. -/
def unescape : Text → Text
  | [] => []
  | [c] => [c]
  | c :: d :: t =>
      if c = '\\' && isEscapable d then d :: unescape t else c :: unescape (d :: t)

/-- Doubles every backslash, so that `unescape` gives the text back. -/
def escapeText (t : Text) : Text :=
  t.flatMap fun c => if c = '\\' then ['\\', '\\'] else [c]

/-! ## One-step equations -/

@[simp] theorem escapeText_nil : escapeText [] = [] := rfl

theorem escapeText_cons (c : Char) (t : Text) :
    escapeText (c :: t) = (if c = '\\' then ['\\', '\\'] else [c]) ++ escapeText t := rfl

theorem unescape_cons_of_ne {c : Char} (h : c ≠ '\\') (t : Text) :
    unescape (c :: t) = c :: unescape t := by
  cases t with
  | nil => rfl
  | cons d t => simp [unescape, h]

theorem unescape_backslash_pair {d : Char} (h : isEscapable d = true) (t : Text) :
    unescape ('\\' :: d :: t) = d :: unescape t := by
  simp [unescape, h]

/-! ## Doubled backslashes resolve to the text itself -/

theorem unescape_escapeText (t : Text) : unescape (escapeText t) = t := by
  induction t with
  | nil => rfl
  | cons c t ih =>
      by_cases h : c = '\\'
      · subst h
        simpa [escapeText_cons] using
          (unescape_backslash_pair (d := '\\') rfl (escapeText t)).trans (by rw [ih])
      · simp [escapeText_cons, h, unescape_cons_of_ne h, ih]

end Stencil.Markup
