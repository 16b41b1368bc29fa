import Stencil.Expr.Error

/-!
# Rules of a grammar with ordered choice

A `Rule` reads something from the front of the tokens that are left, or fails.
Besides, it keeps the *reach* up to date: the furthest token at which anything
failed, and what was expected there. Whatever succeeds later, the reach is what
a syntax error reports.

Choices are ordered: `orElse` runs its second rule only where the first failed,
from the same place. A rule that is repeated reads at least one token each time,
so the number of tokens left bounds the repetitions.
-/

namespace Stencil.Expr

structure Remaining where
  lexemes : List Lexeme
  position : Nat
  /-- Where the last token read ends. -/
  stop : Nat

/-- Why the furthest token could not be read. -/
inductive Obstacle where
  | expected (what : List Expectation)
  /-- An interpolation in it failed. -/
  | failed (e : ExprError)

/-- The furthest failure so far. -/
structure Reach where
  position : Nat
  obstacle : Obstacle

/-- A list with the new ones of another at its end. -/
def mergeExpected (xs ys : List Expectation) : List Expectation :=
  ys.foldl (fun xs y => if xs.contains y then xs else xs ++ [y]) xs

namespace Reach

def start : Reach :=
  ⟨0, .expected []⟩

/-- Notes a failure. A further one replaces the reach, and one at the same token
adds to what was expected. -/
def note (r : Reach) (position : Nat) (what : List Expectation) : Reach :=
  if r.position < position then ⟨position, .expected what⟩
  else if position < r.position then r
  else
    match r.obstacle with
    | .expected old => ⟨position, .expected (mergeExpected old what)⟩
    | .failed _ => r

/-- Notes the failure of an interpolation, unless the reach is as far already. -/
def noteFailed (r : Reach) (position : Nat) (e : ExprError) : Reach :=
  if r.position < position then ⟨position, .failed e⟩
  else if position < r.position then r
  else
    match r.obstacle with
    | .expected _ => ⟨position, .failed e⟩
    | .failed _ => r

end Reach

/-- Reads something from the tokens that are left, or fails. -/
abbrev Rule (α : Type) := Remaining → Reach → Option (α × Remaining) × Reach

namespace Rule

variable {α β : Type}

def pure (a : α) : Rule α :=
  fun s r => (some (a, s), r)

def bind (p : Rule α) (f : α → Rule β) : Rule β :=
  fun s r =>
    match p s r with
    | (some (a, s), r) => f a s r
    | (none, r) => (none, r)

def map (f : α → β) (p : Rule α) : Rule β :=
  p.bind fun a => pure (f a)

def andSkip (p : Rule α) (q : Rule β) : Rule α :=
  p.bind fun a => q.bind fun _ => pure a

def andThen (p : Rule α) (q : Rule β) : Rule β :=
  p.bind fun _ => q

def both (p : Rule α) (q : Rule β) : Rule (α × β) :=
  p.bind fun a => q.map fun b => (a, b)

def orElse (p q : Rule α) : Rule α :=
  fun s r =>
    match p s r with
    | (some x, r) => (some x, r)
    | (none, r) => q s r

def perhaps (p : Rule α) : Rule (Option α) :=
  (p.map some).orElse (pure none)

def manyUpTo (p : Rule α) : (count : Nat) → Rule (List α)
  | 0 => pure []
  | count + 1 => fun s r =>
      match p s r with
      | (none, r) => (some ([], s), r)
      | (some (a, s), r) => (manyUpTo p count).map (a :: ·) s r

def many (p : Rule α) : Rule (List α) :=
  fun s => manyUpTo p (s.lexemes.length + 1) s

/-- What is read, with the range from its first token through its last. -/
def spanned (p : Rule α) : Rule (α × Span) :=
  fun s r =>
    match p s r with
    | (none, r) => (none, r)
    | (some (a, after), r) =>
        let start := s.lexemes.head?.elim s.stop fun l => l.span.start
        (some ((a, ⟨start, after.stop⟩), after), r)

/-- Reads the next token if the function has a value for it. A failure says
what was expected. -/
def token (what : List Expectation) (f : Token → Option α) : Rule α :=
  fun s r =>
    match s.lexemes with
    | [] => (none, r.note s.position what)
    | l :: rest =>
        match f l.token with
        | some a => (some (a, ⟨rest, s.position + 1, l.span.stop⟩), r)
        | none => (none, r.note s.position what)

/-- Reads the next token if the function has a value for it. A failure does not
say what was expected. -/
def select (f : Token → Option α) : Rule α :=
  token [] f

def mark (m : Mark) : Rule Unit :=
  token [.mark m] fun
    | .mark n => if m = n then some () else none
    | _ => none

def operator (o : Operator) : Rule Unit :=
  token [.operator o] fun
    | .operator p => if o = p then some () else none
    | _ => none

def finish : Rule Unit :=
  fun s r =>
    match s.lexemes with
    | [] => (some ((), s), r)
    | _ :: _ => (none, r.note s.position [.finish])

def between (opening closing : Mark) (p : Rule α) : Rule α :=
  ((mark opening).andThen p).andSkip (mark closing)

/-- Reads things with commas between them; one more comma may follow the last. -/
def commaSeparated (p : Rule α) : Rule (List α) :=
  (p.bind fun first =>
    (many ((mark .comma).andThen p)).bind fun others =>
      (perhaps (mark .comma)).map fun _ => first :: others).orElse (pure [])

end Rule

end Stencil.Expr
