import Stencil.Number.Digits
import Stencil.Number.Numeral

/-!
# Blanks, comments, strings and keys of TOML

Each reader takes something from the front of a text and gives what follows it,
or refuses. A newline is a line feed, with or without a carriage return before
it. Control characters may stand nowhere but a tab as a blank.
-/

namespace Stencil.Toml

def isSpace (c : Char) : Bool :=
  c = ' ' || c = '\t'

/-- Whether a character may stand in a comment or a literal string. -/
def isPrintable (c : Char) : Bool :=
  c = '\t' || ' ' ≤ c && c ≠ '\x7f'

def skipSpaces (t : Text) : Text :=
  t.dropWhile isSpace

def takeNewline? : Text → Option Text
  | '\n' :: t => some t
  | '\r' :: '\n' :: t => some t
  | _ => none

/-- What follows the end of a line at the start of a text: blanks, a comment, and
a newline or the end of the text. -/
def takeLineEnd? (t : Text) : Option Text :=
  let rest :=
    match skipSpaces t with
    | '#' :: t => t.dropWhile isPrintable
    | t => t
  match rest with
  | [] => some []
  | rest => takeNewline? rest

def skipTrivia : (comment : Bool) → Text → Text
  | _, [] => []
  | comment, c :: t =>
      if c = '\n' then skipTrivia false t
      else if c = '\r' && t.head? = some '\n' then skipTrivia false t
      else if comment then if isPrintable c then skipTrivia true t else c :: t
      else if isSpace c then skipTrivia false t
      else if c = '#' then skipTrivia true t
      else c :: t

/-! ## Strings -/

def hexChar? (ds : List Char) : Option Char := do
  let n := Number.ofDigits 16 (← ds.mapM (Number.digitValue? 16))
  if n.isValidChar then some (Char.ofNat n) else none

def shortEscape? : Char → Option Char
  | 'b' => some '\x08'
  | 't' => some '\t'
  | 'n' => some '\n'
  | 'f' => some '\x0c'
  | 'r' => some '\r'
  | '"' => some '"'
  | '\\' => some '\\'
  | _ => none

/-- An escape after its backslash: the character, and how many characters the
escape takes. -/
def escape? (t : Text) : Option (Char × Nat) :=
  match t with
  | 'u' :: t => if t.length < 4 then none else (hexChar? (t.take 4)).map (·, 5)
  | 'U' :: t => if t.length < 8 then none else (hexChar? (t.take 8)).map (·, 9)
  | c :: _ => (shortEscape? c).map (·, 1)
  | [] => none

def consString (c : Char) (s : Text × Text) : Text × Text :=
  (c :: s.1, s.2)

/-- The rest of a string on one line, after `skip` characters of an escape have
been passed over. In a string with double quotes a backslash starts an escape. -/
def takeString? (quote : Char) : (skip : Nat) → Text → Option (Text × Text)
  | _, [] => none
  | skip + 1, _ :: t => takeString? quote skip t
  | 0, c :: t =>
      if c = quote then some ([], t)
      else if c = '\\' && quote = '"' then
        match escape? t with
        | some (d, n) => (takeString? quote n t).map (consString d)
        | none => none
      else if isPrintable c then (takeString? quote 0 t).map (consString c)
      else none

/-- What the rest of a string over several lines does with the next characters. -/
inductive LineMode where
  | plain
  | skipping (n : Nat)
  /-- Passes over blanks and newlines. -/
  | trimming
deriving Repr, DecidableEq

/-- The quotes before the three that end a string, and what follows those. -/
def takeClosing? (quote : Char) (t : Text) : Option (Text × Text) :=
  let run := (t.takeWhile (· = quote)).length
  if run < 3 then none
  else
    let kept := min (run - 3) 2
    some (List.replicate kept quote, t.drop (kept + 3))

def takeLines? (quote : Char) : LineMode → Text → Option (Text × Text)
  | _, [] => none
  | .skipping (n + 1), _ :: t => takeLines? quote (.skipping n) t
  | mode, c :: t =>
      if mode = .trimming && (isSpace c || c = '\n' || c = '\r' && t.head? = some '\n') then
        takeLines? quote .trimming t
      else
        match takeClosing? quote (c :: t) with
        | some closing => some closing
        | none =>
            if c = '\\' && quote = '"' then
              match escape? t with
              | some (d, n) => (takeLines? quote (.skipping n) t).map (consString d)
              | none =>
                  if (takeNewline? (skipSpaces t)).isSome then takeLines? quote .trimming t
                  else none
            else if c = '\r' && t.head? = some '\n' then takeLines? quote .plain t
            else if c = '\n' || isPrintable c then (takeLines? quote .plain t).map (consString c)
            else none

def takeBlock? (quote : Char) (t : Text) : Option (Text × Text) :=
  takeLines? quote .plain ((takeNewline? t).getD t)

/-! ## Keys -/

def isKeyChar (c : Char) : Bool :=
  c.isAlphanum || c = '_' || c = '-'

def takeSimpleKey? (t : Text) : Option (Text × Text) :=
  match t with
  | '"' :: t => takeString? '"' 0 t
  | '\'' :: t => takeString? '\'' 0 t
  | t =>
      match t.takeWhile isKeyChar with
      | [] => none
      | key => some (key, t.dropWhile isKeyChar)

/-- A key with so many dots at most: its parts, the first one apart. -/
def takeKey? : (dots : Nat) → Text → Option ((Text × List Text) × Text)
  | dots, t => do
      let (first, rest) ← takeSimpleKey? (skipSpaces t)
      match skipSpaces rest, dots with
      | '.' :: rest, dots + 1 =>
          let ((second, others), rest) ← takeKey? dots rest
          some ((first, second :: others), rest)
      | '.' :: _, 0 => none
      | rest, _ => some ((first, []), rest)

end Stencil.Toml
