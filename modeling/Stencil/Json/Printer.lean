import Stencil.Json.Basic
import Stencil.Number.Layout

/-!
# JSON text

`Json.compact` writes a value without blanks, `Json.pretty` on several lines
with a given indentation. In a string only the quote, the backslash and the
control characters below the blank are escaped.
-/

namespace Stencil.Json

/-- The escape of a control character that has no short one. -/
def controlEscape (c : Char) : Text :=
  let ds := Number.numeral 16 c.toNat
  ['\\', 'u'] ++ Number.zeros (4 - ds.length) ++ ds

def escapeChar (c : Char) : Text :=
  if c = '"' then ['\\', '"']
  else if c = '\\' then ['\\', '\\']
  else if c = '\x08' then ['\\', 'b']
  else if c = '\x0c' then ['\\', 'f']
  else if c = '\n' then ['\\', 'n']
  else if c = '\r' then ['\\', 'r']
  else if c = '\t' then ['\\', 't']
  else if c < ' ' then controlEscape c
  else [c]

def quote (t : Text) : Text :=
  '"' :: t.flatMap escapeChar ++ ['"']

def numberText : JsonNumber → Text
  | .int n => Number.decimalInt n
  | .float x => Number.Layout.json.write x.val

def boolText (b : Bool) : Text :=
  if b then "true".toList else "false".toList

mutual

/-- The text of a value without blanks. -/
def compact : Json → Text
  | null => "null".toList
  | bool b => boolText b
  | number n => numberText n
  | string t => quote t
  | array items => '[' :: compactItems items ++ [']']
  | object fields => '{' :: compactFields fields ++ ['}']

def compactItems : List Json → Text
  | [] => []
  | [x] => compact x
  | x :: y :: rest => compact x ++ ',' :: compactItems (y :: rest)

def compactFields : List (Text × Json) → Text
  | [] => []
  | [(k, v)] => quote k ++ ':' :: compact v
  | (k, v) :: f :: rest => quote k ++ ':' :: compact v ++ ',' :: compactFields (f :: rest)

end

def newLine (indent : Text) (depth : Nat) : Text :=
  '\n' :: (List.replicate depth indent).flatten

mutual

/-- The text of a value that stands `depth` containers deep. -/
def prettyAt (indent : Text) (depth : Nat) : Json → Text
  | null => "null".toList
  | bool b => boolText b
  | number n => numberText n
  | string t => quote t
  | array [] => ['[', ']']
  | array (x :: xs) =>
      '[' :: prettyItems indent (depth + 1) (x :: xs) ++ newLine indent depth ++ [']']
  | object [] => ['{', '}']
  | object (f :: fs) =>
      '{' :: prettyFields indent (depth + 1) (f :: fs) ++ newLine indent depth ++ ['}']

def prettyItems (indent : Text) (depth : Nat) : List Json → Text
  | [] => []
  | [x] => newLine indent depth ++ prettyAt indent depth x
  | x :: y :: rest =>
      newLine indent depth ++ prettyAt indent depth x ++
        ',' :: prettyItems indent depth (y :: rest)

def prettyFields (indent : Text) (depth : Nat) : List (Text × Json) → Text
  | [] => []
  | [(k, v)] => newLine indent depth ++ quote k ++ [':', ' '] ++ prettyAt indent depth v
  | (k, v) :: f :: rest =>
      newLine indent depth ++ quote k ++ [':', ' '] ++ prettyAt indent depth v ++
        ',' :: prettyFields indent depth (f :: rest)

end

def pretty (indent : Text) (v : Json) : Text :=
  prettyAt indent 0 v

end Stencil.Json
