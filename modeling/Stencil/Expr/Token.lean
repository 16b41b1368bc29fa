import Stencil.Expr.Literal
import Stencil.Number.Layout

/-!
# Tokens of the expression language
-/

namespace Stencil.Expr

inductive Keyword where
  | true
  | false
  | null
  | undefined
  | typeof
deriving Repr, DecidableEq

inductive Operator where
  | strictEq
  | strictNe
  | eq
  | ne
  | le
  | ge
  | lt
  | gt
  | and
  | or
  | nullish
  | not
  | plus
  | minus
  | star
  | slash
  | percent
deriving Repr, DecidableEq

inductive Mark where
  | arrow
  | optionalDot
  | question
  | parenOpen
  | parenClose
  | bracketOpen
  | bracketClose
  | braceOpen
  | braceClose
  | comma
  | colon
  | dot
deriving Repr, DecidableEq

inductive Token where
  | keyword (k : Keyword)
  | operator (o : Operator)
  | mark (m : Mark)
  | name (t : Text)
  | number (x : Float)
  | string (t : Text)
  | template (chunks : List Chunk)

structure Lexeme where
  token : Token
  span : Span

namespace Keyword

def text : Keyword → String
  | true => "true"
  | false => "false"
  | null => "null"
  | undefined => "undefined"
  | typeof => "typeof"

def all : List Keyword := [true, false, null, undefined, typeof]

def ofText? (t : Text) : Option Keyword :=
  all.find? fun k => k.text.toList = t

end Keyword

namespace Operator

def text : Operator → String
  | strictEq => "==="
  | strictNe => "!=="
  | eq => "=="
  | ne => "!="
  | le => "<="
  | ge => ">="
  | lt => "<"
  | gt => ">"
  | and => "&&"
  | or => "||"
  | nullish => "??"
  | not => "!"
  | plus => "+"
  | minus => "-"
  | star => "*"
  | slash => "/"
  | percent => "%"

def all : List Operator :=
  [strictEq, strictNe, eq, ne, le, ge, lt, gt, and, or, nullish, not, plus, minus, star, slash,
   percent]

end Operator

namespace Mark

def text : Mark → String
  | arrow => "=>"
  | optionalDot => "?."
  | question => "?"
  | parenOpen => "("
  | parenClose => ")"
  | bracketOpen => "["
  | bracketClose => "]"
  | braceOpen => "\x7b"
  | braceClose => "\x7d"
  | comma => ","
  | colon => ":"
  | dot => "."

def all : List Mark :=
  [arrow, optionalDot, question, parenOpen, parenClose, bracketOpen, bracketClose, braceOpen,
   braceClose, comma, colon, dot]

end Mark

def inQuotes (t : Text) : Text :=
  '\'' :: t ++ ['\'']

/-- A token in the words of a syntax error. -/
def Token.describe : Token → Text
  | keyword k => inQuotes k.text.toList
  | operator o => inQuotes o.text.toList
  | mark m => inQuotes m.text.toList
  | name t => "identifier ".toList ++ inQuotes t
  | number x => "number ".toList ++ Number.Layout.plain.write x
  | string t => "string \"".toList ++ t ++ ['"']
  | template _ => "template literal".toList

end Stencil.Expr
