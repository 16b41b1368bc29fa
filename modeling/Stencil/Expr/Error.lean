import Stencil.Expr.Token
import Stencil.Json.Reader

/-!
# What goes wrong in an expression

An expression fails while it is read, or while it is evaluated. The cause is a
value, its wording one function, and the span says where in the source it was.
-/

namespace Stencil.Expr

/-- What a reader would have accepted instead of what it found. -/
inductive Expectation where
  | mark (m : Mark)
  | operator (o : Operator)
  | finish
deriving Repr, DecidableEq

inductive Malformed where
  | unexpectedCharacter (c : Char)
  | unterminatedString
  | unterminatedTemplate
  /-- A token, or the end of the source, where the expression cannot go on. -/
  | unexpected (found : Option Token) (expected : List Expectation)

inductive Trouble where
  | notDefined (name : Text)
  | notAFunction (what : Text)
  | noProperties (of key : Text)
  | stepsExhausted (budget : Nat)
  | callsTooDeep (limit : Nat)
  | notIterable (kind : Text)
  | emptyReduce
  | invalidCount (count : Float)
  | invalidLength
  | invalidPlaces
  | invalidBase
  | invalidJson (e : Json.ReadError)
  /-- Calls among built-in methods nest beyond the allowance computed for them. -/
  | methodsTooDeep

inductive Cause where
  | malformed (m : Malformed)
  | runtime (t : Trouble)

structure ExprError where
  cause : Cause
  span : Span

def Expectation.describe : Expectation → Text
  | mark m => inQuotes m.text.toList
  | operator o => inQuotes o.text.toList
  | finish => "end of expression".toList

def Malformed.message : Malformed → Text
  | unexpectedCharacter c => "Unexpected character ".toList ++ inQuotes [c]
  | unterminatedString => "Unterminated string literal".toList
  | unterminatedTemplate => "Unterminated template literal".toList
  | unexpected found _ =>
      "Unexpected ".toList ++ (found.map Token.describe).getD "end of expression".toList

def Trouble.message : Trouble → Text
  | notDefined name => name ++ " is not defined".toList
  | notAFunction what => what ++ " is not a function".toList
  | noProperties of key =>
      "Cannot read properties of ".toList ++ of ++ " (reading ".toList ++ inQuotes key ++ [')']
  | stepsExhausted budget =>
      "step budget of ".toList ++ Number.decimal budget ++ " exhausted".toList
  | callsTooDeep limit =>
      "maximum call depth of ".toList ++ Number.decimal limit ++ " exceeded".toList
  | notIterable kind => kind ++ " is not iterable".toList
  | emptyReduce => "Reduce of empty array with no initial value".toList
  | invalidCount count => "Invalid count value: ".toList ++ Number.format count
  | invalidLength => "Invalid string length".toList
  | invalidPlaces => "toFixed() digits argument must be between 0 and 100".toList
  | invalidBase => "toString() radix must be between 2 and 36".toList
  | invalidJson e => "JSON.parse: ".toList ++ e.message.toList
  | methodsTooDeep => "methods nest too deep".toList

namespace ExprError

def message (e : ExprError) : Text :=
  match e.cause with
  | .malformed m => m.message
  | .runtime t => t.message

/-- What was expected, in the order in which it was tried. -/
def expected (e : ExprError) : List Text :=
  match e.cause with
  | .malformed (.unexpected _ expected) => expected.map Expectation.describe
  | _ => []

def runtime (span : Span) (t : Trouble) : ExprError :=
  ⟨.runtime t, span⟩

end ExprError

end Stencil.Expr
