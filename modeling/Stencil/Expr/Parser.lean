import Stencil.Expr.Rule
import Stencil.Expr.Lexer
import Stencil.Expr.Tree

/-!
# Reading expressions

One rule for each level of the grammar, from an atom up to a whole expression.
Wherever an expression stands inside another, at least one token stands before
it; so the rules take the rule for inner expressions as an argument, and
`expression` ties the knot with the number of tokens as its bound.

The interpolations of a template are sources of their own, shorter than the
one around them. They are read by the reader that the rules are given, and a
failure in one ends the whole reading.
-/

namespace Stencil.Expr

/-- Reads the source of an interpolation, which stands at an offset. -/
abbrev SourceReader := Text → Nat → Except ExprError Tree

namespace Parser

open Rule

def name : Rule Text :=
  select fun
    | .name t => some t
    | _ => none

/-- A literal, or a name as a value. -/
def literal : Rule Tree :=
  (select fun
    | .number x => some fun s => Tree.number s x
    | .string t => some fun s => Tree.string s t
    | .keyword .true => some fun s => Tree.bool s true
    | .keyword .false => some fun s => Tree.bool s false
    | .keyword .null => some fun s => Tree.null s
    | .keyword .undefined => some fun s => Tree.undefined s
    | .name t => some fun s => Tree.name s t
    | _ => none).spanned.map fun (node, span) => node span

def templateParts (sub : SourceReader) : List Chunk → Except ExprError (List Part)
  | [] => .ok []
  | .text t :: chunks => do return .text t :: (← templateParts sub chunks)
  | .code source offset :: chunks => do
      let e ← sub source offset
      return .code e :: (← templateParts sub chunks)

def template (sub : SourceReader) : Rule Tree :=
  fun s r =>
    match (select fun | .template chunks => some chunks | _ => none).spanned s r with
    | (none, r) => (none, r)
    | (some ((chunks, span), after), r) =>
        match templateParts sub chunks with
        | .ok parts => (some (.template span parts, after), r)
        | .error e => (none, r.noteFailed after.position e)

def items (expr : Rule Tree) : Rule (List Tree) :=
  commaSeparated expr

def array (expr : Rule Tree) : Rule Tree :=
  (between .bracketOpen .bracketClose (items expr)).spanned.map fun (items, span) =>
    .array span items

/-- The key of a property: a name, a string or a number. -/
def key : Rule Text :=
  select fun
    | .name t => some t
    | .string t => some t
    | .number x => some (Number.format x)
    | _ => none

/-- A property of an object literal. A name alone stands for itself. -/
def property (expr : Rule Tree) : Rule (Text × Tree) :=
  ((key.andSkip (mark .colon)).both expr).orElse
    (name.spanned.map fun (t, span) => (t, .name span t))

def object (expr : Rule Tree) : Rule Tree :=
  (between .braceOpen .braceClose (commaSeparated (property expr))).spanned.map
    fun (properties, span) => .object span properties

def parenthesized (expr : Rule Tree) : Rule Tree :=
  between .parenOpen .parenClose expr

/-- What links are attached to. -/
def atom (sub : SourceReader) (expr : Rule Tree) : Rule Tree :=
  literal.orElse <| (template sub).orElse <| (parenthesized expr).orElse <|
    (array expr).orElse (object expr)

/-- What may follow an atom or another link. -/
inductive Link where
  | member (property : Text) (optional : Bool)
  | index (key : Tree) (optional : Bool)
  | call (args : List Tree)

def bracketed (expr : Rule Tree) : Rule Tree :=
  between .bracketOpen .bracketClose expr

def link (expr : Rule Tree) : Rule Link :=
  (((mark .dot).andThen name).map fun p => Link.member p false).orElse <|
  (((mark .optionalDot).andThen name).map fun p => Link.member p true).orElse <|
  (((mark .optionalDot).andThen (bracketed expr)).map fun k => Link.index k true).orElse <|
  ((bracketed expr).map fun k => Link.index k false).orElse <|
  (between .parenOpen .parenClose (items expr)).map Link.call

def attach (object : Tree) : Link × Span → Tree
  | (.member property optional, span) =>
      .member (object.span.upTo span) object property optional
  | (.index key optional, span) => .index (object.span.upTo span) object key optional
  | (.call args, span) => .call (object.span.upTo span) object args

def chain (sub : SourceReader) (expr : Rule Tree) : Rule Tree :=
  (atom sub expr).bind fun first =>
    (many (link expr).spanned).map fun links => links.foldl attach first

def unaryOperator : Rule UnaryOp :=
  select fun
    | .operator .not => some .not
    | .operator .minus => some .neg
    | .operator .plus => some .plus
    | .keyword .typeof => some .typeof
    | _ => none

def applyUnary (op : UnaryOp × Span) (operand : Tree) : Tree :=
  .unary (op.2.upTo operand.span) op.1 operand

/-- Operators before a chain, the last applied first. -/
def unary (sub : SourceReader) (expr : Rule Tree) : Rule Tree :=
  (many unaryOperator.spanned).bind fun ops =>
    (chain sub expr).map fun operand => ops.foldr applyUnary operand

def applyBinary (lhs : Tree) (rhs : BinaryOp × Tree) : Tree :=
  .binary (lhs.span.upTo rhs.2.span) rhs.1 lhs rhs.2

/-- Operands with operators of one level between them, joined from the left. -/
def joined (operator : Rule BinaryOp) (operand : Rule Tree) : Rule Tree :=
  operand.bind fun first =>
    (many (operator.both operand)).map fun others => others.foldl applyBinary first

def productOperator : Rule BinaryOp :=
  select fun
    | .operator .star => some .mul
    | .operator .slash => some .div
    | .operator .percent => some .rem
    | _ => none

def sumOperator : Rule BinaryOp :=
  select fun
    | .operator .plus => some .add
    | .operator .minus => some .sub
    | _ => none

def comparisonOperator : Rule BinaryOp :=
  select fun
    | .operator .lt => some .lt
    | .operator .le => some .le
    | .operator .gt => some .gt
    | .operator .ge => some .ge
    | _ => none

def equalityOperator : Rule BinaryOp :=
  select fun
    | .operator .strictEq => some .strictEq
    | .operator .strictNe => some .strictNe
    | .operator .eq => some .eq
    | .operator .ne => some .ne
    | _ => none

def andOperator : Rule BinaryOp :=
  (operator .and).map fun _ => .and

/-- The operators of the loosest level. -/
def orOperator : Rule BinaryOp :=
  select fun
    | .operator .or => some .or
    | .operator .nullish => some .nullish
    | _ => none

def disjunction (sub : SourceReader) (expr : Rule Tree) : Rule Tree :=
  joined orOperator <| joined andOperator <| joined equalityOperator <|
    joined comparisonOperator <| joined sumOperator <| joined productOperator <| unary sub expr

def branches (expr : Rule Tree) : Rule (Tree × Tree) :=
  (((mark .question).andThen expr).andSkip (mark .colon)).both expr

/-- A disjunction with the two branches that it may decide between. -/
def conditional (sub : SourceReader) (expr : Rule Tree) : Rule Tree :=
  ((disjunction sub expr).both (perhaps (branches expr))).map fun
    | (test, none) => test
    | (test, some (consequent, alternate)) =>
        .conditional (test.span.upTo alternate.span) test consequent alternate

/-- The parameters of a function: one name, or names in parentheses. -/
def params : Rule (List Text) :=
  (name.map fun t => [t]).orElse (between .parenOpen .parenClose (commaSeparated name))

def arrow (expr : Rule Tree) : Rule Tree :=
  ((params.andSkip (mark .arrow)).both expr).spanned.map fun ((params, body), span) =>
    .arrow span params body

/-- An expression, with the rule for the expressions inside it. A function comes
first, since its parameters read as an operand too. -/
def expressionWith (sub : SourceReader) (expr : Rule Tree) : Rule Tree :=
  (arrow expr).orElse (conditional sub expr)

/-- An expression of fewer than `bound` tokens. -/
def expression (sub : SourceReader) : (bound : Nat) → Rule Tree
  | 0 => fun _ r => (none, r)
  | bound + 1 => expressionWith sub (expression sub bound)

/-- The failure that a reach describes. At the end of the tokens it stands
between the end of the source and the end of the last token. -/
def failure (lexemes : List Lexeme) (stop : Nat) (r : Reach) : ExprError :=
  match r.obstacle with
  | .failed e => e
  | .expected what =>
      match lexemes[r.position]? with
      | some l => ⟨.malformed (.unexpected (some l.token) what), l.span⟩
      | none =>
          let last := lexemes.getLast?.elim stop fun l => l.span.stop
          ⟨.malformed (.unexpected none what), ⟨stop, last⟩⟩

/-- The expression that all the tokens are, with a source that ends at `stop`. -/
def parseTokens (sub : SourceReader) (lexemes : List Lexeme) (stop : Nat) :
    Except ExprError Tree :=
  let rule := (expression sub (lexemes.length + 1)).andSkip finish
  match rule ⟨lexemes, 0, stop⟩ Reach.start with
  | (some (e, _), _) => .ok e
  | (none, r) => .error (failure lexemes stop r)

/-- A failure as the template around its source reports it, without what was
expected. -/
def withoutExpected (e : ExprError) : ExprError :=
  match e.cause with
  | .malformed (.unexpected found _) => { e with cause := .malformed (.unexpected found []) }
  | _ => e

/-- Reads a source that stands at `base`. Interpolations nest fewer than `depth`
deep. -/
def parseNested : (depth : Nat) → SourceReader
  | 0, _, base => .error ⟨.malformed (.unexpected none []), ⟨base, base⟩⟩
  | depth + 1, source, base =>
      match lex source base with
      | .error e => .error e
      | .ok lexemes =>
          let sub source base := (parseNested depth source base).mapError withoutExpected
          parseTokens sub lexemes (base + Text.byteLength source)

end Parser

/-- Reads an expression whose source stands at byte `base`. -/
def parseAt (source : Text) (base : Nat) : Except ExprError Tree :=
  Parser.parseNested (source.length + 1) source base

def parse (source : Text) : Except ExprError Tree :=
  parseAt source 0

end Stencil.Expr
