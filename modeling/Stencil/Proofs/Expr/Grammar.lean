import Stencil.Expr.Parser

/-!
# The grammar of expressions

`Derivation σ ts v` derives the tokens `ts` from the symbol `σ` of the grammar, and `v`
is what they mean: a tree without ranges, or a part of one. There is one symbol for the
operands of each level of operators, and one for each kind of list. A level is a list of
operands of the tighter level with operators between them, folded from the left, so the
trees are those of operators that associate to the left; the operators before an operand
are applied from the right. The derivation of a template takes in derivations of its
interpolations, which are sources of their own.

Which tokens may follow a phrase without being part of it is a matter of ranks. A token
that goes on with a phrase has a rank, the looser the greater, and the phrases of a
symbol go on with tokens up to its `reach`.
-/

namespace Stencil.Expr

/-! ## Trees without ranges -/

/-- The range of trees whose ranges do not matter. -/
def nowhere : Span :=
  ⟨0, 0⟩

mutual

/-- The tree without its ranges. -/
def Tree.erase : Tree → Tree
  | .undefined _ => .undefined nowhere
  | .null _ => .null nowhere
  | .bool _ b => .bool nowhere b
  | .number _ x => .number nowhere x
  | .string _ t => .string nowhere t
  | .template _ parts => .template nowhere (eraseParts parts)
  | .name _ t => .name nowhere t
  | .array _ items => .array nowhere (eraseItems items)
  | .object _ properties => .object nowhere (eraseProperties properties)
  | .member _ object property optional => .member nowhere object.erase property optional
  | .index _ object key optional => .index nowhere object.erase key.erase optional
  | .call _ callee args => .call nowhere callee.erase (eraseItems args)
  | .arrow _ params body => .arrow nowhere params body.erase
  | .unary _ op operand => .unary nowhere op operand.erase
  | .binary _ op lhs rhs => .binary nowhere op lhs.erase rhs.erase
  | .conditional _ test consequent alternate =>
      .conditional nowhere test.erase consequent.erase alternate.erase

/-- The parts of a template without their ranges. -/
def eraseParts : List Part → List Part
  | [] => []
  | .text t :: parts => .text t :: eraseParts parts
  | .code e :: parts => .code e.erase :: eraseParts parts

/-- Trees without their ranges. -/
def eraseItems : List Tree → List Tree
  | [] => []
  | e :: es => e.erase :: eraseItems es

/-- The properties of an object without their ranges. -/
def eraseProperties : List (Text × Tree) → List (Text × Tree)
  | [] => []
  | (key, e) :: properties => (key, e.erase) :: eraseProperties properties

end

/-- A link without its ranges. -/
def Parser.Link.erase : Parser.Link → Parser.Link
  | .member property optional => .member property optional
  | .index key optional => .index key.erase optional
  | .call args => .call (eraseItems args)

/-- A tree with a link attached to it. -/
def attachLink (object : Tree) : Parser.Link → Tree
  | .member property optional => .member nowhere object property optional
  | .index key optional => .index nowhere object key optional
  | .call args => .call nowhere object args

/-- Two trees joined by an operator. -/
def joinOperand (lhs : Tree) (rhs : BinaryOp × Tree) : Tree :=
  .binary nowhere rhs.1 lhs rhs.2

/-! ## Terminals -/

/-- An operator with one operand, as written. -/
def UnaryOp.token : UnaryOp → Token
  | not => .operator .not
  | neg => .operator .minus
  | plus => .operator .plus
  | typeof => .keyword .typeof

/-- An operator with two operands, as written. -/
def BinaryOp.written : BinaryOp → Operator
  | add => .plus
  | sub => .minus
  | mul => .star
  | div => .slash
  | rem => .percent
  | lt => .lt
  | le => .le
  | gt => .gt
  | ge => .ge
  | strictEq => .strictEq
  | strictNe => .strictNe
  | eq => .eq
  | ne => .ne
  | and => .and
  | or => .or
  | nullish => .nullish

/-- How loosely an operator joins its operands. -/
def BinaryOp.level : BinaryOp → Nat
  | mul | div | rem => 0
  | add | sub => 1
  | lt | le | gt | ge => 2
  | strictEq | strictNe | eq | ne => 3
  | and => 4
  | or | nullish => 5

/-- The tree that a token is on its own. -/
def Token.literal? : Token → Option Tree
  | .number x => some (.number nowhere x)
  | .string t => some (.string nowhere t)
  | .keyword .true => some (.bool nowhere true)
  | .keyword .false => some (.bool nowhere false)
  | .keyword .null => some (.null nowhere)
  | .keyword .undefined => some (.undefined nowhere)
  | .name t => some (.name nowhere t)
  | _ => none

/-- The key that a token stands for. -/
def Token.key? : Token → Option Text
  | .name t => some t
  | .string t => some t
  | .number x => some (Number.format x)
  | _ => none

/-- Tokens between two marks. -/
def enclosed (opening : Mark) (ts : List Token) (closing : Mark) : List Token :=
  .mark opening :: (ts ++ [.mark closing])

/-! ## Symbols -/

/-- What is repeated without commas. -/
inductive Piece where
  | link
  /-- An operator of a level and an operand of the tighter level. -/
  | join (level : Nat)

/-- What is listed with commas. -/
inductive Entry where
  | item
  | property
  | name

/-- The symbols of the grammar. -/
inductive Symbol where
  | expression
  | params
  /-- Operands of the operators of a level; `operand 0` is an operand with the operators
  before it. -/
  | operand (level : Nat)
  | chain
  | atom
  | template
  | piece (p : Piece)
  | pieces (p : Piece)
  | entry (e : Entry)
  | entries (e : Entry)
  /-- What follows an entry in a list. -/
  | more (e : Entry)

/-- What a piece means. -/
abbrev Piece.Value : Piece → Type
  | link => Parser.Link
  | join _ => BinaryOp × Tree

/-- What an entry means. -/
abbrev Entry.Value : Entry → Type
  | item => Tree
  | property => Text × Tree
  | name => Text

/-- What the phrases of a symbol mean. -/
abbrev Symbol.Value : Symbol → Type
  | expression | operand _ | chain | atom | template => Tree
  | params => List Text
  | piece p => p.Value
  | pieces p => List p.Value
  | entry e => e.Value
  | entries e | more e => List e.Value

/-! ## Derivations -/

/-- Derivations of tokens from a symbol, with what they mean. -/
inductive Derivation : (σ : Symbol) → List Token → σ.Value → Type where
  | arrow {ts us : List Token} {names : List Text} {body : Tree}
      (params : Derivation .params ts names) (inner : Derivation .expression us body) :
      Derivation .expression (ts ++ .mark .arrow :: us) (.arrow nowhere names body)
  | disjunction {ts : List Token} {e : Tree} (operand : Derivation (.operand 6) ts e) :
      Derivation .expression ts e
  | conditional {ts us vs : List Token} {test consequent alternate : Tree}
      (first : Derivation (.operand 6) ts test) (second : Derivation .expression us consequent)
      (third : Derivation .expression vs alternate) :
      Derivation .expression (ts ++ .mark .question :: (us ++ .mark .colon :: vs))
        (.conditional nowhere test consequent alternate)
  -- parameters
  | single (t : Text) : Derivation .params [.name t] [t]
  | several {ts : List Token} {names : List Text}
      (list : Derivation (.entries .name) ts names) :
      Derivation .params (enclosed .parenOpen ts .parenClose) names
  -- operands
  | joined {level : Nat} {ts us : List Token} {e : Tree} {others : List (BinaryOp × Tree)}
      (first : Derivation (.operand level) ts e)
      (rest : Derivation (.pieces (.join level)) us others) :
      Derivation (.operand (level + 1)) (ts ++ us) (others.foldl joinOperand e)
  | prefixed {ts : List Token} {e : Tree} (op : UnaryOp)
      (operand : Derivation (.operand 0) ts e) :
      Derivation (.operand 0) (op.token :: ts) (.unary nowhere op e)
  | bare {ts : List Token} {e : Tree} (chain : Derivation .chain ts e) :
      Derivation (.operand 0) ts e
  | chain {ts us : List Token} {e : Tree} {links : List Parser.Link}
      (first : Derivation .atom ts e) (rest : Derivation (.pieces .link) us links) :
      Derivation .chain (ts ++ us) (links.foldl attachLink e)
  -- atoms
  | literal {t : Token} {e : Tree} (h : t.literal? = some e) : Derivation .atom [t] e
  | template {ts : List Token} {e : Tree} (parts : Derivation .template ts e) :
      Derivation .atom ts e
  | parenthesized {ts : List Token} {e : Tree} (inner : Derivation .expression ts e) :
      Derivation .atom (enclosed .parenOpen ts .parenClose) e
  | array {ts : List Token} {items : List Tree} (list : Derivation (.entries .item) ts items) :
      Derivation .atom (enclosed .bracketOpen ts .bracketClose) (.array nowhere items)
  | object {ts : List Token} {properties : List (Text × Tree)}
      (list : Derivation (.entries .property) ts properties) :
      Derivation .atom (enclosed .braceOpen ts .braceClose) (.object nowhere properties)
  -- templates
  | noParts : Derivation .template [.template []] (.template nowhere [])
  | textPart {chunks : List Chunk} {parts : List Part} (t : Text)
      (rest : Derivation .template [.template chunks] (.template nowhere parts)) :
      Derivation .template [.template (.text t :: chunks)]
        (.template nowhere (.text t :: parts))
  | codePart {source : Text} {offset : Nat} {lexemes : List Lexeme} {e : Tree}
      {chunks : List Chunk} {parts : List Part} (h : lex source offset = .ok lexemes)
      (inner : Derivation .expression (lexemes.map Lexeme.token) e)
      (rest : Derivation .template [.template chunks] (.template nowhere parts)) :
      Derivation .template [.template (.code source offset :: chunks)]
        (.template nowhere (.code e :: parts))
  -- pieces
  | member (t : Text) : Derivation (.piece .link) [.mark .dot, .name t] (.member t false)
  | optionalMember (t : Text) :
      Derivation (.piece .link) [.mark .optionalDot, .name t] (.member t true)
  | index {ts : List Token} {key : Tree} (inner : Derivation .expression ts key) :
      Derivation (.piece .link) (enclosed .bracketOpen ts .bracketClose) (.index key false)
  | optionalIndex {ts : List Token} {key : Tree} (inner : Derivation .expression ts key) :
      Derivation (.piece .link) (.mark .optionalDot :: enclosed .bracketOpen ts .bracketClose)
        (.index key true)
  | call {ts : List Token} {args : List Tree} (list : Derivation (.entries .item) ts args) :
      Derivation (.piece .link) (enclosed .parenOpen ts .parenClose) (.call args)
  | join {level : Nat} {ts : List Token} {e : Tree} (op : BinaryOp) (h : op.level = level)
      (operand : Derivation (.operand level) ts e) :
      Derivation (.piece (.join level)) (.operator op.written :: ts) (op, e)
  | noPieces (p : Piece) : Derivation (.pieces p) [] []
  | morePieces {p : Piece} {ts us : List Token} {v : p.Value} {vs : List p.Value}
      (first : Derivation (.piece p) ts v) (rest : Derivation (.pieces p) us vs) :
      Derivation (.pieces p) (ts ++ us) (v :: vs)
  -- lists
  | item {ts : List Token} {e : Tree} (inner : Derivation .expression ts e) :
      Derivation (.entry .item) ts e
  | property {t : Token} {k : Text} {ts : List Token} {e : Tree} (h : t.key? = some k)
      (inner : Derivation .expression ts e) :
      Derivation (.entry .property) (t :: .mark .colon :: ts) (k, e)
  | shorthand (t : Text) : Derivation (.entry .property) [.name t] (t, .name nowhere t)
  | name (t : Text) : Derivation (.entry .name) [.name t] t
  | noEntries (e : Entry) : Derivation (.entries e) [] []
  | firstEntry {e : Entry} {ts us : List Token} {v : e.Value} {vs : List e.Value}
      (first : Derivation (.entry e) ts v) (rest : Derivation (.more e) us vs) :
      Derivation (.entries e) (ts ++ us) (v :: vs)
  | ended (e : Entry) : Derivation (.more e) [] []
  | trailingComma (e : Entry) : Derivation (.more e) [.mark .comma] []
  | nextEntry {e : Entry} {ts us : List Token} {v : e.Value} {vs : List e.Value}
      (next : Derivation (.entry e) ts v) (rest : Derivation (.more e) us vs) :
      Derivation (.more e) (.mark .comma :: (ts ++ us)) (v :: vs)

/-- The tokens have a derivation. -/
def Derives (σ : Symbol) (ts : List Token) (v : σ.Value) : Prop :=
  Nonempty (Derivation σ ts v)

/-! ## Ranks -/

/-- How loosely a token goes on with what stands before it. Links go on with a chain,
and closing marks with nothing. -/
def Token.rank : Token → Nat
  | .mark .dot | .mark .optionalDot | .mark .bracketOpen | .mark .parenOpen => 1
  | .operator .star | .operator .slash | .operator .percent => 2
  | .operator .plus | .operator .minus => 3
  | .operator .lt | .operator .le | .operator .gt | .operator .ge => 4
  | .operator .strictEq | .operator .strictNe | .operator .eq | .operator .ne => 5
  | .operator .and => 6
  | .operator .or | .operator .nullish => 7
  | .mark .question => 8
  | .mark .arrow => 9
  | .mark .colon => 10
  | .mark .parenClose | .mark .bracketClose | .mark .braceClose => 12
  | _ => 11

theorem BinaryOp.rank_written (op : BinaryOp) :
    (Token.operator op.written).rank = op.level + 2 := by
  cases op <;> rfl

/-- The greatest rank of a token that could go on with a phrase. -/
def Symbol.reach : Symbol → Nat
  | expression | entry .item => 9
  | operand level | piece (.join level) => level + 1
  | pieces (.join level) => level + 2
  | chain | pieces .link => 1
  | atom | template | params | piece .link | entry .name => 0
  | entry .property => 10
  | entries _ | more _ => 11

/-- Nothing at the front of the tokens could go on with a phrase of the symbol. -/
def Symbol.EndsBefore (σ : Symbol) (ts : List Token) : Prop :=
  ∀ t ∈ ts.head?, σ.reach < t.rank

end Stencil.Expr
