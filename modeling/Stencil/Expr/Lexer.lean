import Stencil.Expr.Error

/-!
# Reading tokens

Tokens are read from the left, each as long as possible, with blanks between
them passed over. `readToken` reads the token that starts with a given
character and says how many characters after it belong to the token, so the
text always gets shorter.
-/

namespace Stencil.Expr.Lexer

def isBlank (c : Char) : Bool :=
  c = ' ' || c = '\t' || c = '\n' || c = '\r'

def isNameStart (c : Char) : Bool :=
  c.isAlpha || c = '_' || c = '$'

def isNameChar (c : Char) : Bool :=
  isNameStart c || c.isDigit

/-- The body of a string literal up to its quote, if it is closed, and otherwise
how many bytes belong to it. A backslash takes any character with it but a line
feed. -/
def stringBody (quote : Char) : Text → Text ⊕ Nat
  | [] => .inr 0
  | ['\\'] => .inr 0
  | '\\' :: c :: rest =>
      if c = '\n' then .inr 0
      else
        match stringBody quote rest with
        | .inl body => .inl ('\\' :: c :: body)
        | .inr n => .inr (1 + c.utf8Size + n)
  | c :: rest =>
      if c = quote then .inl []
      else
        match stringBody quote rest with
        | .inl body => .inl (c :: body)
        | .inr n => .inr (c.utf8Size + n)

def symbols : List (Text × Token) :=
  Operator.all.map (fun o => (o.text.toList, .operator o)) ++
    Mark.all.map (fun m => (m.text.toList, .mark m))

/-- The longest symbol at the start of a text. -/
def symbol? (t : Text) : Option (Text × Token) :=
  let found := symbols.filter fun s => (Text.dropHead? s.1 t).isSome
  found.foldl (fun best s =>
    match best with
    | some b => if b.1.length < s.1.length then some s else some b
    | none => some s) none

/-- The token that starts with the character `c` at `offset`, with the text
`rest` after it, and how many characters of that text belong to the token. -/
def readToken (offset : Nat) (c : Char) (rest : Text) : Except ExprError (Token × Nat) :=
  let fail (width : Nat) (m : Malformed) : Except ExprError (Token × Nat) :=
    .error ⟨.malformed m, ⟨offset, offset + width⟩⟩
  if isNameStart c then
    let more := rest.takeWhile isNameChar
    let word := c :: more
    .ok (match Keyword.ofText? word with | some k => .keyword k | none => .name word, more.length)
  else if c = '\'' || c = '"' then
    match stringBody c rest with
    | .inl body => .ok (.string (resolveEscapes body), body.length + 1)
    | .inr n => fail (1 + n) .unterminatedString
  else if c = '\x60' then
    match closing .template rest with
    | some (body, _) => .ok (.template (templateChunks (offset + 1) body), body.length + 1)
    | none => fail 1 .unterminatedTemplate
  else
    match Number.takeNumeral? (c :: rest) with
    | some (n, after) => .ok (.number n.value, rest.length - after.length)
    | none =>
        match symbol? (c :: rest) with
        | some (written, token) => .ok (token, written.length - 1)
        | none => fail c.utf8Size (.unexpectedCharacter c)

/-- The tokens of a text that stands at `offset`. -/
def lexFrom (offset : Nat) (t : Text) : Except ExprError (List Lexeme) :=
  match t with
  | [] => .ok []
  | c :: rest =>
      if isBlank c then lexFrom (offset + c.utf8Size) rest
      else
        match readToken offset c rest with
        | .error e => .error e
        | .ok (token, more) =>
            let stop := offset + c.utf8Size + Text.byteLength (rest.take more)
            match lexFrom stop (rest.drop more) with
            | .error e => .error e
            | .ok others => .ok (⟨token, ⟨offset, stop⟩⟩ :: others)
termination_by t.length
decreasing_by
  all_goals simp only [List.length_drop, List.length_cons]; omega

end Lexer

/-- The tokens of an expression whose source stands at byte `base`. -/
def lex (source : Text) (base : Nat) : Except ExprError (List Lexeme) :=
  Lexer.lexFrom base source

end Stencil.Expr
