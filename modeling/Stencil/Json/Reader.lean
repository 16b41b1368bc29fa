import Stencil.Json.Basic
import Stencil.Number.Numeral

/-!
# Reading JSON

`Json.read` accepts one JSON value with blanks around it. A refusal says what
was wrong and where: the line, and the bytes of that line up to and including
the offending one.

Integers that fit a signed or an unsigned word stay integers. Every other
number is floating: its digits are collected in a word, which is then scaled by
a power of ten. Containers nest at most `nestingLimit` deep.
-/

namespace Stencil.Json

inductive ReadCause where
  | endInValue
  | endInList
  | endInObject
  | endInString
  | expectedValue
  | expectedWord
  | expectedColon
  | expectedCommaOrBracket
  | expectedCommaOrBrace
  | keyNotString
  | trailingComma
  | trailingCharacters
  | invalidNumber
  | numberOutOfRange
  | invalidEscape
  | loneSurrogate
  | unexpectedEndOfEscape
  | controlCharacter
  | tooDeep
deriving Repr, DecidableEq

def ReadCause.message : ReadCause → String
  | endInValue => "EOF while parsing a value"
  | endInList => "EOF while parsing a list"
  | endInObject => "EOF while parsing an object"
  | endInString => "EOF while parsing a string"
  | expectedValue => "expected value"
  | expectedWord => "expected ident"
  | expectedColon => "expected `:`"
  | expectedCommaOrBracket => "expected `,` or `]`"
  | expectedCommaOrBrace => "expected `,` or `\x7d`"
  | keyNotString => "key must be a string"
  | trailingComma => "trailing comma"
  | trailingCharacters => "trailing characters"
  | invalidNumber => "invalid number"
  | numberOutOfRange => "number out of range"
  | invalidEscape => "invalid escape"
  | loneSurrogate => "lone leading surrogate in hex escape"
  | unexpectedEndOfEscape => "unexpected end of hex escape"
  | controlCharacter => "control character (\\u0000-\\u001F) found while parsing a string"
  | tooDeep => "recursion limit exceeded"

structure ReadError where
  cause : ReadCause
  line : Nat
  column : Nat
deriving Repr, DecidableEq

def ReadError.message (e : ReadError) : String :=
  e.cause.message ++ " at line " ++ toString e.line ++ " column " ++ toString e.column

/-- What is left of a text, and how many of its bytes have been read. -/
structure Input where
  rest : Text
  index : Nat
deriving Repr, DecidableEq

namespace Input

/-- The byte position after the next byte, or the end of the text. -/
def ahead (i : Input) : Nat :=
  if i.rest = [] then i.index else i.index + 1

def next (i : Input) : Input :=
  match i.rest with
  | [] => i
  | c :: rest => ⟨rest, i.index + c.utf8Size⟩

def skip (n : Nat) (i : Input) : Input :=
  ⟨i.rest.drop n, i.index + Text.byteLength (i.rest.take n)⟩

def isBlank (c : Char) : Bool :=
  c = ' ' || c = '\n' || c = '\t' || c = '\r'

def skipBlanks (i : Input) : Input :=
  i.skip (i.rest.takeWhile isBlank).length

end Input

abbrev Fault := ReadCause × Nat

/-- A fault at the bytes read so far. -/
def failHere {α : Type} (cause : ReadCause) (i : Input) : Except Fault α :=
  .error (cause, i.index)

/-- A fault at the next byte. -/
def failNext {α : Type} (cause : ReadCause) (i : Input) : Except Fault α :=
  .error (cause, i.ahead)

/-! ## Numbers -/

/-- Digits that still fit a word after those of `n`, and the input after them. -/
def collect (limit : Nat) : (n : Nat) → Text → Nat × Nat
  | n, [] => (n, 0)
  | n, c :: rest =>
      match Number.digitValue? 10 c with
      | some d =>
          if n * 10 + d ≤ limit then
            let (m, count) := collect limit (n * 10 + d) rest
            (m, count + 1)
          else (n, 0)
      | none => (n, 0)

def powerOfTen (n : Nat) : Float :=
  Number.ofNat (Nat.pow 10 n)

/-- The largest exponent of ten that one step of scaling covers. -/
def scaleStep : Nat := 308

/-- Scales a number by a negative power of ten, `fuel` steps at most. -/
def scaleDown : (fuel : Nat) → Float → Nat → Float
  | 0, x, _ => x
  | fuel + 1, x, n =>
      if n ≤ scaleStep then x / powerOfTen n
      else if x == Number.ofNat 0 then x
      else scaleDown fuel (x / powerOfTen scaleStep) (n - scaleStep)

/-- A number scaled by a power of ten, if it stays finite. -/
def scale? (x : Float) (exponent : Int) : Option Float :=
  if exponent < 0 then
    some (scaleDown (exponent.natAbs / scaleStep + 1) x exponent.natAbs)
  else if exponent.natAbs ≤ scaleStep then
    let y := x * powerOfTen exponent.natAbs
    if Number.isFinite y then some y else none
  else if x == Number.ofNat 0 then some x
  else none

def floatNumber (x : Float) (i : Input) : Except Fault (JsonNumber × Input) :=
  match Number.finite? x with
  | some x => .ok (.float x, i)
  | none => failHere .numberOutOfRange i

def floating (negative : Bool) (significand : Nat) (exponent : Int) (i : Input) :
    Except Fault (JsonNumber × Input) :=
  match scale? (Number.ofNat significand) exponent with
  | some x => floatNumber (Number.negateIf negative x) i
  | none => failHere .numberOutOfRange i

/-- The largest exponent that is read exactly. -/
def exponentLimit : Nat := Nat.pow 2 31 - 1

def digitCount (i : Input) : Nat :=
  (i.rest.takeWhile Number.isDigit).length

def readExponent (negative : Bool) (significand : Nat) (exponent : Int) (i : Input) :
    Except Fault (JsonNumber × Input) :=
  let i := i.next
  let (down, i) :=
    match i.rest with
    | '+' :: _ => (false, i.next)
    | '-' :: _ => (true, i.next)
    | _ => (false, i)
  match i.rest with
  | [] => failHere .endInValue i
  | c :: _ =>
      if !Number.isDigit c then .error (.invalidNumber, i.ahead)
      else
        let (power, count) := collect exponentLimit 0 i.rest
        let after := i.skip count
        if digitCount after = 0 then
          floating negative significand (if down then exponent - power else exponent + power) after
        else if significand ≠ 0 && !down then failHere .numberOutOfRange after.next
        else
          floatNumber (Number.negateIf negative (Number.ofNat 0)) (after.skip (digitCount after))

def readFloatEnd (negative : Bool) (significand : Nat) (exponent : Int) (i : Input) :
    Except Fault (JsonNumber × Input) :=
  match i.rest with
  | 'e' :: _ | 'E' :: _ => readExponent negative significand exponent i
  | _ => floating negative significand exponent i

/-- The fraction of a number, from its point on. Digits that no longer fit the
word are passed over. -/
def readFraction (negative : Bool) (significand : Nat) (exponent : Int) (i : Input) :
    Except Fault (JsonNumber × Input) :=
  let i := i.next
  if digitCount i = 0 then
    failNext (if i.rest = [] then .endInValue else .invalidNumber) i
  else
    let (significand, count) := collect Number.wordLimit significand i.rest
    readFloatEnd negative significand (exponent - count) (i.skip (digitCount i))

def integer (negative : Bool) (significand : Nat) (i : Input) : Except Fault (JsonNumber × Input) :=
  if !negative then .ok (.int significand, i)
  else if significand = 0 || Nat.pow 2 63 < significand then floatNumber (-(Number.ofNat significand)) i
  else .ok (.int (-significand), i)

def readNumber (negative : Bool) (i : Input) : Except Fault (JsonNumber × Input) :=
  match i.rest with
  | [] => failHere .endInValue i
  | c :: rest =>
      if c = '0' && rest.head?.any Number.isDigit then failNext .invalidNumber i.next
      else if !Number.isDigit c then .error (.invalidNumber, i.ahead)
      else
        let (significand, count) := collect Number.wordLimit 0 i.rest
        let excess := digitCount i - count
        let i := i.skip (digitCount i)
        match i.rest with
        | '.' :: _ => readFraction negative significand excess i
        | 'e' :: _ | 'E' :: _ => readExponent negative significand excess i
        | _ =>
            if excess = 0 then integer negative significand i
            else floating negative significand excess i

/-! ## Strings -/

def readHex4 (i : Input) : Except Fault (Nat × Input) :=
  match i.rest.take 4 |>.mapM (Number.digitValue? 16) with
  | some [a, b, c, d] => .ok (Number.ofDigits 16 [a, b, c, d], i.skip 4)
  | _ =>
      let left := Text.byteLength i.rest
      if left < 4 then .error (.endInString, i.index + left)
      else .error (.invalidEscape, i.index + 4)

/-- Whether a code unit is the first of a pair. -/
def isLeading (n : Nat) : Bool :=
  0xD800 ≤ n && n ≤ 0xDBFF

/-- Whether a code unit is the second of a pair. -/
def isTrailing (n : Nat) : Bool :=
  0xDC00 ≤ n && n ≤ 0xDFFF

def expectInPair (c : Char) (i : Input) : Except Fault Input :=
  match i.rest with
  | [] => failHere .endInString i
  | d :: _ => if c = d then .ok i.next else failNext .unexpectedEndOfEscape i

/-- The character of an escape, after its `u`. -/
def readCodeUnits (i : Input) : Except Fault (Char × Input) := do
  let (n, i) ← readHex4 i
  if isTrailing n then failHere .loneSurrogate i
  else if !isLeading n then return (Char.ofNat n, i)
  else
    let i ← expectInPair '\\' i
    let i ← expectInPair 'u' i
    let (m, i) ← readHex4 i
    if !isTrailing m then failHere .loneSurrogate i
    else return (Char.ofNat (0x10000 + (n - 0xD800) * 0x400 + (m - 0xDC00)), i)

def readEscape (i : Input) : Except Fault (Char × Input) :=
  match i.rest with
  | [] => failHere .endInString i
  | c :: _ =>
      let plain (d : Char) : Except Fault (Char × Input) := .ok (d, i.next)
      match c with
      | '"' => plain '"'
      | '\\' => plain '\\'
      | '/' => plain '/'
      | 'b' => plain '\x08'
      | 'f' => plain '\x0c'
      | 'n' => plain '\n'
      | 'r' => plain '\r'
      | 't' => plain '\t'
      | 'u' => readCodeUnits i.next
      | _ => failNext .invalidEscape i

/-- The rest of a string, through its closing quote. Each round reads at least
one character, so `fuel` is the length of the input. -/
def readStringFrom : (fuel : Nat) → (seen : Text) → Input → Except Fault (Text × Input)
  | 0, _, i => failHere .endInString i
  | fuel + 1, seen, i =>
      match i.rest with
      | [] => failHere .endInString i
      | c :: _ =>
          if c = '"' then .ok (seen.reverse, i.next)
          else if c = '\\' then
            match readEscape i.next with
            | .ok (d, i) => readStringFrom fuel (d :: seen) i
            | .error e => .error e
          else if c < ' ' then failNext .controlCharacter i
          else readStringFrom fuel (c :: seen) i.next

def readString (i : Input) : Except Fault (Text × Input) :=
  readStringFrom (i.rest.length + 1) [] i

/-! ## Values -/

/-- The rest of a word whose first letter has been read. -/
def readWord (value : Json) : (letters : Text) → Input → Except Fault (Json × Input)
  | [], i => .ok (value, i)
  | c :: letters, i =>
      match i.rest with
      | [] => failHere .endInValue i
      | d :: _ => if c = d then readWord value letters i.next else failNext .expectedWord i

/-- The items of an array after its bracket or after one of its items, with a
reader of values. Each round reads at least one character. -/
def readItems (value : Input → Except Fault (Json × Input)) :
    (fuel : Nat) → (seen : List Json) → Input → Except Fault (List Json × Input)
  | 0, _, i => failNext .endInList i
  | fuel + 1, seen, i =>
      let item (i : Input) : Except Fault (List Json × Input) :=
        match value i with
        | .ok (v, i) => readItems value fuel (v :: seen) i
        | .error e => .error e
      let i := i.skipBlanks
      match i.rest with
      | [] => failNext .endInList i
      | c :: _ =>
          if c = ']' then .ok (seen.reverse, i.next)
          else if seen.isEmpty then item i
          else if c = ',' then
            let i := i.next.skipBlanks
            match i.rest with
            | [] => failNext .endInValue i
            | c :: _ => if c = ']' then failNext .trailingComma i else item i
          else failNext .expectedCommaOrBracket i

def readColon (i : Input) : Except Fault Input :=
  let i := i.skipBlanks
  match i.rest with
  | [] => failNext .endInObject i
  | c :: _ => if c = ':' then .ok i.next else failNext .expectedColon i

/-- The fields of an object after its brace or after one of its fields, with a
reader of values. A repeated key keeps its first place and its last value. -/
def readFields (value : Input → Except Fault (Json × Input)) :
    (fuel : Nat) → (first : Bool) → (seen : Bindings Json) → Input → Except Fault (Bindings Json × Input)
  | 0, _, _, i => failNext .endInObject i
  | fuel + 1, first, seen, i =>
      let field (i : Input) : Except Fault (Bindings Json × Input) := do
        let (k, i) ← readString i.next
        let i ← readColon i
        let (v, i) ← value i
        readFields value fuel false (seen.insert k v) i
      let i := i.skipBlanks
      match i.rest with
      | [] => failNext .endInObject i
      | c :: _ =>
          if c = '}' then .ok (seen, i.next)
          else if first then
            if c = '"' then field i else failNext .keyNotString i
          else if c = ',' then
            let i := i.next.skipBlanks
            match i.rest with
            | [] => failNext .endInValue i
            | c :: _ =>
                if c = '"' then field i
                else if c = '}' then failNext .trailingComma i
                else failNext .keyNotString i
          else failNext .expectedCommaOrBrace i

/-- A value; `depth` more containers may open in it. -/
def readValue : (depth : Nat) → Input → Except Fault (Json × Input)
  | depth, i =>
      let i := i.skipBlanks
      let number (negative : Bool) (i : Input) : Except Fault (Json × Input) := do
        let (n, i) ← readNumber negative i
        return (.number n, i)
      match i.rest with
      | [] => failNext .endInValue i
      | c :: _ =>
          match c with
          | 'n' => readWord .null ['u', 'l', 'l'] i.next
          | 't' => readWord (.bool true) ['r', 'u', 'e'] i.next
          | 'f' => readWord (.bool false) ['a', 'l', 's', 'e'] i.next
          | '-' => number true i.next
          | '"' => do
              let (t, i) ← readString i.next
              return (.string t, i)
          | '[' =>
              match depth with
              | 0 => failNext .tooDeep i
              | depth + 1 => do
                  let (items, i) ← readItems (readValue depth) (i.rest.length + 1) [] i.next
                  return (.array items, i)
          | '{' =>
              match depth with
              | 0 => failNext .tooDeep i
              | depth + 1 => do
                  let (fields, i) ←
                    readFields (readValue depth) (i.rest.length + 1) true [] i.next
                  return (.object fields, i)
          | c => if Number.isDigit c then number false i else failNext .expectedValue i

/-- How deep containers may nest. -/
def nestingLimit : Nat := 127

/-- One value with nothing but blanks around it. -/
def readAll (t : Text) : Except Fault Json := do
  let (v, i) ← readValue nestingLimit ⟨t, 0⟩
  let i := i.skipBlanks
  if i.rest = [] then return v else failNext .trailingCharacters i

/-- The line and column that the first `index` bytes of a text reach, from a
line and column on. -/
def locate : (line column index : Nat) → Text → Nat × Nat
  | line, column, _, [] => (line, column)
  | line, column, index, c :: rest =>
      if index < c.utf8Size then (line, column + index)
      else if c = '\n' then locate (line + 1) 0 (index - c.utf8Size) rest
      else locate line (column + c.utf8Size) (index - c.utf8Size) rest

def read (t : Text) : Except ReadError Json :=
  match readAll t with
  | .ok v => .ok v
  | .error (cause, index) =>
      let (line, column) := locate 1 0 index t
      .error ⟨cause, line, column⟩

def read? (t : Text) : Option Json :=
  (read t).toOption

end Stencil.Json
