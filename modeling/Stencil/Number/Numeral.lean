import Stencil.Number.Binary
import Stencil.Number.Digits
import Stencil.Number.Shortest
import Stencil.Text.Blank

/-!
# How numbers are read

A decimal numeral is digits with an optional point and an optional exponent,
and its value is the double nearest to what it says. `ofText` converts a whole
text: blanks around it do not count, nothing at all is zero, and what is not a
number in one of the accepted forms is `nan`. The two `leading` functions read
as much of a text as makes sense.
-/

namespace Stencil.Number

def isDigit (c : Char) : Bool :=
  '0' ≤ c && c ≤ '9'

def readDigits (t : Text) : Nat :=
  ofDigits 10 (t.map fun c => c.toNat - '0'.toNat)

/-- A number of decimal digits beyond which the exponent alone decides that a
decimal is beyond the finite doubles, or rounds to zero. -/
def exponentBound : Int := 400

/-- The double nearest to a decimal with `length` digits. -/
def ofDecimal (length : Nat) (d : Decimal) : Float :=
  if d.coefficient = 0 then ofNat 0
  else if exponentBound < length + d.exponent then infinity false
  else if length + d.exponent < -exponentBound then ofNat 0
  else if 0 ≤ d.exponent then ofRatio false (d.coefficient * Nat.pow 10 d.exponent.toNat) 1
  else ofRatio false d.coefficient (Nat.pow 10 (-d.exponent).toNat)

structure Numeral where
  whole : Text
  fraction : Text
  exponent : Int
deriving Repr, DecidableEq

/-- The value of a numeral. Leading zeros do not count as digits. -/
def Numeral.value (n : Numeral) : Float :=
  let ds := (n.whole ++ n.fraction).dropWhile (· = '0')
  ofDecimal ds.length ⟨readDigits ds, n.exponent - n.fraction.length⟩

/-- An exponent part at the start of a text, `0` and the whole text if there is
none. -/
def takeExponent (t : Text) : Int × Text :=
  match t with
  | [] => (0, t)
  | e :: rest =>
      if e = 'e' || e = 'E' then
        let (negative, ds) :=
          match rest with
          | '-' :: ds => (true, ds)
          | '+' :: ds => (false, ds)
          | ds => (false, ds)
        let power := ds.takeWhile isDigit
        if power = [] then (0, t)
        else
          let n : Int := readDigits power
          (if negative then -n else n, ds.dropWhile isDigit)
      else (0, t)

/-- The longest decimal numeral at the start of a text, and what follows it.
There is a digit before the point or after it. -/
def takeNumeral? (t : Text) : Option (Numeral × Text) :=
  let whole := t.takeWhile isDigit
  let (fraction, rest) :=
    match t.dropWhile isDigit with
    | '.' :: rest =>
        if whole = [] && !rest.head?.any isDigit then ([], '.' :: rest)
        else (rest.takeWhile isDigit, rest.dropWhile isDigit)
    | rest => ([], rest)
  if whole = [] && fraction = [] then none
  else
    let (exponent, rest) := takeExponent rest
    some (⟨whole, fraction, exponent⟩, rest)

def readNumeral? (t : Text) : Option Float :=
  match takeNumeral? t with
  | some (n, []) => some n.value
  | _ => none

def takeSign (t : Text) : Bool × Text :=
  match t with
  | '-' :: rest => (true, rest)
  | '+' :: rest => (false, rest)
  | _ => (false, t)

def negateIf (negative : Bool) (x : Float) : Float :=
  if negative then -x else x

def readSigned? (t : Text) : Option Float :=
  let (negative, rest) := takeSign t
  (readNumeral? rest).map (negateIf negative)

def infinityName : Text := "Infinity".toList

/-- The base that the two characters at the start of a text name. -/
def namedBase? : Text → Option (Nat × Text)
  | '0' :: 'x' :: rest => some (16, rest)
  | '0' :: 'X' :: rest => some (16, rest)
  | '0' :: 'o' :: rest => some (8, rest)
  | '0' :: 'O' :: rest => some (8, rest)
  | '0' :: 'b' :: rest => some (2, rest)
  | '0' :: 'B' :: rest => some (2, rest)
  | _ => none

/-- The greatest number that a numeral with a named base may denote. -/
def wordLimit : Nat := Nat.pow 2 64 - 1

/-- The natural number that a whole text denotes in a base, at most
`wordLimit`. A plus sign may stand before the digits. -/
def readNat? (base : Nat) (t : Text) : Option Nat :=
  let ds := match t with | '+' :: ds => ds | ds => ds
  if ds = [] then none
  else
    match ds.mapM (digitValue? base) with
    | some ds => let n := ofDigits base ds; if n ≤ wordLimit then some n else none
    | none => none

def ofText (t : Text) : Float :=
  let t := Text.trim t
  if t = [] then ofNat 0
  else
    let (negative, rest) := takeSign t
    if rest = infinityName then infinity negative
    else
      match namedBase? t with
      | some (base, ds) =>
          match readNat? base ds with
          | some n => ofNat n
          | none => nan
      | none =>
          match readSigned? rest with
          | some x => negateIf negative x
          | none => nan

/-- The number that the longest sensible start of a text denotes. -/
def leadingNumber (t : Text) : Float :=
  let (negative, rest) := takeSign (Text.trimStart t)
  if (Text.dropHead? infinityName rest).isSome then infinity negative
  else
    match takeNumeral? rest with
    | some (n, _) => negateIf negative n.value
    | none => nan

/-! ## Leading integers -/

/-- A natural number rounded to the precision of a double. -/
def roundToPrecision (n : Nat) : Nat :=
  let excess := n.log2 - fractionBits
  roundDiv .toEven n (Nat.pow 2 excess) * Nat.pow 2 excess

/-- Reads digits from the left, rounding after each product and each sum as
arithmetic on doubles does. -/
def accumulate (base : Nat) (ds : List Nat) : Nat :=
  ds.foldl (fun n d => roundToPrecision (roundToPrecision (n * base) + d)) 0

def greatestBase : Nat := 36

/-- The integer that the longest sensible start of a text denotes in a base. A
base of zero stands for ten, or for sixteen after `0x`; that mark is also passed
over in base sixteen itself. -/
def leadingInteger (base : Nat) (t : Text) : Float :=
  let (negative, rest) := takeSign (Text.trimStart t)
  let (base, rest) :=
    match if base = 0 || base = 16 then namedBase? rest else none with
    | some (16, ds) => (16, ds)
    | _ => (if base = 0 then 10 else base, rest)
  if base < 2 || greatestBase < base then nan
  else
    match rest.map (digitValue? base) |>.takeWhile Option.isSome |>.filterMap id with
    | [] => nan
    | ds => negateIf negative (ofNat (accumulate base ds))

end Stencil.Number
