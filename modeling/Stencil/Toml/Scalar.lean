import Stencil.Toml.Basic
import Stencil.Toml.Lexical

/-!
# Numbers, dates and times of TOML

A scalar without quotes is a run of letters, digits and a few marks; which kind of
value it is follows from the run as a whole. Between two digits one underscore may
stand. Integers fit a signed word of 64 bits.
-/

namespace Stencil.Toml

def isScalarChar (c : Char) : Bool :=
  c.isAlphanum || c = '+' || c = '-' || c = '_' || c = '.' || c = ':'

/-- Digits in a base without the underscores between them. -/
def digitsIn? (base : Nat) : (afterDigit : Bool) → Text → Option (List Nat)
  | afterDigit, [] => if afterDigit then some [] else none
  | afterDigit, '_' :: t => if afterDigit then digitsIn? base false t else none
  | _, c :: t => do
      let d ← Number.digitValue? base c
      let ds ← digitsIn? base true t
      some (d :: ds)

/-- Decimal digits without a needless zero at the start. -/
def plainDigits? (t : Text) : Option (List Nat) :=
  if t.head? = some '0' && t ≠ ['0'] then none else digitsIn? 10 false t

def greatestInteger : Int := (Nat.pow 2 63 - 1 : Nat)

def inRange? (n : Int) : Option Int :=
  if -greatestInteger - 1 ≤ n ∧ n ≤ greatestInteger then some n else none

def integer? (t : Text) : Option Int :=
  match t with
  | '0' :: 'x' :: ds => digitsIn? 16 false ds >>= fun ds => inRange? (Number.ofDigits 16 ds)
  | '0' :: 'o' :: ds => digitsIn? 8 false ds >>= fun ds => inRange? (Number.ofDigits 8 ds)
  | '0' :: 'b' :: ds => digitsIn? 2 false ds >>= fun ds => inRange? (Number.ofDigits 2 ds)
  | t => do
      let (negative, t) := Number.takeSign t
      let n : Int := Number.ofDigits 10 (← plainDigits? t)
      inRange? (if negative then -n else n)

/-- The whole part, the fraction and the exponent of a decimal, the latter two if
they are there. -/
def decimalParts (t : Text) : Text × Option Text × Option Text :=
  let isExponent (c : Char) : Bool := c = 'e' || c = 'E'
  let mantissa := t.takeWhile fun c => !isExponent c
  let exponent := (t.dropWhile fun c => !isExponent c).tail?
  (mantissa.takeWhile (· ≠ '.'), (mantissa.dropWhile (· ≠ '.')).tail?, exponent)

/-- A number with a fraction or an exponent, or one without digits. -/
def float? (t : Text) : Option Float := do
  let (negative, magnitude) := Number.takeSign t
  if magnitude = "inf".toList then some (Number.infinity negative)
  else if magnitude = "nan".toList then some Number.nan
  else
    let (whole, fraction, exponent) := decimalParts magnitude
    if fraction = none && exponent = none then none
    else
      let _ ← plainDigits? whole
      let _ ← (fraction.getD ['0'] |> digitsIn? 10 false)
      let _ ← ((exponent.map fun e => (Number.takeSign e).2).getD ['0'] |> digitsIn? 10 false)
      let x ← Number.readNumeral? (magnitude.filter (· ≠ '_'))
      if Number.isFinite x then some (Number.negateIf negative x) else none

/-! ## Dates and times -/

/-- A number of so many digits at the start of a text. -/
def takeCount? (digits : Nat) (t : Text) : Option (Nat × Text) :=
  let ds := t.take digits
  if ds.length = digits && ds.all Number.isDigit then
    some (Number.readDigits ds, t.drop digits)
  else none

def takeChar? (c : Char) : Text → Option Text
  | [] => none
  | d :: t => if c = d then some t else none

def daysIn (year month : Nat) : Nat :=
  if month = 2 then
    if year % 400 = 0 || year % 4 = 0 && year % 100 ≠ 0 then 29 else 28
  else if month = 4 || month = 6 || month = 9 || month = 11 then 30
  else 31

def takeDate? (t : Text) : Option Text := do
  let (year, t) ← takeCount? 4 t
  let (month, t) ← takeCount? 2 (← takeChar? '-' t)
  let (day, t) ← takeCount? 2 (← takeChar? '-' t)
  if 1 ≤ month ∧ month ≤ 12 ∧ 1 ≤ day ∧ day ≤ daysIn year month then some t else none

def takeTime? (t : Text) : Option Text := do
  let (hour, t) ← takeCount? 2 t
  let (minute, t) ← takeCount? 2 (← takeChar? ':' t)
  let (second, t) ← takeCount? 2 (← takeChar? ':' t)
  if hour ≤ 23 ∧ minute ≤ 59 ∧ second ≤ 60 then
    match t with
    | '.' :: ds => if ds.head?.any Number.isDigit then some (ds.dropWhile Number.isDigit) else none
    | t => some t
  else none

def takeOffset? (t : Text) : Option Text :=
  match t with
  | 'Z' :: t => some t
  | 'z' :: t => some t
  | c :: t =>
      if c = '+' || c = '-' then do
        let (hour, t) ← takeCount? 2 t
        let (minute, t) ← takeCount? 2 (← takeChar? ':' t)
        if hour ≤ 23 ∧ minute ≤ 59 then some t else none
      else none
  | [] => none

def isTime (offset : Bool) (t : Text) : Bool :=
  match takeTime? t with
  | some [] => true
  | some rest => offset && takeOffset? rest = some []
  | none => false

/-- Whether a text is a date, a time, or both with a `T` or a blank between. -/
def isMoment (t : Text) : Bool :=
  match takeDate? t with
  | some [] => true
  | some (c :: rest) => (c = 'T' || c = 't' || c = ' ') && isTime true rest
  | none => isTime false t

/-- The run of a scalar at the start of a text. A date goes on after a blank if a
digit follows it. -/
def scalarRun (t : Text) : Text :=
  let run := t.takeWhile isScalarChar
  match t.drop run.length with
  | ' ' :: d :: rest =>
      if takeDate? run = some [] && Number.isDigit d then
        run ++ ' ' :: (d :: rest).takeWhile isScalarChar
      else run
  | _ => run

def scalar? (t : Text) : Option Toml :=
  if t = "true".toList then some (.boolean true)
  else if t = "false".toList then some (.boolean false)
  else
    match integer? t, float? t with
    | some n, _ => some (.integer n)
    | none, some x => some (.float x)
    | none, none => if isMoment t then some (.moment t) else none

end Stencil.Toml
