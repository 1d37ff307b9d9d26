import ApiGraph.Number.Binary64
import ApiGraph.Number.Digits
import ApiGraph.Toml.Basic

/-!
# ApiGraph.Toml.Scalar

Numbers, truth values and times, each a token on its own.

* `Toml.scalar?` — the value of a token.
-/

namespace ApiGraph.Toml

/-! ### Digits -/

/-- The digits of a number, in which single underscores may separate digits. -/
def digits? (isDigit : Char → Bool) (cs : List Char) : Option (List Char) :=
  if cs.isEmpty || cs.head? == some '_' || cs.getLast? == some '_' then none
  else if !cs.all (fun c => isDigit c || c == '_') then none
  else if (cs.zip cs.tail).contains ('_', '_') then none
  else some (cs.filter (· != '_'))

/-- The decimal digits of a number without leading zeros. -/
def decimal? (cs : List Char) : Option (List Char) := do
  match ← digits? Char.isDigit cs with
  | '0' :: _ :: _ => none
  | digits => some digits

/-- Splits off a sign. -/
def sign (cs : List Char) : Bool × List Char :=
  match cs with
  | '-' :: rest => (true, rest)
  | '+' :: rest => (false, rest)
  | cs => (false, cs)

/-- The value of digits in a base. -/
def baseValue (base : Nat) (digits : List Char) : Nat :=
  digits.foldl
    (fun n c =>
      let digit := if c.isDigit then c.toNat - '0'.toNat else c.toLower.toNat - 'a'.toNat + 10
      n * base + digit) 0

/-! ### Numbers -/

/-- An integer of 64 bits. -/
def bounded? (n : Int) : Option Toml :=
  if -twoPow 63 ≤ n ∧ n < twoPow 63 then some (.integer n) else none

/-- An integer; other bases than ten have no sign. -/
def integer? (cs : List Char) : Option Toml :=
  match cs with
  | '0' :: 'x' :: rest => do
    let isHex (c : Char) : Bool :=
      c.isDigit || ('a' ≤ c && c ≤ 'f') || ('A' ≤ c && c ≤ 'F')
    bounded? (baseValue 16 (← digits? isHex rest))
  | '0' :: 'o' :: rest => do
    bounded? (baseValue 8 (← digits? (fun c => '0' ≤ c && c ≤ '7') rest))
  | '0' :: 'b' :: rest => do
    bounded? (baseValue 2 (← digits? (fun c => c == '0' || c == '1') rest))
  | cs => do
    let (negative, rest) := sign cs
    let n : Int := Digits.value (← decimal? rest)
    bounded? (if negative then -n else n)

/-- Splits a text before the first character that `stop` holds of. -/
def cut (stop : Char → Bool) (cs : List Char) : List Char × List Char :=
  (cs.takeWhile (!stop ·), cs.dropWhile (!stop ·))

/-- Whether a decimal of that many digits and that exponent lies beyond every double. -/
def overflows (digits : List Char) (exponent : Int) : Bool :=
  let digits := digits.dropWhile (· == '0')
  let size := (digits.length : Int) + exponent
  if digits.isEmpty || size < 300 then false
  else if 310 < size then true
  else
    let bits := Binary64.roundBits (Digits.value digits * tenPow exponent.toNat)
      (tenPow (-exponent).toNat)
    bits == Binary64.infinityBits

/-- The exponent after its letter. -/
def exponent? (cs : List Char) : Option Int := do
  let (negative, digits) := sign cs
  let n : Int := Digits.value (← digits? Char.isDigit digits)
  return if negative then -n else n

/-- A number with a fraction or an exponent, or a special one. Beyond every double there is none
above zero. -/
def float? (cs : List Char) : Option Toml := do
  let (negative, rest) := sign cs
  if rest == ['i', 'n', 'f'] || rest == ['n', 'a', 'n'] then
    return .float (String.ofList cs)
  else
    let (mantissa, exponentPart) := cut (fun c => c == 'e' || c == 'E') rest
    let (whole, fractionPart) := cut (· == '.') mantissa
    let whole ← decimal? whole
    let fraction ← match fractionPart with
      | [] => some []
      | _ :: digits => digits? Char.isDigit digits
    let exponent ← match exponentPart with
      | [] => some 0
      | _ :: text => exponent? text
    if fractionPart.isEmpty && exponentPart.isEmpty then none
    else if !negative && overflows (whole ++ fraction) (exponent - fraction.length) then none
    else return .float (String.ofList cs)

/-! ### Times -/

/-- A number of exactly `n` digits within bounds. -/
def field? (n least greatest : Nat) (cs : List Char) : Option Nat :=
  let value := Digits.value cs
  if cs.length = n ∧ cs.all Char.isDigit ∧ least ≤ value ∧ value ≤ greatest then some value
  else none

/-- How many days a month has. -/
def daysIn (year month : Nat) : Nat :=
  if month = 2 then
    if year % 4 = 0 ∧ (year % 100 ≠ 0 ∨ year % 400 = 0) then 29 else 28
  else if month = 4 ∨ month = 6 ∨ month = 9 ∨ month = 11 then 30
  else 31

/-- Whether a text is a date. -/
def isDate (cs : List Char) : Bool :=
  match cs with
  | [a, b, c, d, '-', e, f, '-', g, h] =>
    match field? 4 0 9999 [a, b, c, d], field? 2 1 12 [e, f] with
    | some year, some month => (field? 2 1 (daysIn year month) [g, h]).isSome
    | _, _ => false
  | _ => false

/-- Whether a text is a distance from universal time. -/
def isOffset (cs : List Char) : Bool :=
  match cs with
  | ['Z'] | ['z'] => true
  | [s, a, b, ':', c, d] =>
    (s == '+' || s == '-') && (field? 2 0 23 [a, b]).isSome && (field? 2 0 59 [c, d]).isSome
  | _ => false

/-- Whether a text is a time of day, with seconds and perhaps a fraction; `offset` decides on what
may follow. -/
def isTime (offset : List Char → Bool) (cs : List Char) : Bool :=
  match cs with
  | a :: b :: ':' :: c :: d :: ':' :: e :: f :: rest =>
    (field? 2 0 23 [a, b]).isSome && (field? 2 0 59 [c, d]).isSome &&
      (field? 2 0 60 [e, f]).isSome &&
      match rest with
      | '.' :: rest =>
        let (fraction, rest) := cut (!·.isDigit) rest
        !fraction.isEmpty && offset rest
      | rest => offset rest
  | _ => false

/-- Whether a text is a date, a time of day, or both with a letter or blank between them. -/
def isMoment (cs : List Char) : Bool :=
  isDate cs || isTime List.isEmpty cs ||
    match cs.drop 10 with
    | c :: clock =>
      isDate (cs.take 10) && (c == 'T' || c == 't' || c == ' ') &&
        isTime (fun rest => rest.isEmpty || isOffset rest) clock
    | [] => false

/-! ### Tokens -/

/-- The value of a token. -/
def scalar? (cs : List Char) : Option Toml :=
  if cs == ['t', 'r', 'u', 'e'] then some (.boolean true)
  else if cs == ['f', 'a', 'l', 's', 'e'] then some (.boolean false)
  else if isMoment cs then some (.time (String.ofList cs))
  else (integer? cs).or (float? cs)

end ApiGraph.Toml
