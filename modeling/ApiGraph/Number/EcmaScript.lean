import ApiGraph.Number.Shortest

/-!
# ApiGraph.Number.EcmaScript

Positive decimals in source syntax, laid out as ECMAScript's `Number::toString` does. The layout starts from
a text in exponent form, takes it apart, and works on 32-bit integers; whatever would go wrong on the
way, a sum that does not fit or a cut past the end, makes it `none`.

* `Scientific.text` — the exponent form that the layout starts from.
* `EcmaScript.layoutDigits?` — from the digits and the exponent.
* `EcmaScript.layout?` — from the text.
-/

namespace ApiGraph

/-- The exponent form `d₁.d₂…dₖex`. A single digit has no point, and only a minus sign is shown. -/
def Scientific.text (s : Scientific) : List Char :=
  s.mantissa ++ 'e' :: (toString s.exponent).toList

namespace EcmaScript

/-! ### Texts -/

/-- What stands before and after the first `c`. -/
def splitOnce (c : Char) : List Char → Option (List Char × List Char)
  | [] => none
  | d :: rest =>
    if d = c then some ([], rest)
    else (splitOnce c rest).map fun (before, after) => (d :: before, after)

/-- What stands before and from a position, unless it lies past the end. -/
def splitAt? (position : Nat) (digits : List Char) : Option (List Char × List Char) :=
  if position ≤ digits.length then some (digits.splitAt position) else none

/-- Zeros in a row, unless they are more than can be addressed. -/
def zeros? (count : Nat) : Option (List Char) :=
  if count < twoPow 63 then some (List.replicate count '0') else none

/-! ### Machine integers -/

/-- An integer of 32 bits, unless the result of an operation does not fit. -/
def int32? (n : Int) : Option Int32 :=
  if -(twoPow 31 : Int) ≤ n ∧ n < twoPow 31 then some (.ofInt n) else none

/-- The word of 64 bits that a 32-bit integer is cast to, as a count. A negative one becomes huge. -/
def count (n : Int32) : Nat :=
  n.toInt64.toUInt64.toNat

/-- Decimal digits as a natural number. -/
def natural? (digits : List Char) : Option Nat :=
  if Digits.isNumber digits then some (Digits.value digits) else none

/-- Decimal digits with a sign or none. -/
def integer? : List Char → Option Int
  | '-' :: digits => (natural? digits).map fun n => -(n : Int)
  | '+' :: digits => (natural? digits).map Int.ofNat
  | digits => (natural? digits).map Int.ofNat

/-! ### Layout -/

/-- The text of the positive decimal `d₁.d₂…dₖ · 10 ^ exponent`. -/
def layoutDigits? (digits : List Char) (exponent : Int32) : Option (List Char) := do
  let k := Int32.ofNat digits.length
  let point ← int32? (exponent.toInt + 1)
  if k ≤ point ∧ point ≤ 21 then
    let places ← int32? (point.toInt - k.toInt)
    return digits ++ (← zeros? (count places))
  else if 0 < point ∧ point ≤ 21 then
    let (whole, fraction) ← splitAt? (count point) digits
    return whole ++ '.' :: fraction
  else if -6 < point ∧ point ≤ 0 then
    let places ← int32? (-point.toInt)
    return '0' :: '.' :: ((← zeros? (count places)) ++ digits)
  else
    let sign := if exponent < 0 then '-' else '+'
    let power := (toString (← int32? exponent.toInt.natAbs).toInt).toList
    let (lead, rest) ← splitAt? 1 digits
    return lead ++ (if rest.isEmpty then [] else '.' :: rest) ++ 'e' :: sign :: power

/-- The text of a positive decimal that is given in exponent form. An exponent that is missing or cannot
be read counts as zero. -/
def layout? (text : List Char) : Option (List Char) :=
  let (mantissa, exponent) := (splitOnce 'e' text).getD (text, ['0'])
  layoutDigits? (mantissa.filter (· != '.')) (((integer? exponent).bind int32?).getD 0)

end EcmaScript

end ApiGraph
