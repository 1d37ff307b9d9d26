import ApiGraph.Json.Basic
import ApiGraph.Number.Digits
import ApiGraph.Number.Layout

/-!
# ApiGraph.Json.Numeral

Numbers in JSON text. A number without fraction and exponent is an integer while it fits into 64
bits, except that negative zero is a double. Any other number keeps a significand of at most 64
bits, whose further digits only count towards the power of ten, and the double is that significand,
rounded, times or over the rounded power of ten. So two roundings may meet, and the result can be
one unit beside the nearest double.

* `NumeralText` — the parts of a number as they stand in the text, and `NumeralText.scan?`.
* `NumeralText.value?` — the number, or `none` beyond every double.
* `Numeral.text` — the written form.
-/

namespace ApiGraph

/-- The parts of a written number. -/
structure NumeralText where
  negative : Bool
  /-- The digits before the point. -/
  whole : List Char
  /-- The digits after the point; none without a point. -/
  fraction : List Char
  /-- Sign and digits of the exponent, if one is written. -/
  exponent : Option (Bool × List Char)
  /-- Whether there is neither a point nor an exponent. -/
  integral : Bool
deriving DecidableEq, Repr

namespace NumeralText

/-- Splits off the digits at the front. -/
def spanDigits (cs : List Char) : List Char × List Char :=
  (cs.takeWhile Char.isDigit, cs.dropWhile Char.isDigit)

/-- The fraction at the front, which needs a digit after its point. -/
def scanFraction? : List Char → Option (List Char × List Char)
  | '.' :: rest =>
    match spanDigits rest with
    | ([], _) => none
    | (digits, rest) => some (digits, rest)
  | cs => some ([], cs)

/-- The exponent at the front, which needs a digit. -/
def scanExponent? : List Char → Option (Option (Bool × List Char) × List Char)
  | c :: rest =>
    if c = 'e' ∨ c = 'E' then
      let (negative, rest) := match rest with
        | '-' :: rest => (true, rest)
        | '+' :: rest => (false, rest)
        | rest => (false, rest)
      match spanDigits rest with
      | ([], _) => none
      | (digits, rest) => some (some (negative, digits), rest)
    else some (none, c :: rest)
  | [] => some (none, [])

/-- The number at the front of a text. A leading zero stands alone. -/
def scan? (cs : List Char) : Option (NumeralText × List Char) := do
  let (negative, cs) := match cs with
    | '-' :: rest => (true, rest)
    | cs => (false, cs)
  let (whole, afterWhole) := spanDigits cs
  match whole with
  | [] => none
  | '0' :: _ :: _ => none
  | _ =>
    let (fraction, afterFraction) ← scanFraction? afterWhole
    let (exponent, rest) ← scanExponent? afterFraction
    let integral := fraction.isEmpty && exponent.isNone
    return ({ negative, whole, fraction, exponent, integral }, rest)

/-- Appends digits to a significand as long as it stays below `2 ^ 64`; returns the digits left. -/
def absorb (significand : Nat) : List Char → Nat × List Char
  | [] => (significand, [])
  | c :: rest =>
    let longer := significand * 10 + (c.toNat - '0'.toNat)
    if longer < twoPow 64 then absorb longer rest else (significand, c :: rest)

/-- The significand of at most 64 bits, and the power of ten that scales it. -/
def parts (t : NumeralText) : Nat × Int :=
  let (leading, dropped) := absorb 0 t.whole
  let (significand, ignored) := absorb leading t.fraction
  let written : Int := match t.exponent with
    | none => 0
    | some (true, digits) => -(Digits.value digits : Int)
    | some (false, digits) => Digits.value digits
  (significand, written + dropped.length - (t.fraction.length - ignored.length : Nat))

/-- A significand times a power of ten, each rounded first; `none` beyond every double. Below
`10 ^ (-308)` the number is scaled in steps of that size, two of which leave zero. -/
def scaled? (significand : Nat) (exponent : Int) : Option Binary64 :=
  let start := Binary64.ofInt significand
  if 0 ≤ exponent then
    if exponent ≤ 308 then
      let product := start.product (Binary64.powerOfTen exponent.toNat)
      if product.isFinite then some product else none
    else if start.isZero then some start
    else none
  else
    let places := exponent.natAbs
    let steps := (places - 1) / 308
    let shrunk := Nat.repeat (fun x => x.quotient (Binary64.powerOfTen 308)) (min steps 2) start
    some (shrunk.quotient (Binary64.powerOfTen (places - steps * 308)))

/-- The double that the text denotes. -/
def double? (t : NumeralText) : Option Binary64 :=
  let (significand, exponent) := t.parts
  (scaled? significand exponent).map fun x => if t.negative then x.neg else x

/-- The number that the text denotes; `none` beyond every double. -/
def value? (t : NumeralText) : Option Numeral :=
  let n := Digits.value t.whole
  if t.integral && !t.negative && n < twoPow 64 then some (.integer n)
  else if t.integral && t.negative && 0 < n && n ≤ twoPow 63 then some (.integer (-(n : Int)))
  else t.double?.map .double

end NumeralText

/-! ### Writing -/

namespace Numeral

/-- The exponent form `d.ddde±x`; a single digit has no point. -/
def exponentForm (s : Scientific) : List Char :=
  s.mantissa ++ 'e' :: (if s.exponent < 0 then '-' else '+') :: Digits.ofNat s.exponent.natAbs

/-- The positional form, with zeros filled in before or after the digits. An integral value ends in a point
and a zero. -/
def positionalForm (s : Scientific) : List Char :=
  let point := s.exponent + 1
  if (s.digits.length : Int) ≤ point then
    s.digits ++ List.replicate (point - s.digits.length).toNat '0' ++ ['.', '0']
  else if 0 < point then
    s.digits.take point.toNat ++ '.' :: s.digits.drop point.toNat
  else
    '0' :: '.' :: (List.replicate (-point).toNat '0' ++ s.digits)

/-- Doubles in JSON text: positional from `0.00001` to below `10 ^ 16`, ties to the even digit. -/
def style : NumberStyle where
  layout s := if -5 ≤ s.exponent ∧ s.exponent ≤ 15 then positionalForm s else exponentForm s
  tie := .toEven
  zero negative := if negative then ['-', '0', '.', '0'] else ['0', '.', '0']

end Numeral

/-- A number as it is written. A double that is not finite has no written form of its own. -/
def Numeral.text : Numeral → List Char
  | .integer n => (toString n).toList
  | .double x => if x.isFinite then Numeral.style.render x else ['n', 'u', 'l', 'l']

end ApiGraph
