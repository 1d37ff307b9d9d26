import ApiGraph.Number.Binary64
import ApiGraph.Number.Digits

/-!
# ApiGraph.Number.Shortest

The fewest decimal digits that read back as a given double. A finite positive double owns the
interval of reals that round to it; on the decimal grid with `k` digits only the two points next
to the value can be the nearest ones inside that interval. The first `k` whose grid has a point
in the interval wins, and of two such points the nearer one.

* `Scientific` — digits `d₁d₂…dₖ` standing for `d₁.d₂…dₖ · 10 ^ exponent`.
* `Binary64.shortest` — the shortest form of a positive finite number.
-/

namespace ApiGraph

/-- Decimal digits `d₁d₂…dₖ` and the power of ten that scales `d₁.d₂…dₖ`. -/
structure Scientific where
  digits : List Char
  exponent : Int
deriving DecidableEq, Inhabited, Repr

/-- The digits, with a point after the first if there are more. -/
def Scientific.mantissa (s : Scientific) : List Char :=
  match s.digits with
  | [] => []
  | [lead] => [lead]
  | lead :: rest => lead :: '.' :: rest

/-- Which of two equally near decimals is taken. -/
inductive TieRule
  /-- The one with the even last digit. -/
  | toEven
  /-- The greater one. -/
  | up
deriving DecidableEq, Inhabited, Repr

namespace Binary64

/-- The reals that round to a positive finite number, in units of a quarter of its last place:
lower end, value and upper end, with the unit as a fraction. -/
structure RoundingInterval where
  lower : Nat
  value : Nat
  upper : Nat
  unitNum : Nat
  unitDen : Nat
  /-- Whether the ends round to the number too. -/
  closed : Bool

/-- The interval of reals that round to `x`. Below a power of two the neighbour is half as far. -/
def roundingInterval (x : Binary64) : RoundingInterval :=
  let m := x.significand
  let nearBelow := m = twoPow 52 ∧ 1 < x.exponentField
  { lower := 4 * m - (if nearBelow then 1 else 2)
    value := 4 * m
    upper := 4 * m + 2
    unitNum := twoPow (x.exponent - 2).toNat
    unitDen := twoPow (2 - x.exponent).toNat
    closed := m % 2 == 0 }

/-- How many decimal digits a natural number has; zero has one. -/
def decimalLength (n : Nat) : Nat :=
  (Digits.ofNat n).length

/-- The greatest `e` with `10 ^ e ≤ num / den`, for a positive fraction. -/
def decimalExponent (num den : Nat) : Int :=
  if den ≤ num then
    (decimalLength (num / den) : Int) - 1
  else
    let places := decimalLength (den / num)
    if den ≤ num * tenPow (places - 1) then 1 - (places : Int) else -(places : Int)

/-- The best point of the grid of multiples of `10 ^ scale` inside the interval, if there is one:
the multiplier of the grid's unit. -/
def RoundingInterval.nearest? (i : RoundingInterval) (tie : TieRule) (scale : Int) : Option Nat :=
  -- Everything is compared over one denominator: grid steps against interval units.
  let step := tenPow scale.toNat * i.unitDen
  let unit := i.unitNum * tenPow (-scale).toNat
  let below := i.value * unit / step
  let above := below + 1
  let reaches (a b : Nat) : Bool := if i.closed then a ≤ b else a < b
  let fitsBelow := reaches (i.lower * unit) (below * step)
  let fitsAbove := reaches (above * step) (i.upper * unit)
  let toBelow := i.value * unit - below * step
  let toAbove := above * step - i.value * unit
  let aboveWins := toAbove < toBelow ||
    (toAbove == toBelow && (match tie with | .up => true | .toEven => below % 2 == 1))
  match fitsBelow, fitsAbove with
  | false, false => none
  | true, false => some below
  | false, true => some above
  | true, true => some (if aboveWins then above else below)

/-- Drops the zeros at the end of a list of digits, keeping the first digit. -/
def trimZeros (digits : List Char) : List Char :=
  match (digits.reverse.dropWhile (· == '0')).reverse with
  | [] => ['0']
  | kept => kept

/-- A multiple of `10 ^ scale` as digits and exponent. -/
def scientific (multiplier : Nat) (scale : Int) : Scientific :=
  let digits := Digits.ofNat multiplier
  { digits := trimZeros digits, exponent := scale + (digits.length : Int) - 1 }

/-- The shortest digits of a positive finite number. Seventeen digits always suffice, so the value
cut to seventeen digits, which stands last, is never reached. -/
def shortest (tie : TieRule) (x : Binary64) : Scientific :=
  let interval := x.roundingInterval
  let (num, den) := x.ratio
  let exponent := decimalExponent num den
  let attempt (places : Nat) : Option Scientific :=
    let scale := exponent - (places : Int)
    (interval.nearest? tie scale).map (scientific · scale)
  ((List.range 17).findSome? attempt).getD
    (scientific (num * tenPow (16 - exponent).toNat / (den * tenPow (exponent - 16).toNat))
      (exponent - 16))

end Binary64

end ApiGraph
