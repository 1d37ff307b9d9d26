import ApiGraph.Number.Power

/-!
# ApiGraph.Number.Binary64

Double-precision numbers as their 64 bits. Every question about a number is answered in exact
`Nat` arithmetic on its decoded parts:

* `significand`, `exponent` — a finite number is `±significand · 2 ^ exponent`.
* `ofRatio` — the double nearest to a non-negative fraction, a tie going to the even neighbour.
* `same` — numeric equality: a NaN differs from itself, the two zeros agree.
-/

namespace ApiGraph

/-- A double-precision number, held as the bits of its interchange form. -/
structure Binary64 where
  bits : UInt64
deriving DecidableEq, Inhabited, Repr

namespace Binary64

/-! ### Fields -/

/-- The top bit. -/
def isNegative (x : Binary64) : Bool :=
  x.bits.toNat / twoPow 63 == 1

/-- All bits but the sign. -/
def magnitudeBits (x : Binary64) : Nat :=
  x.bits.toNat % twoPow 63

/-- The biased exponent, from 0 to 2047. -/
def exponentField (x : Binary64) : Nat :=
  x.magnitudeBits / twoPow 52

/-- The stored part of the significand. -/
def fractionField (x : Binary64) : Nat :=
  x.magnitudeBits % twoPow 52

/-- Neither an infinity nor a NaN. -/
def isFinite (x : Binary64) : Bool :=
  x.exponentField != 2047

/-- Not a number. -/
def isNaN (x : Binary64) : Bool :=
  x.exponentField == 2047 && x.fractionField != 0

/-- One of the two zeros. -/
def isZero (x : Binary64) : Bool :=
  x.magnitudeBits == 0

/-! ### The value -/

/-- The integer significand of a finite number, with its leading bit unless subnormal. -/
def significand (x : Binary64) : Nat :=
  if x.exponentField = 0 then x.fractionField else twoPow 52 + x.fractionField

/-- The power of two that scales `significand`. -/
def exponent (x : Binary64) : Int :=
  (max x.exponentField 1 : Nat) - (1075 : Int)

/-- Numerator and denominator of the absolute value of a finite number. -/
def ratio (x : Binary64) : Nat × Nat :=
  (x.significand * twoPow x.exponent.toNat, twoPow (-x.exponent).toNat)

/-- The exact value of a finite number that is an integer. -/
def toInt? (x : Binary64) : Option Int :=
  let (num, den) := x.ratio
  if x.isFinite && num % den == 0 then
    some (if x.isNegative then -(num / den : Nat) else (num / den : Nat))
  else
    none

/-- Numeric equality: a NaN differs from itself, and zero equals negative zero. -/
def same (x y : Binary64) : Bool :=
  !x.isNaN && !y.isNaN && (x.bits == y.bits || (x.isZero && y.isZero))

/-! ### Rounding -/

/-- Assembles a number from its sign and its other bits. -/
def ofMagnitudeBits (negative : Bool) (magnitude : Nat) : Binary64 :=
  ⟨UInt64.ofNat (magnitude % twoPow 63 + (if negative then twoPow 63 else 0))⟩

/-- The bits of positive infinity. -/
def infinityBits : Nat := 2047 * twoPow 52

/-- `num / den` to the nearest integer, a tie going to the even one. -/
def divideToEven (num den : Nat) : Nat :=
  let quotient := num / den
  let twice := 2 * (num % den)
  if twice < den then quotient
  else if den < twice then quotient + 1
  else quotient + quotient % 2

/-- `num / den` scaled by `2 ^ (-scale)`, as a fraction. -/
def descale (num den : Nat) (scale : Int) : Nat × Nat :=
  (num * twoPow (-scale).toNat, den * twoPow scale.toNat)

/-- The exponent at which the significand of `num / den` has 53 bits, or the least exponent. -/
def scaleOf (num den : Nat) : Int :=
  let guess : Int := (num.log2 : Int) - (den.log2 : Int) - 52
  let (scaledNum, scaledDen) := descale num den guess
  max (-1074) (if scaledNum < twoPow 52 * scaledDen then guess - 1 else guess)

/-- The bits, sign apart, of the double nearest to `num / den`; infinity above the greatest. -/
def roundBits (num den : Nat) : Nat :=
  if num = 0 then 0
  else
    let scale := scaleOf num den
    let (scaledNum, scaledDen) := descale num den scale
    min infinityBits ((scale + 1074).toNat * twoPow 52 + divideToEven scaledNum scaledDen)

/-- The double nearest to `num / den`, with the given sign. -/
def ofRatio (negative : Bool) (num den : Nat) : Binary64 :=
  ofMagnitudeBits negative (roundBits num den)

/-- The double nearest to an integer. -/
def ofInt (n : Int) : Binary64 :=
  ofRatio (n < 0) n.natAbs 1

/-- The same magnitude with the opposite sign. -/
def neg (x : Binary64) : Binary64 :=
  ofMagnitudeBits (!x.isNegative) x.magnitudeBits

/-- The rounded product of two finite non-negative numbers. -/
def product (x y : Binary64) : Binary64 :=
  ofRatio false (x.ratio.1 * y.ratio.1) (x.ratio.2 * y.ratio.2)

/-- The rounded quotient of two finite non-negative numbers. -/
def quotient (x y : Binary64) : Binary64 :=
  ofRatio false (x.ratio.1 * y.ratio.2) (x.ratio.2 * y.ratio.1)

/-- The double nearest to a power of ten. -/
def powerOfTen (k : Nat) : Binary64 :=
  ofRatio false (tenPow k) 1

end Binary64

end ApiGraph
