import Mathlib.Algebra.Order.Field.Rat
import Mathlib.Tactic.Linarith
import Mathlib.Tactic.Positivity
import ApiGraph.Proofs.Shortest

/-!
# ApiGraph.Proofs.Rounding

**The shortest digits of a double round to it, and to no other.** The doubles without their signs are a
strictly ascending sequence, counted by their bits, and a rational number rounds to the one between whose
midpoints with its neighbours it lies; at a midpoint itself the even one is taken. A decimal that lies
there is found with seventeen digits at the latest, so the search for one never fails.

* `Binary64.valueAt`, `Binary64.midpoint` — the sequence, and the points halfway between two of it.
* `Binary64.RoundsTo`, `Binary64.RoundsTo.unique` — a rational number rounds to at most one double.
* `Binary64.RoundingInterval.exists_nearest?` — a grid that is fine enough has a point in the interval.
* `Binary64.roundsTo_shortest` — the shortest digits round to the double that they are of.
-/

namespace ApiGraph

namespace Binary64

variable {a b k m n num den : Nat} {q : ℚ} {scale : Int} {tie : TieRule} {x : Binary64}

/-! ### The sequence of doubles -/

/-- The distance from the double with the bits `m`, sign apart, to the next one. -/
def stepAt (m : Nat) : ℚ :=
  2 ^ ((max (m / 2 ^ 52) 1 : Nat) - (1075 : Int))

/-- The significand of the double with the bits `m`, sign apart. -/
def significandAt (m : Nat) : Nat :=
  if m / 2 ^ 52 = 0 then m % 2 ^ 52 else 2 ^ 52 + m % 2 ^ 52

/-- The absolute value of the double with the bits `m`, sign apart. -/
def valueAt (m : Nat) : ℚ :=
  significandAt m * stepAt m

theorem significandAt_magnitudeBits (x : Binary64) :
    significandAt x.magnitudeBits = x.significand := rfl

theorem stepAt_magnitudeBits (x : Binary64) : stepAt x.magnitudeBits = 2 ^ x.exponent := rfl

theorem valueAt_magnitudeBits (x : Binary64) :
    valueAt x.magnitudeBits = x.significand * 2 ^ x.exponent := rfl

theorem stepAt_pos (m : Nat) : 0 < stepAt m :=
  zpow_pos (by decide) _

theorem valueAt_succ (m : Nat) : valueAt (m + 1) = valueAt m + stepAt m := by
  unfold valueAt
  rcases Nat.lt_or_ge (m % 2 ^ 52 + 1) (2 ^ 52) with within | last
  · -- the exponent stays
    have field : (m + 1) / 2 ^ 52 = m / 2 ^ 52 := by omega
    have step : stepAt (m + 1) = stepAt m := by rw [stepAt, field, stepAt]
    have significand : significandAt (m + 1) = significandAt m + 1 := by
      unfold significandAt
      rw [field]
      split <;> omega
    rw [step, significand]
    push_cast
    ring
  · have significand : significandAt (m + 1) = 2 ^ 52 := by
      unfold significandAt
      rw [if_neg (by omega)]
      omega
    rcases Nat.eq_zero_or_pos (m / 2 ^ 52) with subnormal | normal
    · -- the first normal double has the exponent of the subnormal ones
      have step : stepAt (m + 1) = stepAt m := by
        have least : max ((m + 1) / 2 ^ 52) 1 = max (m / 2 ^ 52) 1 := by omega
        rw [stepAt, least, stepAt]
      have before : significandAt m = 2 ^ 52 - 1 := by
        unfold significandAt
        rw [if_pos subnormal]
        omega
      rw [step, significand, before]
      push_cast
      ring
    · have step : stepAt (m + 1) = 2 * stepAt m := by
        have next : ((max ((m + 1) / 2 ^ 52) 1 : Nat) - (1075 : Int)) =
            (max (m / 2 ^ 52) 1 : Nat) - (1075 : Int) + 1 := by omega
        rw [stepAt, next, zpow_add_one₀ (by decide), mul_comm, stepAt]
      have before : significandAt m = 2 ^ 53 - 1 := by
        unfold significandAt
        rw [if_neg (by omega)]
        omega
      rw [step, significand, before]
      push_cast
      ring

theorem strictMono_valueAt : StrictMono valueAt :=
  strictMono_nat_of_lt_succ fun m => by
    rw [valueAt_succ]
    exact lt_add_of_pos_right _ (stepAt_pos m)

/-- The point halfway between two doubles. -/
def midpoint (m : Nat) : ℚ :=
  (valueAt m + valueAt (m + 1)) / 2

theorem midpoint_eq (m : Nat) : midpoint m = valueAt m + stepAt m / 2 := by
  rw [midpoint, valueAt_succ]
  ring

theorem strictMono_midpoint : StrictMono midpoint :=
  strictMono_nat_of_lt_succ fun m => by
    have lower := strictMono_valueAt (Nat.lt_succ_self m)
    have upper := strictMono_valueAt (Nat.lt_succ_self (m + 1))
    unfold midpoint
    linarith

/-! ### Rounding -/

/-- The double with the bits `m`, which is not zero, is the nearest one to `q`, or of two equally near ones
that with even bits. -/
structure RoundsTo (q : ℚ) (m : Nat) : Prop where
  lower : midpoint (m - 1) ≤ q
  upper : q ≤ midpoint m
  even : q = midpoint (m - 1) ∨ q = midpoint m → m % 2 = 0

theorem RoundsTo.not_lt (first : RoundsTo q m) (second : RoundsTo q n) : ¬m < n := by
  intro lt
  -- both lie beside the same midpoint, and one of two neighbours is odd
  have order : midpoint m ≤ midpoint (n - 1) :=
    strictMono_midpoint.monotone (Nat.le_sub_one_of_lt lt)
  have here : q = midpoint m := le_antisymm first.upper (order.trans second.lower)
  have there : q = midpoint (n - 1) := le_antisymm (first.upper.trans order) second.lower
  have neighbours : m = n - 1 := strictMono_midpoint.injective (here.symm.trans there)
  have left := first.even (.inr here)
  have right := second.even (.inl there)
  omega

/-- **A rational number rounds to one double only.** -/
theorem RoundsTo.unique (first : RoundsTo q m) (second : RoundsTo q n) : m = n :=
  Nat.le_antisymm (Nat.le_of_not_lt (second.not_lt first)) (Nat.le_of_not_lt (first.not_lt second))

theorem RoundsTo.pos (h : RoundsTo q m) : 0 < q := by
  have zero : 0 ≤ valueAt (m - 1) :=
    mul_nonneg (Nat.cast_nonneg _) (stepAt_pos _).le
  have least : valueAt (m - 1) < midpoint (m - 1) := by
    rw [midpoint_eq]
    exact lt_add_of_pos_right _ (div_pos (stepAt_pos _) (by decide))
  exact zero.trans_lt (least.trans_le h.lower)

/-! ### The interval of a search -/

/-- A power with an integer exponent as a fraction. -/
theorem zpow_eq_div (base : Nat) (pos : 0 < base) (n : Int) :
    (base : ℚ) ^ n = (base ^ n.toNat : Nat) / (base ^ (-n).toNat : Nat) := by
  have nonzero : (base : ℚ) ≠ 0 := Nat.cast_ne_zero.2 pos.ne'
  have parts : n = n.toNat - (-n).toNat := by omega
  rw [Nat.cast_pow, Nat.cast_pow, ← zpow_natCast, ← zpow_natCast, ← zpow_sub₀ nonzero, ← parts]

namespace RoundingInterval

variable {i : RoundingInterval}

/-- The unit of an interval. -/
def unit (i : RoundingInterval) : ℚ :=
  i.unitNum / i.unitDen

/-- The ends of a search are on either side of the value, and there is a unit. -/
structure IsProper (i : RoundingInterval) : Prop where
  below : i.lower < i.value
  above : i.value < i.upper
  unitNum : 0 < i.unitNum
  unitDen : 0 < i.unitDen

/-- The unit of an interval, and the step of the grid of multiples of `10 ^ scale`, as integers over one
denominator. -/
def scaledUnit (i : RoundingInterval) (scale : Int) : Nat :=
  i.unitNum * tenPow (-scale).toNat

@[inherit_doc scaledUnit]
def scaledStep (i : RoundingInterval) (scale : Int) : Nat :=
  tenPow scale.toNat * i.unitDen

theorem scaledStep_pos (h : i.IsProper) (scale : Int) : 0 < i.scaledStep scale :=
  Nat.mul_pos (tenPow_pos _) h.unitDen

theorem scaledUnit_pos (h : i.IsProper) (scale : Int) : 0 < i.scaledUnit scale :=
  Nat.mul_pos h.unitNum (tenPow_pos _)

/-- One number does not exceed another, and is the same only if the interval has its ends. -/
def Reaches (i : RoundingInterval) (a b : Nat) : Prop :=
  a ≤ b ∧ (a = b → i.closed = true)

theorem reaches_of_lt (lt : a < b) : i.Reaches a b :=
  ⟨lt.le, fun same => absurd same lt.ne⟩

theorem reaches_iff : (if i.closed then decide (a ≤ b) else decide (a < b)) = true ↔
    i.Reaches a b := by
  unfold Reaches
  cases i.closed
  · simp
    omega
  · simp

/-- The last point of the grid up to the value. -/
def floor (i : RoundingInterval) (scale : Int) : Nat :=
  i.value * i.scaledUnit scale / i.scaledStep scale

/-- What is found is the point below the value, if it is not below the interval, or the point above, if
it is not above it. -/
theorem nearest?_eq_some (h : i.nearest? tie scale = some k) :
    k = i.floor scale ∧ i.Reaches (i.lower * i.scaledUnit scale) (i.floor scale * i.scaledStep scale) ∨
    k = i.floor scale + 1 ∧
      i.Reaches ((i.floor scale + 1) * i.scaledStep scale) (i.upper * i.scaledUnit scale) := by
  unfold nearest? at h
  dsimp only at h
  split at h
  · cases h
  · next fits _ => exact .inl ⟨(Option.some.inj h).symm, reaches_iff.1 fits⟩
  · next _ fits => exact .inr ⟨(Option.some.inj h).symm, reaches_iff.1 fits⟩
  · next left right =>
      have point : k = i.floor scale + 1 ∨ k = i.floor scale := by
        rw [← Option.some.inj h]
        exact ite_eq_or_eq _ _ _
      rcases point with above | below
      · exact .inr ⟨above, reaches_iff.1 right⟩
      · exact .inl ⟨below, reaches_iff.1 left⟩

theorem nearest?_eq_none (h : i.nearest? tie scale = none) :
    ¬i.Reaches (i.lower * i.scaledUnit scale) (i.floor scale * i.scaledStep scale) ∧
      ¬i.Reaches ((i.floor scale + 1) * i.scaledStep scale) (i.upper * i.scaledUnit scale) := by
  unfold nearest? at h
  dsimp only at h
  split at h
  · next left right =>
      exact ⟨fun reaches => Bool.false_ne_true (left.symm.trans (reaches_iff.2 reaches)),
        fun reaches => Bool.false_ne_true (right.symm.trans (reaches_iff.2 reaches))⟩
  all_goals cases h

/-- What is found lies between the ends. -/
theorem reaches_of_nearest? (proper : i.IsProper) (h : i.nearest? tie scale = some k) :
    i.Reaches (i.lower * i.scaledUnit scale) (k * i.scaledStep scale) ∧
      i.Reaches (k * i.scaledStep scale) (i.upper * i.scaledUnit scale) := by
  have least := Nat.mul_lt_mul_of_pos_right proper.below (scaledUnit_pos proper scale)
  have greatest := Nat.mul_lt_mul_of_pos_right proper.above (scaledUnit_pos proper scale)
  have down : i.floor scale * i.scaledStep scale ≤ i.value * i.scaledUnit scale :=
    Nat.div_mul_le_self _ _
  have up : i.value * i.scaledUnit scale < (i.floor scale + 1) * i.scaledStep scale :=
    (Nat.div_lt_iff_lt_mul (scaledStep_pos proper scale)).1 (Nat.lt_succ_self _)
  obtain ⟨rfl, fits⟩ | ⟨rfl, fits⟩ := nearest?_eq_some h
  · exact ⟨fits, reaches_of_lt (down.trans_lt greatest)⟩
  · exact ⟨reaches_of_lt (least.trans up), fits⟩

/-- A grid whose points are closer than the ends of the interval has a point in it. -/
theorem exists_nearest? (tie : TieRule)
    (fine : i.scaledStep scale < (i.upper - i.lower) * i.scaledUnit scale) :
    ∃ k, i.nearest? tie scale = some k := by
  cases found : i.nearest? tie scale with
  | some k => exact ⟨k, rfl⟩
  | none =>
      obtain ⟨left, right⟩ := nearest?_eq_none found
      have below := Nat.le_of_not_lt (mt reaches_of_lt left)
      have above := Nat.le_of_not_lt (mt reaches_of_lt right)
      rw [Nat.sub_mul] at fine
      rw [Nat.succ_mul] at above
      omega

/-! ### Points of the grid as rational numbers -/

/-- The common denominator of the unit and the step. -/
def denominator (i : RoundingInterval) (scale : Int) : ℚ :=
  i.unitDen * tenPow (-scale).toNat

theorem denominator_pos (h : i.IsProper) (scale : Int) : 0 < i.denominator scale :=
  mul_pos (Nat.cast_pos.2 h.unitDen) (Nat.cast_pos.2 (tenPow_pos _))

theorem unit_pos (h : i.IsProper) : 0 < i.unit :=
  div_pos (Nat.cast_pos.2 h.unitNum) (Nat.cast_pos.2 h.unitDen)

theorem unit_mul_denominator (h : i.IsProper) (scale : Int) :
    i.unit * i.denominator scale = i.scaledUnit scale := by
  have nonzero : (i.unitDen : ℚ) ≠ 0 := Nat.cast_ne_zero.2 h.unitDen.ne'
  rw [unit, denominator, scaledUnit, Nat.cast_mul, ← mul_assoc, div_mul_cancel₀ _ nonzero]

theorem step_mul_denominator (i : RoundingInterval) (scale : Int) :
    10 ^ scale * i.denominator scale = i.scaledStep scale := by
  have power := zpow_eq_div 10 (by decide) scale
  have nonzero : ((tenPow (-scale).toNat : Nat) : ℚ) ≠ 0 := Nat.cast_ne_zero.2 (tenPow_pos _).ne'
  rw [Nat.cast_ofNat] at power
  rw [power, denominator, scaledStep, Nat.cast_mul, mul_comm (i.unitDen : ℚ), ← mul_assoc]
  exact congrArg (· * (i.unitDen : ℚ)) (div_mul_cancel₀ _ nonzero)

/-- Comparing a point of the grid with an end of the interval. -/
theorem unit_le_iff (h : i.IsProper) :
    (a : ℚ) * i.unit ≤ k * 10 ^ scale ↔ a * i.scaledUnit scale ≤ k * i.scaledStep scale := by
  rw [← mul_le_mul_iff_of_pos_right (denominator_pos h scale), mul_assoc, mul_assoc,
    unit_mul_denominator h, step_mul_denominator]
  exact_mod_cast Iff.rfl

theorem le_unit_iff (h : i.IsProper) :
    (k : ℚ) * 10 ^ scale ≤ a * i.unit ↔ k * i.scaledStep scale ≤ a * i.scaledUnit scale := by
  rw [← mul_le_mul_iff_of_pos_right (denominator_pos h scale), mul_assoc, mul_assoc,
    unit_mul_denominator h, step_mul_denominator]
  exact_mod_cast Iff.rfl

theorem eq_unit_iff (h : i.IsProper) :
    (k : ℚ) * 10 ^ scale = a * i.unit ↔ k * i.scaledStep scale = a * i.scaledUnit scale := by
  rw [le_antisymm_iff, le_unit_iff h, unit_le_iff h, Nat.eq_iff_le_and_ge]

/-- The rational number lies in the interval. -/
structure Holds (i : RoundingInterval) (q : ℚ) : Prop where
  lower : i.lower * i.unit ≤ q
  upper : q ≤ i.upper * i.unit
  closed : q = i.lower * i.unit ∨ q = i.upper * i.unit → i.closed = true

/-- **What is found lies in the interval.** -/
theorem holds_of_nearest? (proper : i.IsProper) (h : i.nearest? tie scale = some k) :
    i.Holds (k * 10 ^ scale) := by
  obtain ⟨least, greatest⟩ := reaches_of_nearest? proper h
  refine ⟨(unit_le_iff proper).2 least.1, (le_unit_iff proper).2 greatest.1, ?_⟩
  rintro (same | same)
  · exact least.2 ((eq_unit_iff proper).1 same).symm
  · exact greatest.2 ((eq_unit_iff proper).1 same)

end RoundingInterval

/-! ### The interval of a double -/

section Interval

variable (nonzero : x.isZero = false)
include nonzero

theorem magnitudeBits_pos : 0 < x.magnitudeBits :=
  Nat.pos_of_ne_zero fun zero => by simp [isZero, zero] at nonzero

theorem significand_pos : 0 < x.significand := by
  have pos := magnitudeBits_pos nonzero
  rw [magnitudeBits_eq] at pos
  unfold significand
  rw [twoPow_eq]
  split <;> omega

theorem isProper_roundingInterval : x.roundingInterval.IsProper where
  below := by
    have pos := significand_pos nonzero
    show 4 * x.significand - _ < 4 * x.significand
    split <;> omega
  above := Nat.lt_add_of_pos_right (by decide)
  unitNum := twoPow_pos _
  unitDen := twoPow_pos _

end Interval

theorem unit_roundingInterval (x : Binary64) : x.roundingInterval.unit = 2 ^ x.exponent / 4 := by
  have power := zpow_eq_div 2 (by decide) (x.exponent - 2)
  have quarter : ((2 : Nat) : ℚ) ^ (x.exponent - 2) = 2 ^ x.exponent / 4 := by
    rw [Nat.cast_ofNat, zpow_sub₀ (by decide)]
    rfl
  rw [quarter, Int.neg_sub] at power
  exact power.symm

theorem upper_roundingInterval (x : Binary64) :
    x.roundingInterval.upper * x.roundingInterval.unit = midpoint x.magnitudeBits := by
  have upper : x.roundingInterval.upper = 4 * x.significand + 2 := rfl
  rw [upper, unit_roundingInterval, midpoint_eq, valueAt_magnitudeBits, stepAt_magnitudeBits]
  push_cast
  ring

theorem closed_roundingInterval (x : Binary64) :
    x.roundingInterval.closed = true ↔ x.magnitudeBits % 2 = 0 := by
  have closed : x.roundingInterval.closed = (x.significand % 2 == 0) := rfl
  rw [closed, beq_iff_eq, ← significandAt_magnitudeBits]
  unfold significandAt
  split <;> omega

theorem midpoint_pred (pos : 0 < m) : midpoint (m - 1) = valueAt m - stepAt (m - 1) / 2 := by
  have next := valueAt_succ (m - 1)
  rw [Nat.sub_add_cancel pos] at next
  rw [midpoint_eq, next]
  ring

/-- Below a power of two the doubles are twice as dense. -/
theorem stepAt_pred (pos : 0 < m) : stepAt (m - 1) =
    if significandAt m = 2 ^ 52 ∧ 1 < m / 2 ^ 52 then stepAt m / 2 else stepAt m := by
  by_cases power : significandAt m = 2 ^ 52 ∧ 1 < m / 2 ^ 52
  · have fraction : m % 2 ^ 52 = 0 := by
      have first := power.1
      rw [significandAt, if_neg (by omega)] at first
      omega
    have exponent : ((max ((m - 1) / 2 ^ 52) 1 : Nat) - (1075 : Int)) =
        (max (m / 2 ^ 52) 1 : Nat) - (1075 : Int) - 1 := by omega
    rw [if_pos power, stepAt, exponent, zpow_sub_one₀ (by decide), ← div_eq_mul_inv, stepAt]
  · have exponent : max ((m - 1) / 2 ^ 52) 1 = max (m / 2 ^ 52) 1 := by
      unfold significandAt at power
      split at power <;> omega
    rw [if_neg power, stepAt, exponent, stepAt]

theorem lower_roundingInterval (nonzero : x.isZero = false) :
    x.roundingInterval.lower * x.roundingInterval.unit = midpoint (x.magnitudeBits - 1) := by
  have pos := significand_pos nonzero
  have lower : x.roundingInterval.lower = 4 * x.significand -
      if x.significand = 2 ^ 52 ∧ 1 < x.magnitudeBits / 2 ^ 52 then 1 else 2 := rfl
  rw [lower, unit_roundingInterval, midpoint_pred (magnitudeBits_pos nonzero),
    stepAt_pred (magnitudeBits_pos nonzero), significandAt_magnitudeBits, valueAt_magnitudeBits,
    stepAt_magnitudeBits]
  split
  · rw [Nat.cast_sub (by omega)]
    push_cast
    ring
  · rw [Nat.cast_sub (by omega)]
    push_cast
    ring

/-- What lies in the interval of a double rounds to it. -/
theorem roundsTo_of_holds (nonzero : x.isZero = false) (h : x.roundingInterval.Holds q) :
    RoundsTo q x.magnitudeBits where
  lower := (lower_roundingInterval nonzero).symm.trans_le h.lower
  upper := h.upper.trans_eq (upper_roundingInterval x)
  even := by
    rw [← lower_roundingInterval nonzero, ← upper_roundingInterval, ← closed_roundingInterval]
    exact h.closed

/-! ### Seventeen digits -/

theorem decimalLength_pos (n : Nat) : 0 < decimalLength n :=
  Nat.length_toDigits_pos

theorem lt_tenPow_decimalLength (n : Nat) : n < 10 ^ decimalLength n :=
  (Nat.length_toDigits_le_iff (by decide) (decimalLength_pos n)).1 (Nat.le_refl _)

theorem tenPow_decimalLength_le (pos : 0 < n) : 10 ^ (decimalLength n - 1) ≤ n := by
  rcases Nat.lt_or_ge 1 (decimalLength n) with more | one
  · refine Nat.le_of_not_lt fun lt => ?_
    have short : decimalLength n ≤ decimalLength n - 1 := decimalLength_le lt (by omega)
    omega
  · have none : decimalLength n - 1 = 0 := by omega
    rw [none]
    exact pos

/-- The reciprocal of a power of ten against a fraction. -/
theorem inv_tenPow_le (denPos : 0 < den) (le : den ≤ num * 10 ^ k) :
    (10 : ℚ) ^ (-(k : Int)) ≤ num / den := by
  rw [zpow_neg, zpow_natCast, ← one_div, div_le_div_iff₀ (by positivity) (Nat.cast_pos.2 denPos),
    one_mul]
  exact_mod_cast le

theorem tenPow_decimalExponent_le (numPos : 0 < num) (denPos : 0 < den) :
    (10 : ℚ) ^ decimalExponent num den ≤ num / den := by
  unfold decimalExponent
  split
  · next large =>
      have length := decimalLength_pos (num / den)
      have exponent : (decimalLength (num / den) : Int) - 1 = (decimalLength (num / den) - 1 : Nat) := by
        omega
      have quotient := tenPow_decimalLength_le (Nat.div_pos large denPos)
      rw [exponent, zpow_natCast, le_div_iff₀ (Nat.cast_pos.2 denPos)]
      exact_mod_cast (Nat.le_div_iff_mul_le denPos).1 quotient
  · dsimp only
    split
    · next exact =>
        have length := decimalLength_pos (den / num)
        have exponent : 1 - (decimalLength (den / num) : Int) =
            -(decimalLength (den / num) - 1 : Nat) := by omega
        rw [exponent]
        exact inv_tenPow_le denPos exact
    · have below := (Nat.div_lt_iff_lt_mul numPos).1 (lt_tenPow_decimalLength (den / num))
      rw [Nat.mul_comm] at below
      exact inv_tenPow_le denPos below.le

theorem ratio_eq (x : Binary64) : (x.ratio.1 : ℚ) / x.ratio.2 = valueAt x.magnitudeBits := by
  have power := zpow_eq_div 2 (by decide) x.exponent
  rw [Nat.cast_ofNat] at power
  rw [valueAt_magnitudeBits, power, ← mul_div_assoc, ← Nat.cast_mul]
  rfl

/-- The interval is not much narrower than the last place of the double. -/
theorem significand_lt_width (nonzero : x.isZero = false) : 4 * x.significand <
    (x.roundingInterval.upper - x.roundingInterval.lower) * 10 ^ 16 := by
  have pos := significand_pos nonzero
  have size := x.significand_lt
  show 4 * x.significand < (4 * x.significand + 2 - (4 * x.significand -
    if x.significand = 2 ^ 52 ∧ 1 < x.magnitudeBits / 2 ^ 52 then 1 else 2)) * 10 ^ 16
  split <;> omega

/-- A grid of seventeen digits is finer than the interval. -/
theorem exists_nearest?_of_seventeen (nonzero : x.isZero = false) (tie : TieRule) :
    ∃ k, x.roundingInterval.nearest? tie (decimalExponent x.ratio.1 x.ratio.2 - 16) = some k := by
  have proper := isProper_roundingInterval nonzero
  have numPos : 0 < x.ratio.1 := Nat.mul_pos (significand_pos nonzero) (twoPow_pos _)
  have denPos : 0 < x.ratio.2 := twoPow_pos _
  have leading := tenPow_decimalExponent_le numPos denPos
  have value : (x.ratio.1 : ℚ) / x.ratio.2 = 4 * x.significand * x.roundingInterval.unit := by
    rw [ratio_eq, valueAt_magnitudeBits, unit_roundingInterval]
    ring
  have width : (4 * x.significand : ℚ) <
      (x.roundingInterval.upper - x.roundingInterval.lower : Nat) * 10 ^ 16 := by
    exact_mod_cast significand_lt_width nonzero
  refine RoundingInterval.exists_nearest? tie (Nat.lt_of_not_le fun coarse => ?_)
  rw [← one_mul (RoundingInterval.scaledStep _ _), ← RoundingInterval.unit_le_iff proper,
    Nat.cast_one, one_mul] at coarse
  generalize decimalExponent x.ratio.1 x.ratio.2 = exponent at leading coarse
  generalize (x.roundingInterval.upper - x.roundingInterval.lower : Nat) = ends at width coarse
  have power : (10 : ℚ) ^ (exponent - 16) * 10 ^ 16 = 10 ^ exponent := by
    rw [← zpow_natCast, ← zpow_add₀ (by decide), Nat.cast_ofNat, Int.sub_add_cancel]
  have narrow := calc
    ends * x.roundingInterval.unit * 10 ^ 16 ≤ (10 : ℚ) ^ (exponent - 16) * 10 ^ 16 :=
      mul_le_mul_of_nonneg_right coarse (by positivity)
    _ = 10 ^ exponent := power
    _ ≤ 4 * x.significand * x.roundingInterval.unit := leading.trans_eq value
    _ < ends * 10 ^ 16 * x.roundingInterval.unit :=
      mul_lt_mul_of_pos_right width (RoundingInterval.unit_pos proper)
  rw [mul_right_comm] at narrow
  exact lt_irrefl _ narrow

/-- The shortest digits are found on a grid. -/
theorem exists_nearest?_shortest (nonzero : x.isZero = false) (tie : TieRule) :
    ∃ k scale, x.roundingInterval.nearest? tie scale = some k ∧ x.shortest tie = scientific k scale := by
  unfold shortest
  dsimp only
  cases found : (List.range 17).findSome? fun (places : Nat) =>
      (x.roundingInterval.nearest? tie (decimalExponent x.ratio.1 x.ratio.2 - places)).map
        (scientific · (decimalExponent x.ratio.1 x.ratio.2 - places)) with
  | none =>
      obtain ⟨k, last⟩ := exists_nearest?_of_seventeen nonzero tie
      have missed := List.findSome?_eq_none_iff.1 found 16 (by decide)
      rw [Nat.cast_ofNat, last] at missed
      cases missed
  | some s =>
      obtain ⟨places, -, point⟩ := List.exists_of_findSome?_eq_some found
      obtain ⟨k, nearest, rfl⟩ := Option.map_eq_some_iff.1 point
      exact ⟨k, _, nearest, rfl⟩

/-! ### The digits -/

theorem exists_zeros (digits : List Char) : ∃ zeros,
    digits = (digits.reverse.dropWhile (· == '0')).reverse ++ List.replicate zeros '0' := by
  have parts := congrArg List.reverse
    (List.takeWhile_append_dropWhile (p := (· == '0')) (l := digits.reverse))
  rw [List.reverse_append, List.reverse_reverse] at parts
  refine ⟨(digits.reverse.takeWhile (· == '0')).length, parts.symm.trans (congrArg _ ?_)⟩
  refine List.eq_replicate_iff.2 ⟨List.length_reverse, fun c mem => ?_⟩
  have zero := List.all_eq_true.1 List.all_takeWhile c (List.mem_reverse.1 mem)
  exact beq_iff_eq.1 zero

/-- The zeros that are dropped count as powers of ten. -/
theorem value_trimZeros (digits : List Char) :
    Digits.value (trimZeros digits) * 10 ^ (digits.length - (trimZeros digits).length) =
      Digits.value digits := by
  obtain ⟨zeros, parts⟩ := exists_zeros digits
  unfold trimZeros
  split
  · next none =>
      rw [none] at parts
      have zero : Digits.value digits = 0 := by
        rw [parts, EcmaScript.value_append_zeros]
        exact Nat.zero_mul _
      rw [zero]
      exact Nat.zero_mul _
  · next kept =>
      generalize (digits.reverse.dropWhile (· == '0')).reverse = kept at parts ⊢
      subst parts
      rw [List.length_append, List.length_replicate, Nat.add_sub_cancel_left,
        EcmaScript.value_append_zeros]

theorem toRat_scientific (k : Nat) (scale : Int) : (scientific k scale).toRat = k * 10 ^ scale := by
  have nonempty := (Digits.isNumber_iff.1 (Digits.isNumber_ofNat k)).1
  have short := length_trimZeros_le nonempty
  have value := value_trimZeros (Digits.ofNat k)
  rw [Digits.value_ofNat] at value
  have exponent : scale + ((Digits.ofNat k).length : Int) - 1 + 1 - (trimZeros (Digits.ofNat k)).length =
      ((Digits.ofNat k).length - (trimZeros (Digits.ofNat k)).length : Nat) + scale := by omega
  unfold scientific Scientific.toRat
  dsimp only
  rw [exponent, zpow_add₀ (by decide), zpow_natCast, ← mul_assoc]
  exact_mod_cast congrArg (fun n : Nat => (n : ℚ) * 10 ^ scale) value

/-- **The shortest digits of a double round to it.** -/
theorem roundsTo_shortest (nonzero : x.isZero = false) (tie : TieRule) :
    RoundsTo (x.shortest tie).toRat x.magnitudeBits := by
  obtain ⟨k, scale, nearest, digits⟩ := exists_nearest?_shortest nonzero tie
  rw [digits, toRat_scientific]
  exact roundsTo_of_holds nonzero
    (RoundingInterval.holds_of_nearest? (isProper_roundingInterval nonzero) nearest)

end Binary64

end ApiGraph
