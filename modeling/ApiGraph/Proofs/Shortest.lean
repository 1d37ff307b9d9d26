import ApiGraph.Proofs.EcmaScript
import ApiGraph.Proofs.Numbers

/-!
# ApiGraph.Proofs.Shortest

The shortest digits of a double are few, and their exponent is small. So every number that is finite and
not zero has source syntax, which is exact for its shortest digits and the same for both signs but for
the sign.

* `Binary64.exists_shortest` — the shortest digits are those of a number of bounded size.
* `Binary64.fits_shortest` — they can be laid out.
* `Literal.chars_number` — the source syntax of numbers.
-/

namespace ApiGraph

namespace Binary64

variable {x y : Binary64} {num den m i j k : Nat} {scale : Int} {tie : TieRule}

/-! ### Sizes -/

theorem lt_of_lt_tenPow (h : m < 10 ^ i) (le : i ≤ k) : m < 10 ^ k :=
  h.trans_le (Nat.pow_le_pow_right (by decide) le)

theorem lt_of_le_tenPow (h : m ≤ 10 ^ i) (lt : i < k) : m < 10 ^ k :=
  h.trans_lt (Nat.pow_lt_pow_right (by decide) lt)

/-- A product with a small power of two or ten. -/
theorem mul_lt_tenPow {n : Nat} (left : m < 10 ^ i) (right : n ≤ 10 ^ j) (le : i + j ≤ k) :
    m * n < 10 ^ k := by
  refine lt_of_lt_tenPow ?_ le
  rw [Nat.pow_add]
  exact Nat.mul_lt_mul_of_lt_of_le left right (Nat.pow_pos (by decide))

theorem twoPow_le (h : k ≤ i) : twoPow k ≤ 10 ^ i :=
  (Nat.pow_le_pow_left (by decide) k).trans (Nat.pow_le_pow_right (by decide) h)

theorem tenPow_le (h : k ≤ i) : tenPow k ≤ 10 ^ i :=
  Nat.pow_le_pow_right (by decide) h

theorem significand_lt (x : Binary64) : x.significand < 2 ^ 53 := by
  have fraction := x.fractionField_lt
  unfold significand
  rw [twoPow_eq]
  split <;> omega

theorem exponent_bounds (x : Binary64) : -1074 ≤ x.exponent ∧ x.exponent ≤ 972 := by
  have low : x.magnitudeBits < 2 ^ 63 := Nat.mod_lt _ (twoPow_pos 63)
  have field : x.exponentField < 2 ^ 11 := by
    unfold exponentField
    rw [twoPow_eq]
    omega
  unfold exponent
  omega

theorem ratio_lt (x : Binary64) : x.ratio.1 < 10 ^ 1100 ∧ x.ratio.2 < 10 ^ 1100 := by
  obtain ⟨low, high⟩ := x.exponent_bounds
  have size : x.significand < 10 ^ 53 :=
    x.significand_lt.trans_le (Nat.pow_le_pow_left (by decide) 53)
  have up : twoPow x.exponent.toNat ≤ 10 ^ 972 := twoPow_le (by omega)
  have down : twoPow (-x.exponent).toNat ≤ 10 ^ 1074 := twoPow_le (by omega)
  exact ⟨mul_lt_tenPow size up (by decide), lt_of_le_tenPow down (by decide)⟩

theorem decimalLength_le (h : m < 10 ^ k) (pos : 0 < k) : decimalLength m ≤ k :=
  (Nat.length_toDigits_le_iff (by decide) pos).2 h

theorem natAbs_decimalExponent_le (above : num < 10 ^ k) (below : den < 10 ^ k) (pos : 0 < k) :
    (decimalExponent num den).natAbs ≤ k := by
  have whole := decimalLength_le ((Nat.div_le_self num den).trans_lt above) pos
  have inverse := decimalLength_le ((Nat.div_le_self den num).trans_lt below) pos
  unfold decimalExponent
  split
  · omega
  · dsimp only
    split <;> omega

/-! ### Shortest digits -/

/-- The points of the grid that are looked at are the last one up to the value and the next one. -/
theorem nearest?_cases {interval : RoundingInterval} (h : interval.nearest? tie scale = some m) :
    ∃ step, m = interval.value * (interval.unitNum * tenPow (-scale).toNat) / step ∨
      m = interval.value * (interval.unitNum * tenPow (-scale).toNat) / step + 1 := by
  refine ⟨tenPow scale.toNat * interval.unitDen, ?_⟩
  unfold RoundingInterval.nearest? at h
  dsimp only at h
  split at h
  · cases h
  · exact .inl (Option.some.inj h).symm
  · exact .inr (Option.some.inj h).symm
  · rw [← Option.some.inj h]
    exact (ite_eq_or_eq _ _ _).symm

theorem nearest?_lt (x : Binary64) (least : -1200 ≤ scale)
    (h : x.roundingInterval.nearest? tie scale = some m) : m < 10 ^ 2500 := by
  obtain ⟨low, high⟩ := x.exponent_bounds
  have value : x.roundingInterval.value < 10 ^ 55 := by
    have size := x.significand_lt
    show 4 * x.significand < 10 ^ 55
    omega
  have unit : x.roundingInterval.unitNum ≤ 10 ^ 972 := twoPow_le (by omega)
  have product : x.roundingInterval.value * x.roundingInterval.unitNum < 10 ^ 1100 :=
    mul_lt_tenPow value unit (by decide)
  have scaled : x.roundingInterval.value *
      (x.roundingInterval.unitNum * tenPow (-scale).toNat) < 10 ^ 2400 := by
    rw [← Nat.mul_assoc]
    exact mul_lt_tenPow product (tenPow_le (by omega : (-scale).toNat ≤ 1200)) (by decide)
  obtain ⟨step, point⟩ := nearest?_cases h
  have below := Nat.div_le_self (x.roundingInterval.value *
    (x.roundingInterval.unitNum * tenPow (-scale).toNat)) step
  have within := below.trans_lt scaled
  rcases point with rfl | rfl
  · exact lt_of_lt_tenPow within (by decide)
  · exact lt_of_le_tenPow (Nat.succ_le_of_lt within) (by decide)

/-- The shortest digits are those of a number of bounded size on a grid of bounded scale. -/
theorem exists_shortest (tie : TieRule) (x : Binary64) :
    ∃ m scale, x.shortest tie = scientific m scale ∧ m < 10 ^ 2500 ∧ scale.natAbs ≤ 1200 := by
  obtain ⟨above, below⟩ := x.ratio_lt
  have size := natAbs_decimalExponent_le above below (by decide)
  unfold shortest
  dsimp only
  generalize decimalExponent x.ratio.1 x.ratio.2 = exponent at size ⊢
  cases found : (List.range 17).findSome? fun (places : Nat) =>
      (x.roundingInterval.nearest? tie (exponent - places)).map (scientific · (exponent - places)) with
  | none =>
      -- the value cut to seventeen digits
      refine ⟨_, exponent - 16, rfl, ?_, by omega⟩
      exact (Nat.div_le_self _ _).trans_lt
        (mul_lt_tenPow above (tenPow_le (by omega : (16 - exponent).toNat ≤ 1116)) (by decide))
  | some s =>
      obtain ⟨places, mem, point⟩ := List.exists_of_findSome?_eq_some found
      have few := List.mem_range.1 mem
      obtain ⟨m, nearest, rfl⟩ := Option.map_eq_some_iff.1 point
      exact ⟨m, exponent - places, rfl, x.nearest?_lt (by omega) nearest, by omega⟩

theorem kept_sublist (digits : List Char) :
    (digits.reverse.dropWhile (· == '0')).reverse.Sublist digits := by
  have dropped := (List.dropWhile_sublist (l := digits.reverse) (· == '0')).reverse
  rwa [List.reverse_reverse] at dropped

theorem isNumber_trimZeros {digits : List Char} (h : Digits.isNumber digits = true) :
    Digits.isNumber (trimZeros digits) = true := by
  unfold trimZeros
  split
  · rfl
  · next nonempty =>
      refine Digits.isNumber_iff.2 ⟨nonempty, fun c mem => ?_⟩
      exact Digits.mem_isDigit h c ((kept_sublist digits).mem mem)

theorem length_trimZeros_le {digits : List Char} (nonempty : digits ≠ []) :
    (trimZeros digits).length ≤ digits.length := by
  unfold trimZeros
  split
  · exact List.length_pos_iff.2 nonempty
  · exact (kept_sublist digits).length_le

/-- The shortest digits of a double can be laid out. -/
theorem fits_shortest (tie : TieRule) (x : Binary64) : (x.shortest tie).Fits := by
  obtain ⟨m, scale, digits, size, near⟩ := exists_shortest tie x
  have short : decimalLength m ≤ 2500 := decimalLength_le size (by decide)
  unfold decimalLength at short
  have isNumber := Digits.isNumber_ofNat m
  have length := length_trimZeros_le (Digits.isNumber_iff.1 isNumber).1
  clear size
  rw [digits]
  unfold scientific
  exact
    { isNumber := isNumber_trimZeros isNumber
      length := by dsimp only; omega
      exponent := by dsimp only; omega }

/-! ### Signs -/

theorem shortest_congr (h : x.magnitudeBits = y.magnitudeBits) : x.shortest tie = y.shortest tie := by
  have field : x.exponentField = y.exponentField := by rw [exponentField, h, exponentField]
  have significand : x.significand = y.significand := by
    unfold Binary64.significand fractionField
    rw [field, h]
  have exponent : x.exponent = y.exponent := by rw [Binary64.exponent, field, Binary64.exponent]
  have interval : x.roundingInterval = y.roundingInterval := by
    unfold roundingInterval
    rw [significand, exponent, field]
  have ratio : x.ratio = y.ratio := by rw [Binary64.ratio, significand, exponent, Binary64.ratio]
  unfold shortest
  rw [interval, ratio]

theorem magnitudeBits_neg (x : Binary64) : x.neg.magnitudeBits = x.magnitudeBits :=
  magnitudeBits_ofMagnitudeBits (Nat.mod_lt _ (twoPow_pos 63))

theorem isFinite_neg (x : Binary64) : x.neg.isFinite = x.isFinite := by
  unfold isFinite exponentField
  rw [magnitudeBits_neg]

theorem isZero_neg (x : Binary64) : x.neg.isZero = x.isZero := by
  unfold isZero
  rw [magnitudeBits_neg]

theorem shortest_neg (x : Binary64) : x.neg.shortest tie = x.shortest tie :=
  shortest_congr x.magnitudeBits_neg

theorem isNegative_neg (x : Binary64) : x.neg.isNegative = !x.isNegative :=
  isNegative_ofMagnitudeBits (Nat.mod_lt _ (twoPow_pos 63))

end Binary64

namespace Literal

open EcmaScript

variable {x : Binary64}

/-- The source syntax of a number is the layout of its shortest digits, after its sign. -/
theorem chars_number_eq {text : List Char} (finite : x.isFinite = true) (nonzero : x.isZero = false)
    (layout : layout? (x.shortest .up).text = some text) :
    chars (.number x) = if x.isNegative then '-' :: text else text := by
  rw [chars, if_pos finite, NumberStyle.render, nonzero, if_neg Bool.false_ne_true]
  show (if x.isNegative then '-' :: (layout? (x.shortest .up).text).getD []
    else (layout? (x.shortest .up).text).getD []) = _
  rw [layout, Option.getD_some]

/-- **Numbers in source syntax are exact.** The layout of digits and an exponent goes through, in the one
form that is prescribed, and denotes their value. The digits of a number that is finite and not zero
can be laid out, and the number is written as that layout after its sign. -/
theorem chars_number :
    (∀ s : Scientific, s.Fits → ∃ text, layout? s.text = some text ∧ decimal? text = some s.toRat ∧
      ∀ form, IsForm s.digits (s.exponent + 1) form ↔ form = text) ∧
    ∀ x : Binary64, x.isFinite = true → x.isZero = false →
      (x.shortest .up).Fits ∧ ∃ text, layout? (x.shortest .up).text = some text ∧
        chars (.number x) = (if x.isNegative then '-' :: text else text) ∧
        chars (.number x.neg) = if x.isNegative then text else '-' :: text := by
  refine ⟨fun s fits => exists_layout? fits, fun x finite nonzero => ?_⟩
  obtain ⟨text, layout, -⟩ := exists_layout? (Binary64.fits_shortest .up x)
  have opposite : chars (.number x.neg) = if !x.isNegative then '-' :: text else text := by
    rw [← x.isNegative_neg]
    refine chars_number_eq (x.isFinite_neg.trans finite) (x.isZero_neg.trans nonzero) ?_
    rw [x.shortest_neg, layout]
  refine ⟨Binary64.fits_shortest .up x, text, layout, chars_number_eq finite nonzero layout, ?_⟩
  rw [opposite]
  cases x.isNegative <;> rfl

/-- The layout of `2.5e-8`, and the source syntax of the double `-1.5`. -/
theorem chars_negative :
    (∃ text, layout? (Scientific.text ⟨['2', '5'], -8⟩) = some text ∧
      decimal? text = some (Scientific.toRat ⟨['2', '5'], -8⟩)) ∧
    chars (.number ⟨0xbff8000000000000⟩) =
      '-' :: chars (.number (Binary64.neg ⟨0xbff8000000000000⟩)) := by
  obtain ⟨laidOut, written⟩ := chars_number
  obtain ⟨small, layout, value, -⟩ := laidOut ⟨['2', '5'], -8⟩ ⟨by decide, by decide, by decide⟩
  obtain ⟨-, text, -, negative, positive⟩ := written ⟨0xbff8000000000000⟩ (by decide) (by decide)
  exact ⟨⟨small, layout, value⟩, by rw [negative, positive]; rfl⟩

end Literal

end ApiGraph
