import Mathlib.Algebra.Order.Ring.Nat
import Mathlib.Tactic.Ring
import ApiGraph.Proofs.Digits
import ApiGraph.Proofs.Parts
import ApiGraph.Wire.Encode

/-!
# ApiGraph.Proofs.Numbers

Numbers on their way into a document and back. A double that is an integer below `2 ^ 53` in absolute
value is written as that integer, and the nearest double to the integer is the same number again;
every other finite double is written as itself.

* `Binary64.roundBits_exact` — an integer of at most 53 bits is not rounded.
* `Binary64.toInt?_ofInt`, `Binary64.same_ofInt` — integers as doubles and back.
* `Literal.same_read_toWire` — a literal read back is the same as before.
* `Literal.toWire_read_toWire` — and it is written as before.
* `Literal.chars_eq_of_same` — equal literals have the same text.
-/

namespace ApiGraph

theorem twoPow_eq (n : Nat) : twoPow n = 2 ^ n := rfl

namespace Binary64

variable {m k : Nat} {negative : Bool} {x y : Binary64} {n : Int}

/-! ### Assembled numbers -/

theorem toNat_ofMagnitudeBits (h : m < 2 ^ 63) :
    (ofMagnitudeBits negative m).bits.toNat = m + if negative then 2 ^ 63 else 0 := by
  unfold ofMagnitudeBits
  simp only [twoPow_eq, Nat.mod_eq_of_lt h, UInt64.toNat_ofNat']
  cases negative <;> simp <;> omega

theorem magnitudeBits_ofMagnitudeBits (h : m < 2 ^ 63) :
    (ofMagnitudeBits negative m).magnitudeBits = m := by
  unfold magnitudeBits
  rw [toNat_ofMagnitudeBits h, twoPow_eq]
  cases negative <;> simp <;> omega

theorem isNegative_ofMagnitudeBits (h : m < 2 ^ 63) :
    (ofMagnitudeBits negative m).isNegative = negative := by
  unfold isNegative
  rw [toNat_ofMagnitudeBits h, twoPow_eq]
  cases negative <;> simp <;> omega

/-- A number is its sign and its other bits. -/
theorem ofMagnitudeBits_eq (x : Binary64) : ofMagnitudeBits x.isNegative x.magnitudeBits = x := by
  obtain ⟨bits⟩ := x
  have bound := bits.toNat_lt
  have low : Binary64.magnitudeBits ⟨bits⟩ < 2 ^ 63 := Nat.mod_lt _ (by decide)
  have same : (ofMagnitudeBits (isNegative ⟨bits⟩) (magnitudeBits ⟨bits⟩)).bits = bits := by
    refine UInt64.toNat_inj.1 ?_
    rw [toNat_ofMagnitudeBits low]
    unfold isNegative magnitudeBits
    simp only [twoPow_eq, beq_iff_eq]
    split <;> omega
  exact congrArg Binary64.mk same

/-! ### Exact integers -/

/-- A significand of 53 bits needs no rounding. -/
theorem divideToEven_one (m : Nat) : divideToEven m 1 = m := by
  simp [divideToEven, Nat.mod_one]

/-- Scaled by its own size, an integer with `k + 1` bits has 53 of them. -/
theorem scaled_bounds (small : k ≤ 52) (low : 2 ^ k ≤ m) (high : m < 2 ^ (k + 1)) :
    2 ^ 52 ≤ m * 2 ^ (52 - k) ∧ m * 2 ^ (52 - k) < 2 ^ 53 := by
  have full : 2 ^ 52 = 2 ^ k * 2 ^ (52 - k) := by rw [← Nat.pow_add]; congr 1; omega
  have double : 2 ^ 53 = 2 ^ (k + 1) * 2 ^ (52 - k) := by rw [← Nat.pow_add]; congr 1; omega
  rw [full, double]
  exact ⟨Nat.mul_le_mul_right _ low, Nat.mul_lt_mul_of_pos_right high (Nat.two_pow_pos _)⟩

theorem descale_exact (small : k ≤ 52) : descale m 1 ((k : Int) - 52) = (m * 2 ^ (52 - k), 1) := by
  have up : ((k : Int) - 52).toNat = 0 := by omega
  simp [descale, up, twoPow_eq]

theorem scaleOf_exact (small : k ≤ 52) (low : 2 ^ k ≤ m) (high : m < 2 ^ (k + 1)) :
    scaleOf m 1 = (k : Int) - 52 := by
  have pos : m ≠ 0 := by have := Nat.two_pow_pos k; omega
  have log : m.log2 = k := (Nat.log2_eq_iff pos).2 ⟨low, high⟩
  have logOne : Nat.log2 1 = 0 := by decide
  have bounds := scaled_bounds small low high
  unfold scaleOf
  -- the first guess is right already, so the correction by one does not apply
  rw [log, logOne, Int.natCast_zero, Int.sub_zero]
  dsimp only
  rw [descale_exact small]
  dsimp only
  rw [twoPow_eq, if_neg (by omega)]
  omega

/-- An integer of at most 53 bits is not rounded. -/
theorem roundBits_exact (small : k ≤ 52) (low : 2 ^ k ≤ m) (high : m < 2 ^ (k + 1)) :
    roundBits m 1 = (k + 1022) * 2 ^ 52 + m * 2 ^ (52 - k) := by
  have pos : m ≠ 0 := by have := Nat.two_pow_pos k; omega
  have bounds := scaled_bounds small low high
  have exponent : ((k : Int) - 52 + 1074).toNat = k + 1022 := by omega
  unfold roundBits
  rw [if_neg pos, scaleOf_exact small low high]
  dsimp only
  rw [descale_exact small]
  dsimp only
  rw [divideToEven_one, exponent, infinityBits, twoPow_eq]
  omega

/-- The bits of an integer below `2 ^ 53`. -/
theorem exists_size (pos : 0 < m) (small : m < 2 ^ 53) :
    ∃ k, k ≤ 52 ∧ 2 ^ k ≤ m ∧ m < 2 ^ (k + 1) := by
  have bounds := (Nat.log2_eq_iff (k := m.log2) pos.ne').1 rfl
  refine ⟨m.log2, ?_, bounds⟩
  by_contra large
  have step : 2 ^ 53 ≤ 2 ^ m.log2 := Nat.pow_le_pow_right (by decide) (by omega)
  omega

/-! ### Doubles that are integers -/

/-- The exact integer among the doubles with these bits. -/
theorem toInt?_of_magnitudeBits (small : k ≤ 52) (low : 2 ^ k ≤ m) (high : m < 2 ^ (k + 1))
    (h : x.magnitudeBits = (k + 1022) * 2 ^ 52 + m * 2 ^ (52 - k)) :
    x.isFinite = true ∧ x.toInt? = some (if x.isNegative then -(m : Int) else m) := by
  have bounds := scaled_bounds small low high
  have field : x.exponentField = k + 1023 := by
    unfold exponentField
    rw [h, twoPow_eq]
    omega
  have fraction : x.fractionField + 2 ^ 52 = m * 2 ^ (52 - k) := by
    unfold fractionField
    rw [h, twoPow_eq]
    omega
  have finite : x.isFinite = true := by
    simp only [isFinite, field, bne_iff_ne]
    omega
  have ratio : x.ratio = (m * 2 ^ (52 - k), 2 ^ (52 - k)) := by
    have up : ((max (k + 1023) 1 : Nat) - (1075 : Int)).toNat = 0 := by omega
    have down : (-((max (k + 1023) 1 : Nat) - (1075 : Int))).toNat = 52 - k := by omega
    unfold ratio significand exponent
    rw [field, if_neg (by omega), up, down, twoPow_eq, twoPow_eq, twoPow_eq, Nat.pow_zero,
      Nat.mul_one, Nat.add_comm, fraction]
  refine ⟨finite, ?_⟩
  unfold toInt?
  rw [ratio]
  dsimp only
  rw [finite, Nat.mul_mod_left, Nat.mul_div_cancel _ (Nat.two_pow_pos _)]
  rfl

/-- A double that is an integer has an integer quotient. -/
theorem exists_of_toInt? (h : x.toInt? = some n) :
    x.isFinite = true ∧ x.ratio.1 = n.natAbs * x.ratio.2 ∧
      n = if x.isNegative then -(n.natAbs : Int) else n.natAbs := by
  unfold toInt? at h
  dsimp only at h
  split at h
  · next whole =>
      obtain ⟨finite, exact⟩ := Bool.and_eq_true_iff.1 whole
      have parts := Nat.div_add_mod' x.ratio.1 x.ratio.2
      rw [beq_iff_eq.1 exact, Nat.add_zero] at parts
      generalize x.ratio.1 / x.ratio.2 = quotient at h parts
      -- the sign is that of the double, also where the quotient is zero
      have size : n.natAbs = quotient := by
        cases x.isNegative <;> simp at h <;> omega
      rw [size]
      exact ⟨finite, parts.symm, (Option.some.inj h).symm⟩
  · cases h

theorem fractionField_lt (x : Binary64) : x.fractionField < 2 ^ 52 :=
  Nat.mod_lt _ (twoPow_pos 52)

theorem magnitudeBits_eq (x : Binary64) :
    x.magnitudeBits = x.exponentField * 2 ^ 52 + x.fractionField :=
  (Nat.div_add_mod' x.magnitudeBits (2 ^ 52)).symm

theorem toInt?_of_isZero (h : x.magnitudeBits = 0) : x.isFinite = true ∧ x.toInt? = some 0 := by
  have field : x.exponentField = 0 := by simp [exponentField, h]
  have fraction : x.fractionField = 0 := by simp [fractionField, h]
  have finite : x.isFinite = true := by simp [isFinite, field]
  have num : x.ratio.1 = 0 := by simp [ratio, significand, field, fraction]
  refine ⟨finite, ?_⟩
  unfold toInt?
  dsimp only
  rw [num, finite, Nat.zero_mod, Nat.zero_div]
  cases x.isNegative <;> rfl

/-- A double without value is a zero. -/
theorem magnitudeBits_of_ratio_eq_zero (h : x.ratio.1 = 0) : x.magnitudeBits = 0 := by
  have none : x.significand = 0 :=
    (Nat.mul_eq_zero.1 h).resolve_right (Nat.two_pow_pos _).ne'
  rw [magnitudeBits_eq]
  unfold significand at none
  rw [twoPow_eq] at none
  split at none <;> omega

/-- Only one power of two brings an integer to 53 bits. -/
theorem shift_unique (small : k ≤ 52) (low : 2 ^ k ≤ m) (high : m < 2 ^ (k + 1)) {d : Nat}
    (least : 2 ^ 52 ≤ m * 2 ^ d) (greatest : m * 2 ^ d < 2 ^ 53) : d = 52 - k := by
  have bounds := scaled_bounds small low high
  have double (a b : Nat) (lt : a < b) : m * 2 ^ a * 2 ≤ m * 2 ^ b := by
    rw [Nat.mul_assoc, ← Nat.pow_succ]
    exact Nat.mul_le_mul_left _ (Nat.pow_le_pow_right (by decide) lt)
  rcases Nat.lt_trichotomy d (52 - k) with lt | same | lt
  · have := double _ _ lt
    omega
  · exact same
  · have := double _ _ lt
    omega

/-- The bits of a double that is an integer of at most 53 bits. -/
theorem magnitudeBits_of_ratio (pos : 0 < m) (small : m < 2 ^ 53)
    (h : x.ratio.1 = m * x.ratio.2) :
    ∃ k, k ≤ 52 ∧ 2 ^ k ≤ m ∧ m < 2 ^ (k + 1) ∧
      x.magnitudeBits = (k + 1022) * 2 ^ 52 + m * 2 ^ (52 - k) := by
  have fraction := x.fractionField_lt
  obtain ⟨k, fits, low, high⟩ := exists_size pos small
  refine ⟨k, fits, low, high, ?_⟩
  rw [magnitudeBits_eq]
  unfold ratio significand exponent at h
  simp only [twoPow_eq] at h
  generalize x.exponentField = e at h ⊢
  generalize x.fractionField = f at h fraction ⊢
  obtain ⟨up, isUp⟩ : ∃ up, ((max e 1 : Nat) - (1075 : Int)).toNat = up := ⟨_, rfl⟩
  obtain ⟨down, isDown⟩ : ∃ down, (-((max e 1 : Nat) - (1075 : Int))).toNat = down := ⟨_, rfl⟩
  rw [isUp, isDown] at h
  rcases Nat.lt_or_ge 1075 e with large | within
  · -- above this exponent every double is at least `2 ^ 53`
    have grows : 2 ^ 1 ≤ 2 ^ up := Nat.pow_le_pow_right (by decide) (by omega)
    have product : 2 ^ 52 * 2 ^ 1 ≤ (2 ^ 52 + f) * 2 ^ up := Nat.mul_le_mul (by omega) grows
    obtain rfl : down = 0 := by omega
    rw [if_neg (by omega), Nat.pow_zero] at h
    omega
  · obtain rfl : up = 0 := by omega
    rw [Nat.pow_zero, Nat.mul_one] at h
    rcases Nat.eq_zero_or_pos e with rfl | normal
    · -- a subnormal double lies below one
      have tiny : 2 ^ 52 ≤ 2 ^ down := Nat.pow_le_pow_right (by decide) (by omega)
      have product : 1 * 2 ^ 52 ≤ m * 2 ^ down := Nat.mul_le_mul pos tiny
      rw [if_pos rfl] at h
      omega
    · rw [if_neg (by omega)] at h
      have shift := shift_unique fits low high (d := down) (by omega) (by omega)
      rw [shift] at h
      omega

/-! ### Integers as doubles -/

theorem roundBits_lt (small : m < 2 ^ 53) : roundBits m 1 < 2 ^ 63 := by
  rcases Nat.eq_zero_or_pos m with rfl | pos
  · exact Nat.two_pow_pos 63
  · obtain ⟨k, fits, low, high⟩ := exists_size pos small
    have bounds := scaled_bounds fits low high
    rw [roundBits_exact fits low high]
    omega

/-- A safe integer is a double. -/
theorem toInt?_ofInt (safe : n.natAbs < 2 ^ 53) :
    (ofInt n).isFinite = true ∧ (ofInt n).toInt? = some n := by
  have bits : (ofInt n).magnitudeBits = roundBits n.natAbs 1 :=
    magnitudeBits_ofMagnitudeBits (roundBits_lt safe)
  have sign : (ofInt n).isNegative = decide (n < 0) := isNegative_ofMagnitudeBits (roundBits_lt safe)
  rcases Nat.eq_zero_or_pos n.natAbs with zero | pos
  · rw [zero] at bits
    obtain rfl : n = 0 := Int.natAbs_eq_zero.1 zero
    exact toInt?_of_isZero (bits.trans (by simp [roundBits]))
  · obtain ⟨k, fits, low, high⟩ := exists_size pos safe
    rw [roundBits_exact fits low high] at bits
    obtain ⟨finite, exact⟩ := toInt?_of_magnitudeBits fits low high bits
    refine ⟨finite, exact.trans (congrArg some ?_)⟩
    rw [sign]
    split <;> grind

theorem isNaN_eq_false (finite : x.isFinite = true) : x.isNaN = false := by
  simp_all [isFinite, isNaN]

/-- A double that is a safe integer is the double nearest to it, but for the sign of zero. -/
theorem same_ofInt (h : x.toInt? = some n) (safe : n.natAbs < 2 ^ 53) : x.same (ofInt n) = true := by
  obtain ⟨finite, whole, sign⟩ := exists_of_toInt? h
  obtain ⟨finite', -⟩ := toInt?_ofInt safe
  unfold same
  rw [isNaN_eq_false finite, isNaN_eq_false finite']
  rcases Nat.eq_zero_or_pos n.natAbs with zero | pos
  · obtain rfl : n = 0 := Int.natAbs_eq_zero.1 zero
    -- a negative zero is read back as a positive one, which is the same number
    have here : x.isZero = true := by
      rw [isZero, magnitudeBits_of_ratio_eq_zero (by rw [whole, zero, Nat.zero_mul])]
      rfl
    have there : (ofInt 0).isZero = true := by decide
    simp [here, there]
  · obtain ⟨k, fits, low, high, bits⟩ := magnitudeBits_of_ratio pos safe whole
    have negative : decide (n < 0) = x.isNegative := by
      cases isNegative : x.isNegative with
      | false =>
          rw [isNegative, if_neg Bool.false_ne_true] at sign
          exact decide_eq_false (by omega)
      | true =>
          rw [isNegative, if_pos rfl] at sign
          exact decide_eq_true (by omega)
    have same : ofInt n = x := by
      rw [ofInt, ofRatio, roundBits_exact fits low high, ← bits, negative, ofMagnitudeBits_eq]
    simp [same]

end Binary64

/-! ### Literals -/

/-- What a number becomes in a document: nothing if it is not finite, the integer that it is if that
is safe, and otherwise itself. -/
theorem Binary64.toWire_cases (x : Binary64) :
    (x.isFinite = false ∧ x.toWire = .null) ∨ (x.isFinite = true ∧ x.toWire = .number (.double x)) ∨
      ∃ n, x.toInt? = some n ∧ n.natAbs < 2 ^ 53 ∧ x.toWire = .number (.integer n) := by
  unfold Binary64.toWire
  cases finite : x.isFinite with
  | false => exact .inl ⟨rfl, rfl⟩
  | true =>
      refine .inr ?_
      cases whole : x.toInt? with
      | none => exact .inl ⟨rfl, rfl⟩
      | some n =>
          by_cases safe : n.natAbs ≤ maxSafeInteger
          · exact .inr ⟨n, rfl, Nat.lt_of_le_of_lt safe (by decide), by simp [safe]⟩
          · exact .inl ⟨rfl, by simp [safe]⟩

/-- A safe integer is written as it stands. -/
theorem Binary64.toWire_ofInt {n : Int} (safe : n.natAbs < 2 ^ 53) :
    (Binary64.ofInt n).toWire = .number (.integer n) := by
  obtain ⟨finite, exact⟩ := Binary64.toInt?_ofInt safe
  have bound : n.natAbs ≤ maxSafeInteger := Nat.le_of_lt_succ safe
  unfold Binary64.toWire
  rw [finite, exact]
  simp [bound]

namespace Literal

/-- Only numbers that are not finite have no written form of their own. -/
def IsFinite : Literal → Prop
  | .number x => x.isFinite = true
  | _ => True

theorem isValid_toWire (l : Literal) : l.toWire.IsValid := by
  cases l with
  | number x =>
      simp only [toWire]
      obtain ⟨-, same⟩ | ⟨-, same⟩ | ⟨n, -, -, same⟩ := x.toWire_cases
      all_goals
        rw [same]
        trivial
  | bigInt n =>
      show Digits.isNumber n.magnitude.toList = true
      exact n.isCanonical.digits
  | _ => trivial

theorem read_toWire_bigInt (n : BigInt) : (Literal.bigInt n).toWire.read = .bigInt n := by
  rw [toWire, WireLiteral.read, BigInt.ofParts_self]
  rfl

/-- **A finite literal comes back the same from a document.** -/
theorem same_read_toWire {l : Literal} (h : l.IsFinite) : l.same l.toWire.read = true := by
  cases l with
  | number x =>
      have finite : x.isFinite = true := h
      simp only [toWire]
      obtain ⟨infinite, -⟩ | ⟨-, same⟩ | ⟨n, exact, safe, same⟩ := x.toWire_cases
      · rw [infinite] at finite
        cases finite
      · rw [same]
        show x.same x = true
        simp [Binary64.same, Binary64.isNaN_eq_false finite]
      · rw [same]
        exact Binary64.same_ofInt exact safe
  | bigInt n =>
      rw [read_toWire_bigInt]
      simp [Literal.same]
  | _ => simp [toWire, WireLiteral.read, Literal.same]

/-- Whatever a literal comes back as, it is written as before. -/
theorem toWire_read_toWire (l : Literal) : l.toWire.read.toWire = l.toWire := by
  cases l with
  | number x =>
      simp only [toWire]
      obtain ⟨-, same⟩ | ⟨-, same⟩ | ⟨n, -, safe, same⟩ := x.toWire_cases
      · rw [same]
        rfl
      · rw [same]
        exact same
      · rw [same]
        exact Binary64.toWire_ofInt safe
  | bigInt n => rw [read_toWire_bigInt]
  | _ => rfl

/-- Only a boolean value comes back as a boolean value. -/
theorem read_toWire_eq_bool_iff {l : Literal} {value : Bool} :
    l.toWire.read = .bool value ↔ l = .bool value := by
  cases l with
  | number x =>
      simp only [toWire]
      obtain ⟨-, same⟩ | ⟨-, same⟩ | ⟨n, -, -, same⟩ := x.toWire_cases
      all_goals simp [same, WireLiteral.read]
  | bigInt n => rw [read_toWire_bigInt]
  | _ => simp [toWire, WireLiteral.read]

/-! ### The text of equal literals -/

/-- Both zeros are written without a sign. -/
theorem chars_zero {x : Binary64} (zero : x.isZero = true) : chars (.number x) = ['0'] := by
  have finite : x.isFinite = true := (Binary64.toInt?_of_isZero (beq_iff_eq.1 zero)).1
  rw [chars, if_pos finite, NumberStyle.render, zero, if_pos rfl]
  rfl

theorem chars_eq_of_same {l m : Literal} (h : l.same m = true) : l.chars = m.chars := by
  cases l with
  | number x =>
      cases m with
      | number y =>
          simp only [Literal.same, Binary64.same, Bool.and_eq_true, Bool.or_eq_true,
            beq_iff_eq] at h
          obtain ⟨-, bits | ⟨zero, zero'⟩⟩ := h
          · have same : x = y := by
              cases x
              exact congrArg Binary64.mk bits
            rw [same]
          · rw [chars_zero zero, chars_zero zero']
      | _ => cases h
  | _ => cases m <;> simp_all [Literal.same]

end Literal

end ApiGraph
