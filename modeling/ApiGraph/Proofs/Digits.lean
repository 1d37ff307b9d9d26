import ApiGraph.Number.Digits

/-!
# ApiGraph.Proofs.Digits

Decimal digits and the numbers that they denote.

* `Digits.value_ofNat` — a number is read back from its digits.
* `Digits.ofNat_value` — digits are written back as they were read, without the zeros that lead them.
* `Digits.toList_toString` — written integers.
-/

namespace ApiGraph

namespace Digits

variable {c : Char} {n : Nat} {digits : List Char}

theorem isNumber_iff :
    isNumber digits = true ↔ digits ≠ [] ∧ ∀ c ∈ digits, c.isDigit = true := by
  rw [isNumber, Bool.and_eq_true_iff, List.all_eq_true]
  simp

theorem mem_isDigit (h : isNumber digits = true) : ∀ c ∈ digits, c.isDigit = true :=
  (isNumber_iff.1 h).2

/-- A character that is no digit is not among digits. -/
theorem not_mem (h : ∀ c ∈ digits, c.isDigit = true) (other : c.isDigit = false) : c ∉ digits := by
  intro mem
  rw [h c mem] at other
  cases other

theorem value_eq (digits : List Char) : value digits = Nat.ofDigitChars 10 digits 0 := by
  rw [Nat.ofDigitChars_eq_foldl]
  simp only [Nat.mul_comm 10]
  rfl

/-! ### Reading and writing -/

theorem exists_digitChar (h : c.isDigit = true) : ∃ d, d < 10 ∧ c = d.digitChar := by
  obtain ⟨low, high⟩ := Char.isDigit_iff_toNat.1 h
  have least : '0'.toNat = 48 := rfl
  have greatest : '9'.toNat = 57 := rfl
  have small : c.toNat - 48 < 10 := by omega
  refine ⟨c.toNat - 48, small, Char.toNat_inj.1 ?_⟩
  rw [Nat.toNat_digitChar_of_lt_ten small]
  omega

theorem value_ofNat (n : Nat) : value (ofNat n) = n := by
  rw [value_eq]
  exact Nat.ofDigitChars_ten_toDigits

/-- Digits read after those of a positive number stand after them. -/
theorem ofNat_ofDigitChars (pos : 0 < n) (h : ∀ c ∈ digits, c.isDigit = true) :
    ofNat (Nat.ofDigitChars 10 digits n) = ofNat n ++ digits := by
  induction digits generalizing n with
  | nil => simp
  | cons c rest ih =>
      obtain ⟨d, small, rfl⟩ := exists_digitChar (h c List.mem_cons_self)
      have one : ofNat (10 * n + d) = ofNat n ++ [d.digitChar] := by
        unfold ofNat
        rw [← Nat.toDigits_append_toDigits (by decide) pos small, Nat.toDigits_of_lt_base small]
      rw [Nat.ofDigitChars_cons_digitChar_of_lt_ten small,
        ih (by omega) fun c mem => h c (List.mem_cons_of_mem _ mem), one, List.append_assoc,
        List.singleton_append]

theorem trim_zero_cons (rest : List Char) : trim ('0' :: rest) = trim rest := rfl

/-- Digits are written back as they were read, without the zeros that lead them. -/
theorem ofNat_value (h : ∀ c ∈ digits, c.isDigit = true) : ofNat (value digits) = trim digits := by
  rw [value_eq]
  induction digits with
  | nil => rfl
  | cons c rest ih =>
      have others (x : Char) (mem : x ∈ rest) := h x (List.mem_cons_of_mem _ mem)
      obtain ⟨d, small, rfl⟩ := exists_digitChar (h c List.mem_cons_self)
      rw [Nat.ofDigitChars_cons_digitChar_of_lt_ten small, Nat.mul_zero, Nat.zero_add]
      rcases Nat.eq_zero_or_pos d with rfl | pos
      · exact (ih others).trans (trim_zero_cons rest).symm
      · have first : d.digitChar ≠ '0' := fun zero => Nat.ne_of_gt pos (Nat.digitChar_eq_zero.1 zero)
        rw [ofNat_ofDigitChars pos others, trim_cons first, ofNat, Nat.toDigits_of_lt_base small,
          List.singleton_append]

/-- Zeros that lead do not count. -/
theorem value_trim (h : isNumber digits = true) : value (trim digits) = value digits := by
  rw [← ofNat_value (mem_isDigit h), value_ofNat]

/-- An integer is written as a minus sign or none and the digits of its absolute value. -/
theorem toList_toString (n : Int) :
    (toString n).toList = if n < 0 then '-' :: ofNat n.natAbs else ofNat n.natAbs := by
  rw [Int.toString_eq_repr, Int.repr_eq_if]
  rcases Int.lt_or_le n 0 with below | least
  · have size : (-n).toNat = n.natAbs := by omega
    rw [if_neg (by omega), if_pos below, size, String.toList_append, Nat.toList_repr]
    rfl
  · have size : n.toNat = n.natAbs := by omega
    rw [if_pos least, if_neg (by omega), size, Nat.toList_repr]
    rfl

end Digits

end ApiGraph
