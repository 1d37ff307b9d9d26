/-!
# ApiGraph.Number.Digits

Natural numbers as decimal digits: `Digits.ofNat` writes, `Digits.value` reads, and `Digits.trim` drops
leading zeros.
-/

namespace ApiGraph.Digits

/-- The decimal digits of a number, without leading zeros; zero has one digit. -/
def ofNat (n : Nat) : List Char :=
  Nat.toDigits 10 n

/-- The number that decimal digits denote. -/
def value (digits : List Char) : Nat :=
  digits.foldl (fun n c => n * 10 + (c.toNat - '0'.toNat)) 0

/-- One or more ASCII digits. -/
def isNumber (cs : List Char) : Bool :=
  !cs.isEmpty && cs.all Char.isDigit

/-- Digits without the zeros that lead them; of zeros alone one is kept. -/
def trim (digits : List Char) : List Char :=
  match digits.dropWhile (· == '0') with
  | [] => ['0']
  | kept => kept

theorem isNumber_ofNat (n : Nat) : isNumber (ofNat n) = true := by
  unfold isNumber ofNat
  rw [Bool.and_eq_true_iff, List.all_eq_true]
  refine ⟨?_, fun c mem => Nat.isDigit_of_mem_toDigits (by decide) (by decide) mem⟩
  simp [Nat.toDigits_ne_nil]

/-- Only the digits of zero begin with a zero. -/
theorem eq_zero_of_head?_ofNat {n : Nat} (h : (ofNat n).head? = some '0') : n = 0 := by
  unfold ofNat at h
  induction n using Nat.strongRecOn with
  | ind n ih =>
      rcases Nat.lt_or_ge n 10 with small | large
      · rw [Nat.toDigits_of_lt_base small] at h
        exact Nat.digitChar_eq_zero.1 (Option.some.inj h)
      · obtain ⟨c, rest, upper⟩ := List.exists_cons_of_ne_nil
          (Nat.toDigits_ne_nil (n := n / 10) (b := 10))
        rw [Nat.toDigits_of_base_le (by decide) large, upper] at h
        have zero := ih (n / 10) (by omega) (by rw [upper]; exact h)
        omega

theorem trim_cases (digits : List Char) : trim digits = ['0'] ∨
    ∃ c kept, digits.dropWhile (· == '0') = c :: kept ∧ trim digits = c :: kept ∧ c ≠ '0' := by
  unfold trim
  cases rest : digits.dropWhile (· == '0') with
  | nil => exact .inl rfl
  | cons c kept =>
      have first := List.head?_dropWhile_not (· == '0') digits
      rw [rest] at first
      exact .inr ⟨c, kept, rfl, rfl, by simpa using first⟩

theorem isNumber_trim {digits : List Char} (h : isNumber digits = true) :
    isNumber (trim digits) = true := by
  rcases trim_cases digits with zero | ⟨c, kept, rest, same, -⟩
  · rw [zero]
    rfl
  · rw [same, ← rest]
    unfold isNumber at h ⊢
    rw [Bool.and_eq_true_iff, List.all_eq_true] at h ⊢
    refine ⟨by simp [rest], fun c mem => h.2 c ((List.dropWhile_sublist _).mem mem)⟩

theorem trim_cons {c : Char} (h : c ≠ '0') (rest : List Char) : trim (c :: rest) = c :: rest := by
  rw [trim, List.dropWhile_cons_of_neg (by simpa using h)]

theorem trim_eq_self {digits : List Char} (h : isNumber digits = true)
    (first : digits.head? ≠ some '0') : trim digits = digits := by
  cases digits with
  | nil => cases h
  | cons c rest => exact trim_cons (fun zero => first (congrArg some zero)) rest

/-- After trimming, a leading zero stands alone. -/
theorem eq_of_head?_trim {digits : List Char} (h : (trim digits).head? = some '0') :
    trim digits = ['0'] := by
  rcases trim_cases digits with zero | ⟨c, kept, -, same, first⟩
  · exact zero
  · rw [same] at h
    exact absurd (Option.some.inj h) first

end ApiGraph.Digits
