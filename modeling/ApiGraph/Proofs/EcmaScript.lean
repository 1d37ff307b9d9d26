import Mathlib.Algebra.Field.Rat
import Mathlib.Algebra.Order.Ring.Nat
import Mathlib.Tactic.Ring
import ApiGraph.Number.EcmaScript
import ApiGraph.Proofs.Digits

/-!
# ApiGraph.Proofs.EcmaScript

The layout of positive decimals. None of its steps goes wrong, the text has the form that is prescribed for
the number of digits before the point, and read as a decimal numeral it denotes the very decimal that
was laid out.

* `EcmaScript.decimal?` — what a decimal numeral denotes, as a rational number.
* `EcmaScript.IsForm` — the forms of `Number::toString`; `IsForm.unique`, `IsForm.decimal?_eq`.
* `EcmaScript.exists_layoutDigits?` — the layout of digits has that form.
* `EcmaScript.exists_layout?` — so has the layout of a text in exponent form.
-/

namespace ApiGraph

/-- Digits and an exponent whose sizes are far from the ends of 32-bit integers. -/
structure Scientific.Fits (s : Scientific) : Prop where
  isNumber : Digits.isNumber s.digits = true
  length : s.digits.length < 2 ^ 30
  exponent : s.exponent.natAbs < 2 ^ 30

/-- The rational number `d₁.d₂…dₖ · 10 ^ exponent`. -/
def Scientific.toRat (s : Scientific) : ℚ :=
  Digits.value s.digits * 10 ^ (s.exponent + 1 - s.digits.length)

namespace EcmaScript

variable {c : Char} {cs before after digits whole fraction mantissa text : List Char} {n : Int}

/-! ### Splitting -/

theorem splitOnce_append (h : c ∉ before) :
    splitOnce c (before ++ c :: after) = some (before, after) := by
  induction before with
  | nil => simp [splitOnce]
  | cons d rest ih =>
      obtain ⟨other, others⟩ := not_or.1 (mt List.mem_cons.2 h)
      simp [splitOnce, Ne.symm other, ih others]

theorem splitOnce_eq_none (h : c ∉ cs) : splitOnce c cs = none := by
  induction cs with
  | nil => rfl
  | cons d rest ih =>
      obtain ⟨other, others⟩ := not_or.1 (mt List.mem_cons.2 h)
      simp [splitOnce, Ne.symm other, ih others]

/-! ### Written integers -/

theorem natural?_ofNat (m : Nat) : natural? (Digits.ofNat m) = some m := by
  rw [natural?, if_pos (Digits.isNumber_ofNat m), Digits.value_ofNat]

theorem integer?_minus (m : Nat) : integer? ('-' :: Digits.ofNat m) = some (-(m : Int)) := by
  rw [integer?, natural?_ofNat]
  rfl

theorem integer?_plus (m : Nat) : integer? ('+' :: Digits.ofNat m) = some (m : Int) := by
  rw [integer?, natural?_ofNat]
  rfl

theorem integer?_ofNat (m : Nat) : integer? (Digits.ofNat m) = some (m : Int) := by
  have digit := Digits.mem_isDigit (Digits.isNumber_ofNat m)
  have minus : '-' ∉ Digits.ofNat m := Digits.not_mem digit rfl
  have plus : '+' ∉ Digits.ofNat m := Digits.not_mem digit rfl
  unfold integer?
  split
  · next same => exact absurd (same ▸ List.mem_cons_self) minus
  · next same => exact absurd (same ▸ List.mem_cons_self) plus
  · rw [natural?_ofNat]
    rfl

theorem integer?_toString (n : Int) : integer? (toString n).toList = some n := by
  rw [Digits.toList_toString]
  split
  · rw [integer?_minus, Int.ofNat_natAbs_of_nonpos (by omega), Int.neg_neg]
  · rw [integer?_ofNat, Int.natAbs_of_nonneg (by omega)]

/-- An integer with its sign, whichever that is. -/
theorem integer?_sign (n : Int) :
    integer? ((if n < 0 then '-' else '+') :: Digits.ofNat n.natAbs) = some n := by
  split
  · rw [integer?_minus, Int.ofNat_natAbs_of_nonpos (by omega), Int.neg_neg]
  · rw [integer?_plus, Int.natAbs_of_nonneg (by omega)]

/-! ### Decimal numerals -/

/-- Digits with a point or none, as a natural number and how many of the digits stand after the point. -/
def mantissa? (text : List Char) : Option (Nat × Nat) :=
  let (whole, fraction) := (splitOnce '.' text).getD (text, [])
  if Digits.isNumber whole && fraction.all Char.isDigit then
    some (Digits.value (whole ++ fraction), fraction.length)
  else
    none

/-- The rational number that a decimal numeral denotes. -/
def decimal? (text : List Char) : Option ℚ := do
  let (mantissa, exponent) := (splitOnce 'e' text).getD (text, ['0'])
  let (m, places) ← mantissa? mantissa
  let e ← integer? exponent
  return m * 10 ^ (e - places)

theorem mantissa?_whole (h : Digits.isNumber digits = true) :
    mantissa? digits = some (Digits.value digits, 0) := by
  unfold mantissa?
  rw [splitOnce_eq_none (Digits.not_mem (Digits.mem_isDigit h) rfl)]
  simp [h]

theorem mantissa?_point (h : Digits.isNumber whole = true)
    (digit : ∀ c ∈ fraction, c.isDigit = true) :
    mantissa? (whole ++ '.' :: fraction) =
      some (Digits.value (whole ++ fraction), fraction.length) := by
  unfold mantissa?
  rw [splitOnce_append (Digits.not_mem (Digits.mem_isDigit h) rfl)]
  simp [h, List.all_eq_true.2 digit]

theorem decimal?_plain {m places : Nat} (h : 'e' ∉ text) (read : mantissa? text = some (m, places)) :
    decimal? text = some ((m : ℚ) * 10 ^ (-(places : Int))) := by
  unfold decimal?
  have zero : integer? ['0'] = some 0 := by decide
  rw [splitOnce_eq_none h, Option.getD_none]
  simp [read, zero]

theorem decimal?_exponent {m places : Nat} {exponent : List Char} (h : 'e' ∉ mantissa)
    (read : mantissa? mantissa = some (m, places)) (power : integer? exponent = some n) :
    decimal? (mantissa ++ 'e' :: exponent) = some ((m : ℚ) * 10 ^ (n - places)) := by
  unfold decimal?
  rw [splitOnce_append h, Option.getD_some]
  simp [read, power]

theorem not_mem_point (h : ∀ c ∈ whole, c.isDigit = true)
    (digit : ∀ c ∈ fraction, c.isDigit = true) : 'e' ∉ whole ++ '.' :: fraction := by
  rw [List.mem_append, List.mem_cons, not_or, not_or]
  exact ⟨Digits.not_mem h rfl, by decide, Digits.not_mem digit rfl⟩

/-- A numeral with a point: its digits are scaled down by those after the point. -/
theorem decimal?_point (h : Digits.isNumber whole = true)
    (digit : ∀ c ∈ fraction, c.isDigit = true) :
    decimal? (whole ++ '.' :: fraction) =
      some ((Digits.value (whole ++ fraction) : ℚ) * 10 ^ (-(fraction.length : Int))) :=
  decimal?_plain (not_mem_point (Digits.mem_isDigit h) digit) (mantissa?_point h digit)

/-- Digits with a point after the first, if there are more. -/
def pointed (lead : Char) (rest : List Char) : List Char :=
  lead :: if rest = [] then [] else '.' :: rest

section Pointed

variable {lead : Char} {rest : List Char} (h : Digits.isNumber (lead :: rest) = true)
include h

theorem isNumber_lead : Digits.isNumber [lead] = true := by
  have digits := (Digits.isNumber_iff.1 h).2
  refine Digits.isNumber_iff.2 ⟨List.cons_ne_nil _ _, fun c mem => digits c ?_⟩
  exact List.mem_cons.2 (.inl (List.mem_singleton.1 mem))

theorem isDigit_of_mem_rest : ∀ c ∈ rest, c.isDigit = true := fun c mem =>
  Digits.mem_isDigit h c (List.mem_cons_of_mem _ mem)

theorem not_mem_pointed : 'e' ∉ pointed lead rest := by
  unfold pointed
  split
  · exact Digits.not_mem (Digits.mem_isDigit (isNumber_lead h)) rfl
  · exact not_mem_point (Digits.mem_isDigit (isNumber_lead h)) (isDigit_of_mem_rest h)

theorem mantissa?_pointed :
    mantissa? (pointed lead rest) = some (Digits.value (lead :: rest), rest.length) := by
  unfold pointed
  split
  · next alone =>
      subst alone
      exact mantissa?_whole h
  · exact mantissa?_point (isNumber_lead h) (isDigit_of_mem_rest h)

theorem filter_pointed : (pointed lead rest).filter (· != '.') = lead :: rest := by
  have kept : (lead :: rest).filter (· != '.') = lead :: rest := by
    refine List.filter_eq_self.2 fun c mem => bne_iff_ne.2 ?_
    rintro rfl
    cases Digits.mem_isDigit h _ mem
  rw [← kept]
  unfold pointed
  split
  · next alone => rw [alone]
  · simp [List.filter_cons]

/-- A numeral in exponent form. -/
theorem decimal?_pointed {exponent : List Char} (power : integer? exponent = some n) :
    decimal? (pointed lead rest ++ 'e' :: exponent) =
      some ((Digits.value (lead :: rest) : ℚ) * 10 ^ (n - rest.length)) :=
  decimal?_exponent (not_mem_pointed h) (mantissa?_pointed h) power

end Pointed

/-! ### Forms -/

/-- How `Number::toString` writes the value `0.d₁d₂…dₖ · 10 ^ n`, which has `n` digits before the point. -/
inductive IsForm (digits : List Char) (n : Int) : List Char → Prop
  /-- An integer, with as many zeros as it takes. -/
  | integral (zeros : Nat) (count : digits.length + zeros = n) (most : n ≤ 21) :
      IsForm digits n (digits ++ List.replicate zeros '0')
  /-- The point is among the digits. -/
  | inside (whole fraction : List Char) (parts : digits = whole ++ fraction)
      (left : whole ≠ []) (right : fraction ≠ []) (count : whole.length = n) (most : n ≤ 21) :
      IsForm digits n (whole ++ '.' :: fraction)
  /-- The point is before the digits, with a few zeros between. -/
  | below (zeros : Nat) (count : n + zeros = 0) (least : -6 < n) :
      IsForm digits n ('0' :: '.' :: (List.replicate zeros '0' ++ digits))
  /-- The exponent form, with a point only if there are more digits than one. -/
  | exponent (lead : Char) (rest : List Char) (parts : digits = lead :: rest)
      (outside : n ≤ -6 ∨ 21 < n) :
      IsForm digits n (pointed lead rest ++
        'e' :: (if n - 1 < 0 then '-' else '+') :: Digits.ofNat (n - 1).natAbs)

/-- There is only one form for given digits. -/
theorem IsForm.unique {a b : List Char} (nonempty : digits ≠ []) (ha : IsForm digits n a)
    (hb : IsForm digits n b) : a = b := by
  have pos := List.length_pos_iff.2 nonempty
  cases ha with
  | integral zeros count most =>
      cases hb with
      | integral zeros' count' => 
          obtain rfl : zeros = zeros' := by omega
          rfl
      | inside whole fraction parts left right count' =>
          have := List.length_pos_iff.2 right
          rw [parts, List.length_append] at count
          omega
      | below zeros' count' => omega
      | exponent lead rest parts outside => omega
  | inside whole fraction parts left right count most =>
      have more := List.length_pos_iff.2 left
      have others := List.length_pos_iff.2 right
      cases hb with
      | integral zeros' count' =>
          rw [parts, List.length_append] at count'
          omega
      | inside whole' fraction' parts' left' right' count' =>
          obtain ⟨rfl, rfl⟩ := List.append_inj (parts.symm.trans parts') (by omega)
          rfl
      | below zeros' count' => omega
      | exponent lead rest parts outside => omega
  | below zeros count least =>
      cases hb with
      | integral zeros' count' => omega
      | inside whole fraction parts left right count' =>
          have := List.length_pos_iff.2 left
          omega
      | below zeros' count' =>
          obtain rfl : zeros = zeros' := by omega
          rfl
      | exponent lead rest parts outside => omega
  | exponent lead rest parts outside =>
      cases hb with
      | integral zeros' count' => omega
      | inside whole fraction parts left right count' =>
          have := List.length_pos_iff.2 left
          omega
      | below zeros' count' => omega
      | exponent lead' rest' parts' =>
          cases parts.symm.trans parts'
          rfl

theorem value_append_zeros (digits : List Char) (zeros : Nat) :
    Digits.value (digits ++ List.replicate zeros '0') = Digits.value digits * 10 ^ zeros := by
  rw [Digits.value_eq, Nat.ofDigitChars_append, Nat.ofDigitChars_replicate_zero, Digits.value_eq,
    Nat.mul_comm]

theorem value_zeros_append (digits : List Char) (zeros : Nat) :
    Digits.value ('0' :: (List.replicate zeros '0' ++ digits)) = Digits.value digits := by
  have all : '0' :: (List.replicate zeros '0' ++ digits) =
      List.replicate (zeros + 1) '0' ++ digits := rfl
  rw [all, Digits.value_eq, Nat.ofDigitChars_append, Nat.ofDigitChars_replicate_zero, Nat.mul_zero,
    Digits.value_eq]

theorem isDigit_of_mem_zeros {zeros : Nat} : ∀ c ∈ List.replicate zeros '0', c.isDigit = true := by
  intro c mem
  rw [List.eq_of_mem_replicate mem]
  rfl

/-- **A form denotes the value that it is the form of.** -/
theorem IsForm.decimal?_eq (h : IsForm digits n text) (isNumber : Digits.isNumber digits = true) :
    decimal? text = some ((Digits.value digits : ℚ) * 10 ^ (n - digits.length)) := by
  obtain ⟨nonempty, digit⟩ := Digits.isNumber_iff.1 isNumber
  cases h with
  | integral zeros count most =>
      have all : Digits.isNumber (digits ++ List.replicate zeros '0') = true := by
        refine Digits.isNumber_iff.2 ⟨by simp [nonempty], fun c mem => ?_⟩
        exact (List.mem_append.1 mem).elim (digit c) (isDigit_of_mem_zeros c)
      have places : n - digits.length = zeros := by omega
      rw [decimal?_plain (Digits.not_mem (Digits.mem_isDigit all) rfl) (mantissa?_whole all),
        value_append_zeros, places, zpow_natCast]
      simp
  | inside whole fraction parts left right count most =>
      subst parts
      have first : Digits.isNumber whole = true :=
        Digits.isNumber_iff.2 ⟨left, fun c mem => digit c (List.mem_append_left _ mem)⟩
      have places : n - (whole ++ fraction).length = -(fraction.length : Int) := by
        rw [List.length_append]
        omega
      rw [decimal?_point first fun c mem => digit c (List.mem_append_right _ mem), places]
  | below zeros count least =>
      have others (c : Char) (mem : c ∈ List.replicate zeros '0' ++ digits) : c.isDigit = true :=
        (List.mem_append.1 mem).elim (isDigit_of_mem_zeros c) (digit c)
      have places : n - digits.length = -((List.replicate zeros '0' ++ digits).length : Int) := by
        rw [List.length_append, List.length_replicate]
        omega
      have zero : Digits.isNumber ['0'] = true := by decide
      have read := decimal?_point zero others
      rw [List.singleton_append, List.singleton_append, value_zeros_append, ← places] at read
      exact read
  | exponent lead rest parts outside =>
      subst parts
      have places : n - (lead :: rest).length = n - 1 - rest.length := by
        rw [List.length_cons]
        omega
      rw [decimal?_pointed isNumber (integer?_sign (n - 1)), places]

/-! ### Checked steps -/

theorem exists_int32? (low : -2 ^ 31 ≤ n) (high : n < 2 ^ 31) :
    ∃ m, int32? n = some m ∧ m.toInt = n :=
  ⟨.ofInt n, if_pos ⟨low, high⟩, Int32.toInt_ofInt_of_le low high⟩

theorem count_eq {m : Int32} (h : 0 ≤ m.toInt) : (count m : Int) = m.toInt := by
  have least : 0 ≤ m.toInt64 := by
    rw [Int64.le_iff_toInt_le, Int32.toInt_toInt64]
    exact h
  rw [count, Int64.toNat_toUInt64_of_le least, Int32.toNatClampNeg_toInt64,
    ← Int32.toNat_toInt, Int.toNat_of_nonneg h]

theorem zeros?_eq {m : Nat} (h : m < 2 ^ 63) : zeros? m = some (List.replicate m '0') :=
  if_pos h

theorem splitAt?_eq {position : Nat} (h : position ≤ digits.length) :
    splitAt? position digits = some (digits.take position, digits.drop position) := by
  rw [splitAt?, if_pos h, List.splitAt_eq]

/-! ### Layout -/

/-- **The layout of digits succeeds, with the form that is prescribed.** -/
theorem exists_layoutDigits? (nonempty : digits ≠ []) (short : digits.length < 2 ^ 30)
    {exponent : Int32} (small : exponent.toInt.natAbs < 2 ^ 30) :
    ∃ text, layoutDigits? digits exponent = some text ∧
      IsForm digits (exponent.toInt + 1) text := by
  have pos := List.length_pos_iff.2 nonempty
  have k : (Int32.ofNat digits.length).toInt = digits.length :=
    Int32.toInt_ofNat_of_lt (by omega)
  have most : (21 : Int32).toInt = 21 := rfl
  have least : (-6 : Int32).toInt = -6 := rfl
  have zero : (0 : Int32).toInt = 0 := rfl
  obtain ⟨point, isPoint, value⟩ :
      ∃ m, int32? (exponent.toInt + 1) = some m ∧ m.toInt = exponent.toInt + 1 :=
    exists_int32? (by omega) (by omega)
  unfold layoutDigits?
  rw [isPoint, Option.bind_eq_bind, Option.bind_some]
  simp only [Int32.le_iff_toInt_le, Int32.lt_iff_toInt_lt, k, value, most, least, zero]
  split
  · next integral =>
      obtain ⟨places, fits, isPlaces⟩ :
          ∃ m, int32? (exponent.toInt + 1 - digits.length) = some m ∧
            m.toInt = exponent.toInt + 1 - digits.length :=
        exists_int32? (by omega) (by omega)
      have zeros : (count places : Int) = places.toInt := count_eq (by omega)
      rw [fits, Option.bind_some, zeros?_eq (by omega)]
      exact ⟨_, rfl, .integral (count places) (by omega) integral.2⟩
  split
  · next before inside =>
      have cut : (count point : Int) = point.toInt := count_eq (by omega)
      have within : count point < digits.length := by omega
      have left : (digits.take (count point)).length = count point :=
        List.length_take_of_le (Nat.le_of_lt within)
      rw [splitAt?_eq (Nat.le_of_lt within)]
      refine ⟨_, rfl, .inside (digits.take (count point)) (digits.drop (count point))
        (List.take_append_drop _ _).symm ?left ?right (by omega) inside.2⟩
      case left => exact List.ne_nil_of_length_pos (by rw [left]; omega)
      case right => exact List.ne_nil_of_length_pos (by rw [List.length_drop]; omega)
  split
  · next below =>
      obtain ⟨places, fits, isPlaces⟩ :
          ∃ m, int32? (-(exponent.toInt + 1)) = some m ∧ m.toInt = -(exponent.toInt + 1) :=
        exists_int32? (by omega) (by omega)
      have zeros : (count places : Int) = places.toInt := count_eq (by omega)
      rw [fits, Option.bind_some, zeros?_eq (by omega)]
      exact ⟨_, rfl, .below (count places) (by omega) below.1⟩
  · next outside =>
      obtain ⟨power, fits, isPower⟩ :
          ∃ m, int32? exponent.toInt.natAbs = some m ∧ m.toInt = exponent.toInt.natAbs :=
        exists_int32? (by omega) (by omega)
      obtain ⟨lead, rest, rfl⟩ := List.exists_cons_of_ne_nil nonempty
      have form : IsForm (lead :: rest) (exponent.toInt + 1) _ :=
        .exponent lead rest rfl (by omega)
      have written : (toString (exponent.toInt.natAbs : Int)).toList =
          Digits.ofNat exponent.toInt.natAbs := by
        rw [Digits.toList_toString, if_neg (by omega), Int.natAbs_natCast]
      rw [Int.add_sub_cancel] at form
      refine ⟨_, ?_, form⟩
      rw [fits, Option.bind_some, isPower, splitAt?_eq pos, written, pointed]
      cases rest <;> rfl

theorem mantissa_eq {lead : Char} {rest : List Char} {s : Scientific}
    (h : s.digits = lead :: rest) : s.mantissa = pointed lead rest := by
  unfold Scientific.mantissa
  rw [h]
  cases rest <;> rfl

/-- Taking the exponent form of a decimal apart gives its digits and its exponent. -/
theorem layout?_text {s : Scientific} (fits : s.Fits) :
    ∃ exponent : Int32, exponent.toInt = s.exponent ∧
      layout? s.text = layoutDigits? s.digits exponent := by
  have small := fits.exponent
  have nonempty := (Digits.isNumber_iff.1 fits.isNumber).1
  obtain ⟨lead, rest, parts⟩ := List.exists_cons_of_ne_nil nonempty
  obtain ⟨exponent, isExponent, value⟩ : ∃ m, int32? s.exponent = some m ∧ m.toInt = s.exponent :=
    exists_int32? (by omega) (by omega)
  refine ⟨exponent, value, ?_⟩
  have isNumber := fits.isNumber
  rw [parts] at isNumber
  unfold layout? Scientific.text
  rw [mantissa_eq parts, splitOnce_append (not_mem_pointed isNumber), Option.getD_some]
  dsimp only
  rw [filter_pointed isNumber, integer?_toString, Option.bind_some, isExponent, Option.getD_some,
    parts]

/-- **The layout of a decimal is exact.** It is the form prescribed for the digits before the point, and
denotes the decimal. -/
theorem exists_layout? {s : Scientific} (fits : s.Fits) :
    ∃ text, layout? s.text = some text ∧ decimal? text = some s.toRat ∧
      ∀ form, IsForm s.digits (s.exponent + 1) form ↔ form = text := by
  have nonempty := (Digits.isNumber_iff.1 fits.isNumber).1
  obtain ⟨exponent, value, taken⟩ := layout?_text fits
  have small : exponent.toInt.natAbs < 2 ^ 30 := by
    rw [value]
    exact fits.exponent
  obtain ⟨text, made, form⟩ := exists_layoutDigits? nonempty fits.length small
  rw [value] at form
  refine ⟨text, taken.trans made, form.decimal?_eq fits.isNumber, fun other => ⟨?_, ?_⟩⟩
  · exact fun same => same.unique nonempty form
  · rintro rfl
    exact form

example : layout? ['1', 'e', '2', '1'] = some ['1', 'e', '+', '2', '1'] := by decide

end EcmaScript

end ApiGraph
