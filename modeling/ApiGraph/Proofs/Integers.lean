import ApiGraph.Proofs.Codec
import ApiGraph.Proofs.Numbers

/-!
# ApiGraph.Proofs.Integers

Integers of any size against the integers that they denote. Digits without a leading zero are the only
such digits of their value, so an integer is held in one way, whatever it was made of.

* `BigInt.magnitude_eq`, `BigInt.negative_eq` — what is held is told by the integer denoted.
* `BigInt.IsSource`, `BigInt.parse_eq_ok_iff` — the texts that are read, and what they are read as.
* `BigInt.denotes` — one representation for every integer, through every way in and out.
-/

namespace ApiGraph

namespace BigInt

variable {negative : Bool} {absolute : Nat} {magnitude text : String} {digits : List Char}
  {a b n : BigInt}

/-! ### Sign and absolute value -/

@[simp] theorem natAbs_signed : (signed negative absolute).natAbs = absolute := by
  cases negative <;> simp [signed]

theorem signed_neg_iff : signed negative absolute < 0 ↔ negative = true ∧ absolute ≠ 0 := by
  unfold signed
  split
  · next isTrue => simp [isTrue]; omega
  · next isFalse => simp [isFalse]

/-- The sign of zero does not count. -/
theorem signed_and (negative : Bool) (absolute : Nat) :
    signed (negative && absolute != 0) absolute = signed negative absolute := by
  rcases Nat.eq_zero_or_pos absolute with rfl | pos
  · cases negative <;> rfl
  · rw [bne_iff_ne.2 pos.ne', Bool.and_true]

theorem toInt_mk (h : IsCanonical negative (String.ofList digits)) :
    toInt ⟨negative, String.ofList digits, h⟩ = signed negative (Digits.value digits) := by
  unfold toInt
  rw [String.toList_ofList]

theorem natAbs_toInt (n : BigInt) : n.toInt.natAbs = Digits.value n.magnitude.toList :=
  natAbs_signed

/-- **The digits held are the decimal digits of the absolute value.** -/
theorem magnitude_eq (n : BigInt) : n.magnitude = toString n.toInt.natAbs := by
  refine String.toList_injective ?_
  rw [natAbs_toInt, Nat.toString_eq_ofList_toDigits, String.toList_ofList]
  have written := Digits.ofNat_value (Digits.mem_isDigit n.isCanonical.digits)
  rw [trim_magnitude] at written
  exact written.symm

theorem magnitude_eq_zero_iff (n : BigInt) : n.magnitude = "0" ↔ n.toInt.natAbs = 0 := by
  constructor
  · intro zero
    rw [natAbs_toInt, zero]
    rfl
  · intro zero
    rw [magnitude_eq, zero]
    rfl

/-- **The sign held is that of the integer.** -/
theorem negative_eq (n : BigInt) : n.negative = decide (n.toInt < 0) := by
  have sign : n.toInt < 0 ↔ n.negative = true ∧ n.toInt.natAbs ≠ 0 := by
    rw [natAbs_toInt]
    exact signed_neg_iff
  cases negative : n.negative with
  | false => exact (decide_eq_false fun below => Bool.false_ne_true (negative ▸ (sign.1 below).1)).symm
  | true =>
      have nonzero : n.toInt.natAbs ≠ 0 := by
        intro zero
        have positive := n.isCanonical.sign ((magnitude_eq_zero_iff n).2 zero)
        rw [negative] at positive
        cases positive
      exact (decide_eq_true (sign.2 ⟨negative, nonzero⟩)).symm

/-- Integers are equal if they denote the same one. -/
theorem eq_of_toInt_eq (h : a.toInt = b.toInt) : a = b := by
  have signs : a.negative = b.negative := by rw [negative_eq, negative_eq b, h]
  have digits : a.magnitude = b.magnitude := by rw [magnitude_eq, magnitude_eq b, h]
  obtain ⟨_, _, _⟩ := a
  obtain ⟨_, _, _⟩ := b
  cases signs
  cases digits
  rfl

theorem eq_iff_toInt_eq (a b : BigInt) : a = b ↔ a.toInt = b.toInt :=
  ⟨congrArg toInt, eq_of_toInt_eq⟩

/-! ### Parts and machine words -/

theorem toInt_ofParts (h : ofParts negative magnitude = .ok n) :
    n.toInt = signed negative (Digits.value magnitude.toList) := by
  unfold ofParts at h
  split at h
  · next digits =>
      cases h
      have zero : Digits.trim magnitude.toList = ['0'] ↔ Digits.value magnitude.toList = 0 := by
        rw [← Digits.ofNat_value (Digits.mem_isDigit digits)]
        refine ⟨fun zero => Digits.eq_zero_of_head?_ofNat (by rw [zero]; rfl), fun zero => ?_⟩
        rw [zero]
        rfl
      have sign : (Digits.trim magnitude.toList != ['0']) =
          (Digits.value magnitude.toList != 0) := by
        rw [Bool.eq_iff_iff, bne_iff_ne, bne_iff_ne]
        exact not_congr zero
      rw [toInt_mk, Digits.value_trim digits, sign, signed_and]
  · cases h

theorem ofParts_eq_ok_iff : ofParts negative magnitude = .ok n ↔
    Digits.isNumber magnitude.toList = true ∧
      n.toInt = signed negative (Digits.value magnitude.toList) := by
  constructor
  · intro made
    refine ⟨?_, toInt_ofParts made⟩
    by_contra other
    rw [ofParts_eq_error negative other] at made
    cases made
  · rintro ⟨isNumber, value⟩
    obtain ⟨m, made⟩ := exists_ofParts negative isNumber
    rw [made, eq_of_toInt_eq ((toInt_ofParts made).trans value.symm)]

theorem toInt_ofInt128 (word : BitVec 128) : (ofInt128 word).toInt = word.toInt := by
  rw [ofInt128, toInt_mk, Digits.value_ofNat, toInt_word]

theorem toInt_ofInt64 (word : BitVec 64) : (ofInt64 word).toInt = word.toInt := by
  rw [ofInt64, toInt_ofInt128, BitVec.toInt_signExtend_of_le (by decide)]

/-! ### Source syntax -/

/-- A text in source syntax: a minus sign or none, one or more decimal digits, and an `n` or none. -/
structure IsSource (text : String) (negative : Bool) (digits : List Char) : Prop where
  isNumber : Digits.isNumber digits = true
  toList : ∃ marked : Bool,
    text.toList = (if negative then ['-'] else []) ++ digits ++ (if marked then ['n'] else [])

theorem dropMark_eq {cs : List Char} (h : cs.getLast? ≠ some 'n') (marked : Bool) :
    dropMark (cs ++ if marked then ['n'] else []) = cs := by
  unfold dropMark
  cases marked with
  | false => simp [h]
  | true => simp

theorem exists_mark (cs : List Char) :
    ∃ marked : Bool, cs = dropMark cs ++ if marked then ['n'] else [] := by
  unfold dropMark
  split
  · next last =>
      obtain ⟨front, rfl⟩ := List.getLast?_eq_some_iff.1 last
      exact ⟨true, by simp⟩
  · exact ⟨false, by simp⟩

theorem getLast?_ne_mark (h : Digits.isNumber digits = true) (front : List Char) :
    (front ++ digits).getLast? ≠ some 'n' := by
  have nonempty : digits ≠ [] := by
    rintro rfl
    cases h
  rw [List.getLast?_append_of_ne_nil _ nonempty]
  intro last
  have digit := Digits.mem_isDigit h _ (List.mem_of_getLast? last)
  cases digit

/-- What is left without the mark is a sign or none, and the part that is read as digits. -/
theorem parse_cases (text : String) : ∃ negative digits,
    dropMark text.toList = (if negative then ['-'] else []) ++ digits ∧
      parse text = ofParts negative (String.ofList digits) := by
  unfold parse
  split
  · next digits body => exact ⟨true, digits, body, rfl⟩
  · exact ⟨false, dropMark text.toList, rfl, rfl⟩

theorem IsSource.parse_eq (h : IsSource text negative digits) :
    parse text = ofParts negative (String.ofList digits) := by
  obtain ⟨marked, toList⟩ := h.toList
  have body := dropMark_eq (getLast?_ne_mark h.isNumber (if negative then ['-'] else [])) marked
  rw [← toList] at body
  unfold parse
  rw [body]
  cases negative with
  | true => rfl
  | false =>
      -- a digit comes first, so no sign is split off
      cases digits with
      | nil => cases h.isNumber
      | cons c rest =>
          have digit := Digits.mem_isDigit h.isNumber c List.mem_cons_self
          split
          · next same =>
              cases same
              cases digit
          · rfl

/-- **A text is read as an integer if it is source syntax for it.** -/
theorem parse_eq_ok_iff : parse text = .ok n ↔
    ∃ negative digits, IsSource text negative digits ∧
      n.toInt = signed negative (Digits.value digits) := by
  constructor
  · intro read
    obtain ⟨negative, digits, body, parts⟩ := parse_cases text
    rw [parts, ofParts_eq_ok_iff, String.toList_ofList] at read
    obtain ⟨marked, toList⟩ := exists_mark text.toList
    rw [body] at toList
    exact ⟨negative, digits, ⟨read.1, marked, toList⟩, read.2⟩
  · rintro ⟨negative, digits, source, value⟩
    rw [source.parse_eq, ofParts_eq_ok_iff, String.toList_ofList]
    exact ⟨source.isNumber, value⟩

theorem exists_parse_iff :
    (∃ n, parse text = .ok n) ↔ ∃ negative digits, IsSource text negative digits := by
  constructor
  · rintro ⟨n, read⟩
    obtain ⟨negative, digits, source, -⟩ := parse_eq_ok_iff.1 read
    exact ⟨negative, digits, source⟩
  · rintro ⟨negative, digits, source⟩
    rw [source.parse_eq]
    exact exists_ofParts negative (by rw [String.toList_ofList]; exact source.isNumber)

/-! ### Written integers -/

/-- The written form of an integer is its decimal form. -/
theorem text_eq (n : BigInt) : n.text = toString n.toInt := by
  refine String.toList_injective ?_
  rw [text, String.toList_ofList, Digits.toList_toString, chars, negative_eq, magnitude_eq,
    Nat.toString_eq_ofList_toDigits, String.toList_ofList]
  simp only [decide_eq_true_eq]
  rfl

theorem isSource_text (n : BigInt) : IsSource n.text n.negative n.magnitude.toList where
  isNumber := n.isCanonical.digits
  toList := ⟨false, by cases negative : n.negative <;> simp [text, chars, negative]⟩

theorem isSource_text_mark (n : BigInt) :
    IsSource (n.text ++ "n") n.negative n.magnitude.toList where
  isNumber := n.isCanonical.digits
  toList := ⟨true, by cases negative : n.negative <;> simp [text, chars, negative]⟩

theorem parse_toString (n : BigInt) : parse (toString n.toInt) = .ok n := by
  rw [← text_eq]
  exact parse_eq_ok_iff.2 ⟨_, _, isSource_text n, rfl⟩

/-- **An integer is held in one way.** The texts that are read are those in source syntax; what is held
has no needless zero and no needless sign, and is told by the integer that it denotes; and an integer
is the same again after it is written as text, with a mark or without, or into a document. -/
theorem denotes :
    (∀ text, (∃ n, parse text = .ok n) ↔ ∃ negative digits, IsSource text negative digits) ∧
    (∀ text n, parse text = .ok n ↔ ∃ negative digits,
      IsSource text negative digits ∧ n.toInt = signed negative (Digits.value digits)) ∧
    (∀ negative magnitude n, ofParts negative magnitude = .ok n ↔
      Digits.isNumber magnitude.toList = true ∧
        n.toInt = signed negative (Digits.value magnitude.toList)) ∧
    (∀ n : BigInt, (n.magnitude = "0" ∨ n.magnitude.toList.head? ≠ some '0') ∧
      n.negative = decide (n.toInt < 0) ∧ n.magnitude = toString n.toInt.natAbs) ∧
    (∀ a b : BigInt, a = b ↔ a.toInt = b.toInt) ∧
    (∀ n : BigInt, parse n.text = .ok n ∧ parse (n.text ++ "n") = .ok n) ∧
    (∀ word : BitVec 128, (ofInt128 word).toInt = word.toInt ∧
      parse (toString word.toInt) = .ok (ofInt128 word)) ∧
    (∀ word : BitVec 64, (ofInt64 word).toInt = word.toInt ∧
      parse (toString word.toInt) = .ok (ofInt64 word)) ∧
    ∀ (n : BigInt) (s : Decoding),
      (Wire.literal? (Wire.literalJson (Literal.bigInt n).toWire)).map (·.decode s) =
        some (.ok (.bigInt n) s) := by
  refine ⟨fun _ => exists_parse_iff, fun _ _ => parse_eq_ok_iff, fun _ _ _ => ofParts_eq_ok_iff,
    fun n => ⟨?leading, negative_eq n, magnitude_eq n⟩, eq_iff_toInt_eq, fun n => ⟨?plain, ?marked⟩,
    fun word => ⟨toInt_ofInt128 word, ?wide⟩, fun word => ⟨toInt_ofInt64 word, ?narrow⟩, ?document⟩
  case leading =>
    by_cases zero : n.magnitude.toList.head? = some '0'
    · exact .inl (n.isCanonical.leading zero)
    · exact .inr zero
  case plain => exact parse_eq_ok_iff.2 ⟨_, _, isSource_text n, rfl⟩
  case marked => exact parse_eq_ok_iff.2 ⟨_, _, isSource_text_mark n, rfl⟩
  case wide => rw [← toInt_ofInt128, parse_toString]
  case narrow => rw [← toInt_ofInt64, parse_toString]
  case document =>
    intro n s
    rw [Wire.literal?_literalJson]
    show some (Decoder.bigInt n.negative n.magnitude s) = _
    rw [Decoder.bigInt, ofParts_self]
    rfl

end BigInt

end ApiGraph
