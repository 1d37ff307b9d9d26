import ApiGraph.Error
import ApiGraph.Number.Digits

/-!
# ApiGraph.BigInt

Integers of any size, held as a sign and the decimal digits of their absolute value. The digits have no
leading zeros and zero has no sign, so equal integers are held alike.

* `BigInt.IsCanonical`, `BigInt` — a sign and digits in that form.
* `BigInt.ofParts` — from a sign and any digits of the magnitude.
* `BigInt.parse` — from source syntax: an optional sign, decimal digits, and an optional `n` at the end.
* `BigInt.ofInt128`, `BigInt.ofInt64` — from machine words.
* `BigInt.text`, `BigInt.toInt` — the written form, and the integer itself.
-/

namespace ApiGraph

/-- What is asked of a sign and a magnitude. -/
structure BigInt.IsCanonical (negative : Bool) (magnitude : String) : Prop where
  digits : Digits.isNumber magnitude.toList = true
  /-- A leading zero stands alone. -/
  leading : magnitude.toList.head? = some '0' → magnitude = "0"
  /-- Zero has no sign. -/
  sign : magnitude = "0" → negative = false

/-- An integer of any size: its sign, and the decimal digits of its absolute value. -/
structure BigInt where
  negative : Bool
  magnitude : String
  isCanonical : BigInt.IsCanonical negative magnitude
deriving DecidableEq, Repr

namespace BigInt

instance : Inhabited BigInt where
  default :=
    { negative := false
      magnitude := "0"
      isCanonical := ⟨by decide, fun _ => rfl, fun _ => rfl⟩ }

theorem isCanonical_trim (negative : Bool) {digits : List Char}
    (h : Digits.isNumber digits = true) :
    IsCanonical (negative && Digits.trim digits != ['0']) (String.ofList (Digits.trim digits)) where
  digits := by
    rw [String.toList_ofList]
    exact Digits.isNumber_trim h
  leading zero := by
    rw [String.toList_ofList] at zero
    exact congrArg String.ofList (Digits.eq_of_head?_trim zero)
  sign zero := by
    have alone : Digits.trim digits = ['0'] := String.ofList_injective zero
    simp [alone]

/-- The integer with the given sign and decimal magnitude. Leading zeros go, and so does the sign of
zero. -/
def ofParts (negative : Bool) (magnitude : String) : Except Error BigInt :=
  if h : Digits.isNumber magnitude.toList = true then
    .ok
      { negative := negative && Digits.trim magnitude.toList != ['0']
        magnitude := String.ofList (Digits.trim magnitude.toList)
        isCanonical := isCanonical_trim negative h }
  else
    .error (.invalidBigInt magnitude)

theorem exists_ofParts (negative : Bool) {magnitude : String}
    (h : Digits.isNumber magnitude.toList = true) : ∃ n, ofParts negative magnitude = .ok n := by
  rw [ofParts, dif_pos h]
  exact ⟨_, rfl⟩

theorem ofParts_eq_error (negative : Bool) {magnitude : String}
    (h : ¬Digits.isNumber magnitude.toList = true) :
    ofParts negative magnitude = .error (.invalidBigInt magnitude) := by
  rw [ofParts, dif_neg h]

/-- The digits of an integer have nothing to trim. -/
theorem trim_magnitude (n : BigInt) : Digits.trim n.magnitude.toList = n.magnitude.toList := by
  by_cases zero : n.magnitude.toList.head? = some '0'
  · rw [n.isCanonical.leading zero]
    rfl
  · exact Digits.trim_eq_self n.isCanonical.digits zero

/-- An integer is made of its parts. -/
theorem ofParts_self (n : BigInt) : ofParts n.negative n.magnitude = .ok n := by
  obtain ⟨negative, magnitude, canonical⟩ := n
  have digits := trim_magnitude ⟨negative, magnitude, canonical⟩
  dsimp only at digits ⊢
  unfold ofParts
  rw [dif_pos canonical.digits]
  simp only [digits, String.ofList_toList, Except.ok.injEq, BigInt.mk.injEq, and_true]
  by_cases zero : magnitude = "0"
  · rw [canonical.sign zero, Bool.false_and]
  · have other : magnitude.toList ≠ ['0'] := fun same => zero (String.toList_injective same)
    rw [bne_iff_ne.2 other, Bool.and_true]

/-- Drops one `n` from the end of a text. -/
def dropMark (cs : List Char) : List Char :=
  if cs.getLast? = some 'n' then cs.dropLast else cs

/-- Reads an integer in source syntax; an error shows the part that should have been digits. -/
def parse (text : String) : Except Error BigInt :=
  match dropMark text.toList with
  | '-' :: magnitude => ofParts true (String.ofList magnitude)
  | magnitude => ofParts false (String.ofList magnitude)

/-- The integer with the given sign and absolute value. -/
def signed (negative : Bool) (absolute : Nat) : Int :=
  if negative then -(absolute : Int) else absolute

/-- A machine word as a sign and an absolute value. The absolute value is unsigned, so the least word has
one too. -/
theorem toInt_word {width : Nat} (word : BitVec width) :
    word.toInt = signed (word.slt 0) word.abs.toNat := by
  rw [BitVec.ofNat_eq_ofNat, BitVec.slt_zero_eq_msb, BitVec.toInt_eq_msb_cond, BitVec.toNat_abs]
  unfold signed
  have bound := word.isLt
  cases word.msb with
  | false => rfl
  | true =>
      simp only [if_true]
      omega

theorem isCanonical_ofInt128 (word : BitVec 128) :
    IsCanonical (word.slt 0) (String.ofList (Digits.ofNat word.abs.toNat)) where
  digits := by
    rw [String.toList_ofList]
    exact Digits.isNumber_ofNat _
  leading zero := by
    rw [String.toList_ofList] at zero
    rw [Digits.eq_zero_of_head?_ofNat zero]
    rfl
  sign zero := by
    have digits : Digits.ofNat word.abs.toNat = ['0'] := String.ofList_injective zero
    have none : word.abs.toNat = 0 := Digits.eq_zero_of_head?_ofNat (congrArg List.head? digits)
    have value := toInt_word word
    rw [none] at value
    unfold signed at value
    rw [BitVec.ofNat_eq_ofNat, BitVec.slt_eq_decide, BitVec.toInt_zero]
    exact decide_eq_false (by split at value <;> omega)

/-- The integer that a word of 128 bits stands for. -/
def ofInt128 (word : BitVec 128) : BigInt where
  negative := word.slt 0
  magnitude := String.ofList (Digits.ofNat word.abs.toNat)
  isCanonical := isCanonical_ofInt128 word

/-- The integer that a word of 64 bits stands for. -/
def ofInt64 (word : BitVec 64) : BigInt :=
  ofInt128 (word.signExtend 128)

/-- Whether an integer is zero. -/
def isZero (n : BigInt) : Bool :=
  n.magnitude == "0"

/-- The sign and the digits of an integer. -/
def chars (n : BigInt) : List Char :=
  if n.negative then '-' :: n.magnitude.toList else n.magnitude.toList

/-- The decimal form of an integer. -/
def text (n : BigInt) : String :=
  String.ofList n.chars

/-- The integer that is held. -/
def toInt (n : BigInt) : Int :=
  signed n.negative (Digits.value n.magnitude.toList)

end BigInt

end ApiGraph
