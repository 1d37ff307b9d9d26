import ApiGraph.Proofs.Integers
import ApiGraph.Proofs.Rounding
import ApiGraph.Proofs.Spelling
import ApiGraph.TypeExpr.Render

/-!
# ApiGraph.Proofs.LiteralText

**Literals that differ never look alike.** The first character of a literal's source syntax tells strings
and keywords, and the last one tells integers from numbers. Each of these texts is read back: a string
from its escapes, an integer from its digits, and a number from the decimal numeral, which rounds to one
double only.

* `Literal.Meaning`, `Literal.read?` — what a literal stands for, and the reader of its source syntax.
* `Literal.read?_chars` — the reader finds what the literal stands for.
* `Literal.meaning_eq_iff` — literals that stand for the same are the same value.
* `Literal.text_eq_iff` — so are literals with the same text.
-/

namespace ApiGraph

namespace EcmaScript

variable {digits text : List Char} {n : Int}

/-! ### The characters of a numeral -/

/-- A form begins with a digit. -/
theorem IsForm.exists_cons (h : IsForm digits n text) (isNumber : Digits.isNumber digits = true) :
    ∃ d rest, text = d :: rest ∧ d.isDigit = true := by
  obtain ⟨nonempty, digit⟩ := Digits.isNumber_iff.1 isNumber
  obtain ⟨lead, others, parts⟩ := List.exists_cons_of_ne_nil nonempty
  have first : lead.isDigit = true := digit lead (parts ▸ List.mem_cons_self)
  cases h with
  | integral => exact ⟨lead, _, congrArg (· ++ _) parts, first⟩
  | inside whole fraction split left =>
      obtain ⟨d, rest, rfl⟩ := List.exists_cons_of_ne_nil left
      exact ⟨d, _, rfl, digit d (split ▸ List.mem_cons_self)⟩
  | below => exact ⟨'0', _, rfl, rfl⟩
  | exponent d rest split => exact ⟨d, _, rfl, digit d (split ▸ List.mem_cons_self)⟩

/-- No form has the mark of an integer in it. -/
theorem IsForm.not_mem_mark (h : IsForm digits n text) (isNumber : Digits.isNumber digits = true) :
    'n' ∉ text := by
  have none : 'n' ∉ digits := Digits.not_mem (Digits.mem_isDigit isNumber) rfl
  cases h with
  | integral => simp [none]
  | inside whole fraction parts =>
      subst parts
      simpa using none
  | below => simp [none]
  | exponent lead rest parts =>
      subst parts
      obtain ⟨first, others⟩ := not_or.1 (mt List.mem_cons.2 none)
      have power : 'n' ∉ Digits.ofNat (n - 1).natAbs :=
        Digits.not_mem (Digits.mem_isDigit (Digits.isNumber_ofNat _)) rfl
      unfold pointed
      split <;> split <;> simp [first, others, power]

end EcmaScript

namespace Literal

open EcmaScript

variable {l m : Literal} {x y : Binary64}

/-! ### What literals stand for -/

/-- What a literal stands for. -/
inductive Meaning
  | null
  | bool (value : Bool)
  | number (value : ℚ)
  | string (value : String)
  | bigInt (value : BigInt)

/-- The rational number that the digits of a double denote, with its sign. -/
def decimalOf (x : Binary64) : ℚ :=
  if x.isZero then 0
  else if x.isNegative then -(x.shortest .up).toRat
  else (x.shortest .up).toRat

/-- What a literal stands for; a number is told by its digits. -/
def meaning : Literal → Meaning
  | .null => .null
  | .bool value => .bool value
  | .number x => .number (decimalOf x)
  | .string s => .string s
  | .bigInt n => .bigInt n

theorem toRat_shortest_pos (nonzero : x.isZero = false) : 0 < (x.shortest .up).toRat :=
  (Binary64.roundsTo_shortest nonzero .up).pos

theorem decimalOf_pos_iff (nonzero : x.isZero = false) : 0 < decimalOf x ↔ x.isNegative = false := by
  have pos := toRat_shortest_pos nonzero
  unfold decimalOf
  rw [nonzero, if_neg Bool.false_ne_true]
  cases x.isNegative
  · simpa using pos
  · simpa using pos.le

theorem decimalOf_eq_zero_iff : decimalOf x = 0 ↔ x.isZero = true := by
  unfold decimalOf
  cases zero : x.isZero with
  | true => simp
  | false =>
      have pos := toRat_shortest_pos zero
      cases x.isNegative <;> simp [pos.ne']

/-- The digits of a double that is not zero tell it, for they round to it only. -/
theorem eq_of_decimalOf_eq (h : decimalOf x = decimalOf y) (hx : x.isZero = false)
    (hy : y.isZero = false) : x = y := by
  have sign : x.isNegative = y.isNegative := by
    have signs := (decimalOf_pos_iff hx).symm.trans (h ▸ decimalOf_pos_iff hy)
    cases hx : x.isNegative <;> cases hy : y.isNegative <;> simp_all
  have digits : (x.shortest .up).toRat = (y.shortest .up).toRat := by
    unfold decimalOf at h
    rw [hx, hy, if_neg Bool.false_ne_true, if_neg Bool.false_ne_true, sign] at h
    split at h
    · exact neg_injective h
    · exact h
  have bits : x.magnitudeBits = y.magnitudeBits :=
    (Binary64.roundsTo_shortest hx .up).unique (digits ▸ Binary64.roundsTo_shortest hy .up)
  rw [← x.ofMagnitudeBits_eq, sign, bits, y.ofMagnitudeBits_eq]

theorem same_iff (hx : x.isFinite = true) (hy : y.isFinite = true) :
    x.same y = true ↔ x = y ∨ x.isZero = true ∧ y.isZero = true := by
  obtain ⟨xBits⟩ := x
  obtain ⟨yBits⟩ := y
  simp [Binary64.same, Binary64.isNaN_eq_false hx, Binary64.isNaN_eq_false hy]

/-- **Doubles with the same digits are the same number.** -/
theorem decimalOf_eq_iff (hx : x.isFinite = true) (hy : y.isFinite = true) :
    decimalOf x = decimalOf y ↔ x.same y = true := by
  rw [same_iff hx hy]
  constructor
  · intro digits
    cases zero : y.isZero with
    | true => exact .inr ⟨decimalOf_eq_zero_iff.1 (digits.trans (decimalOf_eq_zero_iff.2 zero)), rfl⟩
    | false =>
        have nonzero : x.isZero = false := Bool.eq_false_iff.2 fun isZero =>
          Bool.false_ne_true (zero.symm.trans
            (decimalOf_eq_zero_iff.1 (digits.symm.trans (decimalOf_eq_zero_iff.2 isZero))))
        exact .inl (eq_of_decimalOf_eq digits nonzero zero)
  · rintro (rfl | ⟨hx, hy⟩)
    · rfl
    · rw [decimalOf_eq_zero_iff.2 hx, decimalOf_eq_zero_iff.2 hy]

/-- **Literals that stand for the same are the same value.** -/
theorem meaning_eq_iff (hl : l.IsFinite) (hm : m.IsFinite) :
    l.meaning = m.meaning ↔ l.same m = true := by
  cases l with
  | number x =>
      cases m with
      | number y =>
          rw [meaning, meaning, Meaning.number.injEq]
          exact decimalOf_eq_iff hl hm
      | _ => simp [meaning, same]
  | _ => cases m <;> simp [meaning, same]

/-! ### The reader -/

/-- The rational number that a decimal numeral with a sign or none denotes. -/
def signedDecimal? : List Char → Option ℚ
  | '-' :: text => (decimal? text).map (-·)
  | text => decimal? text

/-- An integer, which is marked at its end, or a number. -/
def numeral? (text : List Char) : Option Meaning :=
  if text.getLast? = some 'n' then (BigInt.parse (String.ofList text)).toOption.map .bigInt
  else (signedDecimal? text).map .number

/-- Reads source syntax. -/
def read? : List Char → Option Meaning
  | ['n', 'u', 'l', 'l'] => some .null
  | ['t', 'r', 'u', 'e'] => some (.bool true)
  | ['f', 'a', 'l', 's', 'e'] => some (.bool false)
  | '"' :: rest => (Json.readString? rest).bind fun (text, _) => text.map .string
  | text => numeral? text

/-- A digit or a sign in front means a numeral. -/
theorem read?_cons {c : Char} (h : c.isDigit = true ∨ c = '-') (rest : List Char) :
    read? (c :: rest) = numeral? (c :: rest) := by
  have other : c ≠ 'n' ∧ c ≠ 't' ∧ c ≠ 'f' ∧ c ≠ '"' := by
    refine ⟨?_, ?_, ?_, ?_⟩ <;> rintro rfl <;> revert h <;> decide
  unfold read?
  split <;> simp_all

theorem signedDecimal?_cons {d : Char} (h : d.isDigit = true) (rest : List Char) :
    signedDecimal? (d :: rest) = decimal? (d :: rest) := by
  unfold signedDecimal?
  split
  · next same =>
      cases same
      cases h
  · rfl

theorem numeral?_number {text : List Char} (h : 'n' ∉ text) :
    numeral? text = (signedDecimal? text).map .number :=
  if_neg fun last => h (List.mem_of_getLast? last)

theorem read?_bigInt (n : BigInt) : read? (chars (.bigInt n)) = some (.bigInt n) := by
  have parsed : BigInt.parse (String.ofList (n.chars ++ ['n'])) = .ok n := by
    rw [String.ofList_append]
    exact BigInt.parse_eq_ok_iff.2 ⟨_, _, n.isSource_text_mark, rfl⟩
  obtain ⟨c, rest, lead, first⟩ : ∃ c rest, n.chars = c :: rest ∧ (c.isDigit = true ∨ c = '-') := by
    unfold BigInt.chars
    split
    · exact ⟨'-', _, rfl, .inr rfl⟩
    · obtain ⟨nonempty, digit⟩ := Digits.isNumber_iff.1 n.isCanonical.digits
      obtain ⟨d, rest, parts⟩ := List.exists_cons_of_ne_nil nonempty
      exact ⟨d, rest, parts, .inl (digit d (parts ▸ List.mem_cons_self))⟩
  rw [chars, lead, List.cons_append, read?_cons first, ← List.cons_append, ← lead, numeral?,
    if_pos List.getLast?_concat, parsed]
  rfl

theorem read?_number (finite : x.isFinite = true) :
    read? (chars (.number x)) = some (.number (decimalOf x)) := by
  cases zero : x.isZero with
  | true =>
      have value : decimal? ['0'] = some 0 := by
        rw [decimal?_plain (by decide) (mantissa?_whole rfl)]
        simp [Digits.value]
      rw [chars_zero zero, read?_cons (.inl rfl), numeral?_number (by decide), signedDecimal?_cons rfl,
        value, decimalOf_eq_zero_iff.2 zero]
      rfl
  | false =>
      have fits := Binary64.fits_shortest .up x
      obtain ⟨text, layout, value, forms⟩ := exists_layout? fits
      have form := (forms text).2 rfl
      have unmarked := form.not_mem_mark fits.isNumber
      obtain ⟨d, rest, parts, digit⟩ := form.exists_cons fits.isNumber
      rw [chars_number_eq finite zero layout]
      unfold decimalOf
      rw [zero, if_neg Bool.false_ne_true]
      cases x.isNegative with
      | true =>
          have none : 'n' ∉ '-' :: text := by simpa using unmarked
          rw [if_pos rfl, if_pos rfl, read?_cons (.inr rfl), numeral?_number none, signedDecimal?, value]
          rfl
      | false =>
          rw [if_neg Bool.false_ne_true, if_neg Bool.false_ne_true, parts, read?_cons (.inl digit), ← parts,
            numeral?_number unmarked, parts, signedDecimal?_cons digit, ← parts, value]
          rfl

/-- **The source syntax of a literal is read as what the literal stands for.** -/
theorem read?_chars (h : l.IsFinite) : read? l.chars = some l.meaning := by
  cases l with
  | null => rfl
  | bool value => cases value <;> rfl
  | number x => exact read?_number h
  | string s =>
      obtain ⟨rest, text, read⟩ := Json.readString?_quoted s []
      rw [List.append_nil] at text
      rw [chars, text, read?, read]
      rfl
  | bigInt n => exact read?_bigInt n

/-- **The text of a literal tells the literal**, also where it stands as a type: literals with the same
text are the same value, both zeros being one. -/
theorem text_eq_iff (hl : l.IsFinite) (hm : m.IsFinite) :
    (l.text = m.text ↔ l.same m = true) ∧
      ∀ p : Project, (TypeExpr.literal l).render p = (TypeExpr.literal m).render p ↔
        l.same m = true := by
  have tells : l.text = m.text ↔ l.same m = true := by
    constructor
    · intro same
      have chars_eq : l.chars = m.chars := String.ofList_injective same
      have read := read?_chars hl
      rw [chars_eq, read?_chars hm] at read
      exact (meaning_eq_iff hl hm).1 (Option.some.inj read).symm
    · intro same
      exact congrArg String.ofList (chars_eq_of_same same)
  exact ⟨tells, fun _ => tells⟩

/-- The double next to `0.3` has other digits, and no string looks like a number. -/
theorem text_ne_neighbour :
    (Literal.number ⟨0x3fd3333333333333⟩).text ≠ (Literal.number ⟨0x3fd3333333333334⟩).text ∧
      (Literal.string "1").text ≠ (Literal.number ⟨0x3ff0000000000000⟩).text := by
  have finite : (Literal.number ⟨0x3fd3333333333333⟩).IsFinite ∧
      (Literal.number ⟨0x3fd3333333333334⟩).IsFinite ∧
      (Literal.number ⟨0x3ff0000000000000⟩).IsFinite := ⟨rfl, rfl, rfl⟩
  exact ⟨fun same => absurd ((text_eq_iff finite.1 finite.2.1).1.1 same) (by decide),
    fun same => absurd ((text_eq_iff (l := .string "1") trivial finite.2.2).1.1 same) (by decide)⟩

end Literal

end ApiGraph
