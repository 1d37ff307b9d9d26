import ApiGraph.Json.Reader
import ApiGraph.Proofs.Rounding

/-!
# ApiGraph.Proofs.NumberText

Numbers in JSON text are spelled as the reader splits them: a sign, digits of which none is a leading zero,
a fraction, an exponent. So the text of a number is taken whole, whatever may follow a value. What is read
is the number itself if it is an integer of at most 64 bits; a double is put together from its parts with
roundings of their own, and can come back as another number.

* `NumeralText.Spells`, `NumeralText.Spells.scan?_eq` — spelled parts are what is read.
* `Numeral.exists_spells` — every number with a text of its own is spelled.
* `Numeral.reread?` — the number that a written number is read as, with `Numeral.reread?_integer`.
-/

namespace ApiGraph

/-! ### Digits -/

namespace Digits

/-- No digit zero stands before another digit. -/
theorem ofNat_ne_zero_cons (n : Nat) (c : Char) (cs : List Char) : ofNat n ≠ '0' :: c :: cs := by
  intro same
  obtain rfl := eq_zero_of_head?_ofNat (congrArg List.head? same)
  cases same

end Digits

theorem toList_toString_natCast (n : Nat) : (toString (n : Int)).toList = Digits.ofNat n := by
  simp [Int.toString_eq_repr, Int.repr_eq_if, Nat.repr_eq_ofList_toDigits, Digits.ofNat]

theorem toList_toString_of_neg {n : Int} (neg : n < 0) :
    (toString n).toList = '-' :: Digits.ofNat n.natAbs := by
  have size : (-n).toNat = n.natAbs := by omega
  simp [Int.toString_eq_repr, Int.repr_eq_if, Int.not_le.2 neg, Nat.repr_eq_ofList_toDigits,
    Digits.ofNat, size]

namespace Binary64

variable {x : Binary64}

theorem head?_trimZeros {digits : List Char} (nonzero : digits.head? ≠ some '0') :
    (trimZeros digits).head? ≠ some '0' ∨ digits = [] := by
  obtain ⟨zeros, parts⟩ := exists_zeros digits
  unfold trimZeros
  generalize (digits.reverse.dropWhile (· == '0')).reverse = kept at parts ⊢
  subst parts
  cases kept with
  | nil => cases zeros <;> simp [List.replicate_succ] at nonzero ⊢
  | cons c kept => exact .inl nonzero

/-- The shortest digits do not begin with a zero. -/
theorem head?_shortest (nonzero : x.isZero = false) (tie : TieRule) :
    (x.shortest tie).digits.head? ≠ some '0' := by
  obtain ⟨k, scale, -, digits⟩ := exists_nearest?_shortest nonzero tie
  have lower := (roundsTo_shortest nonzero tie).lower
  rw [digits] at lower ⊢
  have positive : k ≠ 0 := by
    rintro rfl
    -- zero lies below every point halfway between two doubles
    have least : valueAt 0 ≤ valueAt (x.magnitudeBits - 1) :=
      strictMono_valueAt.monotone (Nat.zero_le _)
    have step := stepAt_pos (x.magnitudeBits - 1)
    have zero : valueAt 0 = 0 := by simp [valueAt, significandAt]
    rw [toRat_scientific, Nat.cast_zero, zero_mul, midpoint_eq] at lower
    linarith
  have first : (Digits.ofNat k).head? ≠ some '0' := fun zero =>
    positive (Digits.eq_zero_of_head?_ofNat zero)
  exact (head?_trimZeros first).resolve_right Nat.toDigits_ne_nil

end Binary64

/-! ### What may follow a value -/

namespace Json

/-- What may follow a value: nothing, or a blank, a comma or a closing bracket. -/
def Ends (rest : List Char) : Prop :=
  ∀ c ∈ rest.head?, isBlank c = true ∨ c = ',' ∨ c = ']' ∨ c = '}'

theorem Ends.not_part_of_number {rest : List Char} (ends : Ends rest) :
    ∀ c ∈ rest.head?, c.isDigit = false ∧ c ≠ '.' ∧ c ≠ 'e' ∧ c ≠ 'E' := by
  intro c head
  have follows := ends c head
  simp only [isBlank, Bool.or_eq_true, beq_iff_eq, or_assoc] at follows
  clear ends head
  rcases follows with rfl | rfl | rfl | rfl | rfl | rfl | rfl <;> decide

end Json

/-! ### Spelling -/

namespace NumeralText

open Json

/-- The fraction as it is spelled, if there is one. -/
def fractionText : List Char → List Char
  | [] => []
  | digits => '.' :: digits

/-- The exponent as it is spelled, if there is one. -/
def exponentText : Option (Bool × List Char) → List Char
  | none => []
  | some (negative, digits) => 'e' :: (if negative then '-' else '+') :: digits

/-- The text spells the parts of a number. -/
structure Spells (t : NumeralText) (text : List Char) : Prop where
  whole : Digits.isNumber t.whole = true
  /-- A leading zero stands alone. -/
  lead : ∀ c cs, t.whole ≠ '0' :: c :: cs
  fraction : ∀ c ∈ t.fraction, c.isDigit = true
  exponent : ∀ e ∈ t.exponent, Digits.isNumber e.2 = true
  integral : t.integral = (t.fraction.isEmpty && t.exponent.isNone)
  text_eq : text = (if t.negative then ['-'] else []) ++
    (t.whole ++ (fractionText t.fraction ++ exponentText t.exponent))

variable {digits fraction rest : List Char} {exponent : Option (Bool × List Char)}

theorem spanDigits_append (all : ∀ c ∈ digits, c.isDigit = true)
    (stop : ∀ c ∈ rest.head?, c.isDigit = false) : spanDigits (digits ++ rest) = (digits, rest) := by
  unfold spanDigits
  rw [List.takeWhile_append_of_pos all, List.dropWhile_append_of_pos all]
  cases rest with
  | nil => simp
  | cons c rest => simp [stop c rfl]

/-- Neither the exponent nor what follows goes on with the digits before it. -/
theorem head?_exponentText (exponent : Option (Bool × List Char)) (ends : Ends rest) :
    ∀ c ∈ (exponentText exponent ++ rest).head?, c.isDigit = false ∧ c ≠ '.' := by
  intro c head
  rcases exponent with _ | ⟨negative, digits⟩
  · obtain ⟨digit, point, -⟩ := ends.not_part_of_number c head
    exact ⟨digit, point⟩
  · obtain rfl : 'e' = c := Option.some.inj head
    decide

theorem head?_fractionText (fraction : List Char) (exponent : Option (Bool × List Char))
    (ends : Ends rest) :
    ∀ c ∈ (fractionText fraction ++ (exponentText exponent ++ rest)).head?, c.isDigit = false := by
  intro c head
  cases fraction with
  | nil => exact (head?_exponentText exponent ends c head).1
  | cons d ds =>
      obtain rfl : '.' = c := Option.some.inj head
      rfl

theorem scanExponent?_text (isNumber : ∀ e ∈ exponent, Digits.isNumber e.2 = true) (ends : Ends rest) :
    scanExponent? (exponentText exponent ++ rest) = some (exponent, rest) := by
  have stop : ∀ c ∈ rest.head?, c.isDigit = false := fun c head => (ends.not_part_of_number c head).1
  rcases exponent with _ | ⟨negative, digits⟩
  · show scanExponent? rest = _
    unfold scanExponent?
    split
    · next c rest =>
        obtain ⟨-, -, small, large⟩ := ends.not_part_of_number c rfl
        rw [if_neg (by simp [small, large])]
    · rfl
  · obtain ⟨nonempty, all⟩ := Digits.isNumber_iff.1 (isNumber _ rfl)
    obtain ⟨d, ds, rfl⟩ := List.exists_cons_of_ne_nil nonempty
    have span := spanDigits_append all stop
    rw [List.cons_append] at span
    cases negative <;> simp [exponentText, scanExponent?, span]

theorem scanFraction?_text (exponent : Option (Bool × List Char))
    (all : ∀ c ∈ fraction, c.isDigit = true) (ends : Ends rest) :
    scanFraction? (fractionText fraction ++ (exponentText exponent ++ rest)) =
      some (fraction, exponentText exponent ++ rest) := by
  have stop := head?_exponentText exponent ends
  cases fraction with
  | nil =>
      show scanFraction? (exponentText exponent ++ rest) = _
      unfold scanFraction?
      split
      · next same => exact absurd rfl (stop '.' (by rw [same]; rfl)).2
      · rfl
  | cons d ds =>
      have span := spanDigits_append all fun c head => (stop c head).1
      rw [List.cons_append] at span
      simp [fractionText, scanFraction?, span]

/-- A spelled number is read in its parts, up to what ends it. -/
theorem Spells.scan?_eq {t : NumeralText} {text : List Char} (h : t.Spells text) (ends : Ends rest) :
    scan? (text ++ rest) = some (t, rest) := by
  obtain ⟨negative, whole, fraction, exponent, integral⟩ := t
  obtain ⟨isNumber, lead, fractionDigits, exponentDigits, isIntegral, spelled⟩ := h
  dsimp only at isNumber lead fractionDigits exponentDigits isIntegral spelled
  subst isIntegral spelled
  obtain ⟨nonempty, all⟩ := Digits.isNumber_iff.1 isNumber
  have span := spanDigits_append all (head?_fractionText fraction exponent ends)
  have tail := scanFraction?_text exponent fractionDigits ends
  have power := scanExponent?_text exponentDigits ends
  obtain ⟨d, ds, rfl⟩ := List.exists_cons_of_ne_nil nonempty
  have unsigned : d ≠ '-' := by
    rintro rfl
    exact absurd (all '-' List.mem_cons_self) (by decide)
  simp only [List.append_assoc, List.cons_append] at span ⊢
  cases negative <;> simp [scan?, unsigned, span, tail, power]

end NumeralText

/-! ### Written numbers -/

namespace Numeral

open NumeralText

variable {s : Scientific} {t : NumeralText} {n : Int}

/-- Digits with a sign spell an integer. -/
theorem spells_integer (n : Int) :
    NumeralText.Spells ⟨decide (n < 0), Digits.ofNat n.natAbs, [], none, true⟩ (toString n).toList where
  whole := Digits.isNumber_ofNat _
  lead := Digits.ofNat_ne_zero_cons _
  fraction := nofun
  exponent := nofun
  integral := rfl
  text_eq := by
    rcases lt_or_ge n 0 with neg | nonneg
    · rw [toList_toString_of_neg neg]
      simp [neg, fractionText, exponentText]
    · obtain ⟨m, rfl⟩ := Int.eq_ofNat_of_zero_le nonneg
      rw [toList_toString_natCast]
      simp [fractionText, exponentText]

/-- The positional form spells a number with a point. -/
theorem exists_spells_positionalForm (isNumber : Digits.isNumber s.digits = true)
    (first : s.digits.head? ≠ some '0') :
    ∃ t : NumeralText, t.negative = false ∧ t.integral = false ∧ t.Spells (positionalForm s) := by
  obtain ⟨nonempty, all⟩ := Digits.isNumber_iff.1 isNumber
  obtain ⟨d, ds, digits⟩ := List.exists_cons_of_ne_nil nonempty
  rw [digits, List.head?_cons] at first
  have lead : d ≠ '0' := fun zero => first (congrArg some zero)
  have zeros (m : Nat) : ∀ c ∈ List.replicate m '0', c.isDigit = true :=
    EcmaScript.isDigit_of_mem_zeros
  unfold positionalForm
  dsimp only
  split
  · -- zeros up to the point, and one behind it
    refine ⟨⟨false, s.digits ++ List.replicate (s.exponent + 1 - s.digits.length).toNat '0', ['0'],
      none, false⟩, rfl, rfl, ?_, ?_, by simp, nofun, rfl, ?_⟩
    · refine Digits.isNumber_iff.2 ⟨by simp [nonempty], fun c mem => ?_⟩
      exact (List.mem_append.1 mem).elim (all c) (zeros _ c)
    · simp [digits, lead]
    · simp [fractionText, exponentText]
  · next more =>
    split
    · next inside =>
        obtain ⟨k, point⟩ := Int.eq_ofNat_of_zero_le inside.le
        rw [point] at more inside ⊢
        have within : 0 < k ∧ k < s.digits.length := by omega
        have rest : s.digits.drop k ≠ [] := by simpa using within.2
        obtain ⟨e, es, fraction⟩ := List.exists_cons_of_ne_nil rest
        refine ⟨⟨false, s.digits.take k, s.digits.drop k, none, false⟩, rfl, rfl, ?_, ?_, ?_, nofun, ?_,
          ?_⟩
        · refine Digits.isNumber_iff.2 ⟨?_, fun c mem => all c (List.mem_of_mem_take mem)⟩
          simp [nonempty, within.1.ne']
        · obtain ⟨j, rfl⟩ := Nat.exists_eq_add_one.2 within.1
          simp [digits, lead]
        · exact fun c mem => all c (List.mem_of_mem_drop mem)
        · simp [fraction]
        · simp [fraction, fractionText, exponentText]
    · -- zeros behind the point
      refine ⟨⟨false, ['0'], List.replicate (-(s.exponent + 1)).toNat '0' ++ s.digits, none, false⟩,
        rfl, rfl, rfl, by simp, fun c mem => ?_, nofun, by simp [nonempty], ?_⟩
      · exact (List.mem_append.1 mem).elim (zeros _ c) (all c)
      · cases fraction : List.replicate (-(s.exponent + 1)).toNat '0' ++ s.digits with
        | nil => simp [nonempty] at fraction
        | cons c cs => simp [fractionText, exponentText]

/-- The exponent form spells a number with an exponent. -/
theorem exists_spells_exponentForm (isNumber : Digits.isNumber s.digits = true) :
    ∃ t : NumeralText, t.negative = false ∧ t.integral = false ∧ t.Spells (exponentForm s) := by
  obtain ⟨nonempty, all⟩ := Digits.isNumber_iff.1 isNumber
  obtain ⟨d, ds, digits⟩ := List.exists_cons_of_ne_nil nonempty
  rw [digits, List.forall_mem_cons] at all
  have power := Digits.isNumber_ofNat s.exponent.natAbs
  refine ⟨⟨false, [d], ds, some (s.exponent < 0, Digits.ofNat s.exponent.natAbs), false⟩, rfl, rfl, ?_,
    by simp, all.2, ?_, by simp, ?_⟩
  · simpa [Digits.isNumber] using all.1
  · simpa using power
  · cases ds <;> simp [exponentForm, Scientific.mantissa, digits, fractionText, exponentText]

/-- A sign may stand in front. -/
theorem spells_sign {text : List Char} (unsigned : t.negative = false) (h : t.Spells text) :
    { t with negative := true }.Spells ('-' :: text) :=
  { h with text_eq := by rw [h.text_eq, unsigned]; rfl }

/-- The text of a double spells a number with a point or an exponent. -/
theorem exists_spells_render (x : Binary64) :
    ∃ t : NumeralText, t.integral = false ∧ t.Spells (style.render x) := by
  unfold NumberStyle.render
  cases zero : x.isZero with
  | true =>
      have spelled : NumeralText.Spells ⟨false, ['0'], ['0'], none, false⟩ ['0', '.', '0'] :=
        ⟨rfl, by simp, by simp, nofun, rfl, rfl⟩
      cases sign : x.isNegative with
      | true => exact ⟨_, rfl, spells_sign rfl spelled⟩
      | false => exact ⟨_, rfl, spelled⟩
  | false =>
      have isNumber := (x.fits_shortest style.tie).isNumber
      obtain ⟨t, unsigned, pointed, spelled⟩ : ∃ t : NumeralText, t.negative = false ∧
          t.integral = false ∧ t.Spells (style.layout (x.shortest style.tie)) := by
        unfold style
        dsimp only
        split
        · exact exists_spells_positionalForm isNumber (Binary64.head?_shortest zero .toEven)
        · exact exists_spells_exponentForm isNumber
      rw [if_neg Bool.false_ne_true]
      dsimp only
      split
      · exact ⟨{ t with negative := true }, pointed, spells_sign unsigned spelled⟩
      · exact ⟨t, pointed, spelled⟩

/-- Whether a number has a text of its own. -/
def isFinite : Numeral → Bool
  | .integer _ => true
  | .double x => x.isFinite

/-- A number with a text of its own is spelled. -/
theorem exists_spells {n : Numeral} (finite : n.isFinite = true) :
    ∃ t : NumeralText, t.Spells n.text := by
  cases n with
  | integer n => exact ⟨_, spells_integer n⟩
  | double x =>
      have finite : x.isFinite = true := finite
      obtain ⟨t, -, spelled⟩ := exists_spells_render x
      rw [text, if_pos finite]
      exact ⟨t, spelled⟩

/-- The number that a written number is read as; none if that is beyond every double. -/
def reread? (n : Numeral) : Option Numeral :=
  (scan? n.text).bind fun (t, _) => t.value?

theorem reread?_eq {n : Numeral} (h : t.Spells n.text) : n.reread? = t.value? := by
  have ends : Json.Ends [] := nofun
  have scan := h.scan?_eq ends
  rw [List.append_nil] at scan
  rw [reread?, scan, Option.bind_some]

/-- A double is read as a double. -/
theorem exists_of_reread?_double {x : Binary64} {n : Numeral} (finite : x.isFinite = true)
    (read : reread? (.double x) = some n) : ∃ y, n = .double y := by
  obtain ⟨t, pointed, spelled⟩ := exists_spells_render x
  have text : (Numeral.double x).text = style.render x := if_pos finite
  rw [← text] at spelled
  rw [reread?_eq spelled, value?] at read
  simp only [pointed, Bool.false_and, Bool.false_eq_true, if_false] at read
  obtain ⟨y, -, same⟩ := Option.map_eq_some_iff.1 read
  exact ⟨y, same.symm⟩

/-- An integer of at most 64 bits is read as itself. -/
theorem reread?_integer (inRange : -9223372036854775808 ≤ n ∧ n < 18446744073709551616) :
    reread? (.integer n) = some (.integer n) := by
  obtain ⟨low, high⟩ := inRange
  rw [reread?_eq (spells_integer n), value?]
  simp only [Digits.value_ofNat]
  rcases lt_or_ge n 0 with neg | nonneg
  · have size : 0 < n.natAbs ∧ n.natAbs ≤ twoPow 63 := by rw [twoPow_eq]; omega
    have sign : -(n.natAbs : Int) = n := by omega
    simp only [neg, size, sign, Bool.not_true, Bool.and_false, decide_true, Bool.false_and,
      Bool.true_and, Bool.false_eq_true, if_false, if_true]
  · have size : n.natAbs < twoPow 64 := by rw [twoPow_eq]; omega
    have unsigned : ¬n < 0 := by omega
    have same : (n.natAbs : Int) = n := by omega
    simp only [unsigned, size, same, decide_false, Bool.not_false, Bool.and_true, decide_true,
      if_true]

end Numeral

end ApiGraph
