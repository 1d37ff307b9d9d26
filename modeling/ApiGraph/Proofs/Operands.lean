import ApiGraph.Proofs.Readable

/-!
# ApiGraph.Proofs.Operands

What the text of an operator tells of its operand. A union or an intersection under an operator has to
look unlike the same type with the operator on its outermost member. Arrays, optional and rest elements
ask for enough power, so their operand stands between parentheses. Type operators and indexed accesses
ask for none: the two types look alike, unless the member had parentheses of its own.

* `Connective` — unions and intersections, with what joins their members.
* `Connective.chars_cons`, `Connective.chars_concat` — the text from either end.
* `enclose_eq_self_iff`, `enclose_around_ne`, `enclose_before_ne` — where parentheses make a difference.
* `render_operand_eq_iff` — which operators keep their operand.
-/

namespace ApiGraph

namespace Text

theorem join_cons (separator text : List Char) (texts : List (List Char)) :
    join separator (text :: texts) = text ++ texts.flatMap (separator ++ ·) := by
  induction texts generalizing text with
  | nil => simp [join]
  | cons next texts ih =>
      rw [join, ih, List.flatMap_cons, List.append_assoc, List.append_assoc]
      exact List.cons_ne_nil next texts

theorem join_concat (separator text : List Char) (texts : List (List Char)) :
    join separator (texts ++ [text]) = texts.flatMap (· ++ separator) ++ text := by
  induction texts with
  | nil => rfl
  | cons first texts ih =>
      rw [List.cons_append, join, ih, List.flatMap_cons]
      · simp only [List.append_assoc]
      · exact List.append_ne_nil_of_right_ne_nil _ (List.cons_ne_nil _ _)

end Text

namespace TypeExpr

/-! ### Unions and intersections -/

/-- What joins members to a type. -/
inductive Connective
  | union
  | intersection

namespace Connective

/-- The type that is joined from members. -/
def type : Connective → List TypeExpr → TypeExpr
  | .union => TypeExpr.union
  | .intersection => TypeExpr.intersection

/-- The power that is asked of a member, and that the whole has. -/
def power : Connective → Int
  | .union => Form.union.bindingPower
  | .intersection => Form.intersection.bindingPower

/-- What stands between two members. -/
def separator : Connective → List Char
  | .union => " | ".toList
  | .intersection => " & ".toList

variable (p : Project) (c : Connective)

theorem bindingPower_type (members : List TypeExpr) : (c.type members).bindingPower = c.power := by
  cases c <;> rfl

/-- An operator binds more tightly than a union or an intersection. -/
theorem power_lt : c.power < Form.typeOperator.bindingPower := by
  cases c <;> decide

theorem exists_separator : ∃ word, c.separator = ' ' :: word := by
  cases c
  · exact ⟨['|', ' '], rfl⟩
  · exact ⟨['&', ' '], rfl⟩

/-- The text of a member. -/
def member (t : TypeExpr) : List Char :=
  enclose c.power t (chars p t)

theorem chars_type (members : List TypeExpr) :
    chars p (c.type members) = Text.join c.separator (members.map (c.member p)) := by
  cases c
  · exact congrArg (Text.join " | ".toList) (parts_eq_map _ members)
  · exact congrArg (Text.join " & ".toList) (parts_eq_map _ members)

/-- What stands behind the first member. -/
def behind (members : List TypeExpr) : List Char :=
  (members.map (c.member p)).flatMap (c.separator ++ ·)

/-- What stands before the last member. -/
def before (members : List TypeExpr) : List Char :=
  (members.map (c.member p)).flatMap (· ++ c.separator)

theorem chars_cons (first : TypeExpr) (members : List TypeExpr) :
    chars p (c.type (first :: members)) = c.member p first ++ c.behind p members := by
  rw [chars_type, List.map_cons, Text.join_cons, behind]

theorem chars_concat (members : List TypeExpr) (last : TypeExpr) :
    chars p (c.type (members ++ [last])) = c.before p members ++ c.member p last := by
  rw [chars_type, List.map_append, List.map_singleton, Text.join_concat, before]

theorem exists_behind (next : TypeExpr) (members : List TypeExpr) :
    ∃ text, c.behind p (next :: members) = ' ' :: text := by
  obtain ⟨word, starts⟩ := c.exists_separator
  rw [behind, List.map_cons, List.flatMap_cons, starts]
  exact ⟨_, rfl⟩

theorem blank_mem_before (first : TypeExpr) (members : List TypeExpr) :
    ' ' ∈ c.before p (first :: members) := by
  obtain ⟨word, starts⟩ := c.exists_separator
  rw [before, List.map_cons, List.flatMap_cons, starts]
  simp

end Connective

/-! ### Parentheses -/

section

variable {low high : Int} {t : TypeExpr}

/-- A part is shown as it is exactly where its power is enough. -/
theorem enclose_eq_self_iff (text : List Char) :
    enclose high t text = text ↔ high ≤ t.bindingPower := by
  constructor
  · intro same
    by_contra loose
    rw [enclose_of_lt (Int.not_le.1 loose)] at same
    have longer := congrArg List.length same
    simp only [List.length_cons, List.length_append, List.length_nil] at longer
    omega
  · intro tight
    exact enclose_of_le tight text

/-- Two places show a part alike, unless only the one that asks for more has parentheses. -/
theorem enclose_cases (le : low ≤ high) (text : List Char) :
    enclose low t text = enclose high t text ∨
      enclose low t text = text ∧ enclose high t text = '(' :: (text ++ [')']) := by
  by_cases inner : t.bindingPower < low
  · rw [enclose_of_lt inner, enclose_of_lt (Int.lt_of_lt_of_le inner le)]
    exact .inl rfl
  · rw [enclose_of_le (Int.not_lt.1 inner)]
    by_cases outer : t.bindingPower < high
    · exact .inr ⟨rfl, enclose_of_lt outer text⟩
    · exact .inl (enclose_of_le (Int.not_lt.1 outer) text).symm

/-- If a character in front of a text may as well stand behind it, the text has no other. -/
theorem forall_eq_of_cons_eq_concat {c : Char} {text : List Char} (h : c :: text = text ++ [c]) :
    ∀ x ∈ text, x = c := by
  induction text with
  | nil => simp
  | cons x text ih =>
      rw [List.cons_append] at h
      obtain ⟨rfl, rest⟩ := List.cons.inj h
      intro y mem
      rcases List.mem_cons.1 mem with rfl | mem
      · rfl
      · exact ih rest y mem

/-- Parentheses around the whole differ from any around what it ends with. -/
theorem enclose_around_ne (le : low ≤ high) {before : List Char} (blank : ' ' ∈ before)
    (text : List Char) :
    '(' :: (before ++ enclose low t text ++ [')']) ≠ before ++ enclose high t text := by
  intro same
  rcases enclose_cases le text with alike | ⟨bare, enclosed⟩
  · rw [alike] at same
    have longer := congrArg List.length same
    simp only [List.length_cons, List.length_append, List.length_nil] at longer
    omega
  · -- the first parenthesis would pass through all that stands before the part
    rw [bare, enclosed] at same
    have opened : ('(' :: before) ++ (text ++ [')']) = (before ++ ['(']) ++ (text ++ [')']) := by
      simpa using same
    have shifted := forall_eq_of_cons_eq_concat (List.append_cancel_right opened)
    exact absurd (shifted ' ' blank) (by decide)

/-- Parentheses around the whole differ from any around what it begins with. -/
theorem enclose_before_ne (le : low ≤ high) (behind text : List Char) :
    '(' :: (enclose low t text ++ ' ' :: behind ++ [')']) ≠
      enclose high t text ++ ' ' :: behind := by
  intro same
  rcases enclose_cases le text with alike | ⟨bare, enclosed⟩
  · rw [alike] at same
    have longer := congrArg List.length same
    simp only [List.length_cons, List.length_append, List.length_nil] at longer
    omega
  · -- a blank stands behind the part on one side, and a parenthesis on the other
    rw [bare, enclosed] at same
    have closed : text ++ ' ' :: (behind ++ [')']) = text ++ ')' :: ' ' :: behind := by
      simpa only [List.cons_append, List.append_assoc, List.nil_append, List.cons.injEq,
        true_and] using same
    exact absurd (List.cons.inj (List.append_cancel_left closed)).1 (by decide)

end

/-! ### Operators -/

section

variable (p : Project) (c : Connective)

/-- A member that is an operator has no parentheses. -/
theorem member_of_le {t : TypeExpr} (tight : Form.typeOperator.bindingPower ≤ t.bindingPower) :
    c.member p t = chars p t :=
  enclose_of_le (Int.le_trans (Int.le_of_lt c.power_lt) tight) _

theorem chars_typeOperator_eq_iff (operator : Operator) (first : TypeExpr)
    (members : List TypeExpr) :
    chars p (.typeOperator operator (c.type (first :: members))) =
        chars p (c.type (.typeOperator operator first :: members)) ↔
      c.power ≤ first.bindingPower := by
  have whole : chars p (.typeOperator operator (c.type (first :: members))) =
      operator.name.toList ++ ' ' :: (c.member p first ++ c.behind p members) :=
    congrArg (fun text => operator.name.toList ++ ' ' :: text) (c.chars_cons p first members)
  have part : c.member p (.typeOperator operator first) =
      operator.name.toList ++ ' ' :: chars p first :=
    member_of_le p c (Int.le_refl _)
  rw [whole, c.chars_cons, part, ← enclose_eq_self_iff (chars p first)]
  simp [Connective.member]

theorem chars_indexedAccess_eq_iff (index last : TypeExpr) (members : List TypeExpr) :
    chars p (.indexedAccess (c.type (members ++ [last])) index) =
        chars p (c.type (members ++ [.indexedAccess last index])) ↔
      c.power ≤ last.bindingPower := by
  have whole : chars p (.indexedAccess (c.type (members ++ [last])) index) =
      (c.before p members ++ c.member p last) ++ '[' :: (chars p index ++ [']']) :=
    congrArg (· ++ '[' :: (chars p index ++ [']'])) (c.chars_concat p members last)
  have part : c.member p (.indexedAccess last index) =
      chars p last ++ '[' :: (chars p index ++ [']']) :=
    member_of_le p c (show Form.typeOperator.bindingPower ≤ Form.indexedAccess.bindingPower by decide)
  rw [whole, c.chars_concat, part, ← enclose_eq_self_iff (chars p last)]
  simp [Connective.member]

/-! ### Operators that ask for parentheses -/

/-- The power that the operand of an array, an optional or a rest element has to have. -/
def operandPower : Int := Form.array.bindingPower

theorem power_lt_operandPower : c.power < operandPower :=
  Int.lt_of_lt_of_le c.power_lt (by decide)

theorem enclose_type (members : List TypeExpr) (text : List Char) :
    enclose operandPower (c.type members) text = '(' :: (text ++ [')']) := by
  refine enclose_of_lt ?_ text
  rw [c.bindingPower_type]
  exact power_lt_operandPower c

variable {p c} (t : TypeExpr → TypeExpr) {mark : List Char}

/-- An operator that stands behind its operand. -/
theorem chars_ne_of_suffix (shown : ∀ x, chars p (t x) = enclose operandPower x (chars p x) ++ mark)
    (tight : ∀ x, Form.typeOperator.bindingPower ≤ (t x).bindingPower) (first last : TypeExpr)
    (middle : List TypeExpr) : chars p (t (c.type (first :: middle ++ [last]))) ≠
      chars p (c.type (first :: middle ++ [t last])) := by
  intro same
  rw [shown, enclose_type, c.chars_concat, c.chars_concat, member_of_le p c (tight last), shown,
    ← List.append_assoc] at same
  exact enclose_around_ne (Int.le_of_lt (power_lt_operandPower c)) (c.blank_mem_before p first middle)
    (chars p last) (List.append_cancel_right same)

/-- An operator that stands before its operand. -/
theorem chars_ne_of_prefix (shown : ∀ x, chars p (t x) = mark ++ enclose operandPower x (chars p x))
    (tight : ∀ x, Form.typeOperator.bindingPower ≤ (t x).bindingPower) (first next : TypeExpr)
    (others : List TypeExpr) : chars p (t (c.type (first :: next :: others))) ≠
      chars p (c.type (t first :: next :: others)) := by
  intro same
  obtain ⟨behind, starts⟩ := c.exists_behind p next others
  rw [shown, enclose_type, c.chars_cons, c.chars_cons, member_of_le p c (tight first), shown, starts,
    List.append_assoc mark] at same
  exact enclose_before_ne (Int.le_of_lt (power_lt_operandPower c)) behind (chars p first)
    (List.append_cancel_left same)

end

/-- **Which operators keep their operand.** An array, an optional or a rest element of a union or an
intersection never looks like the same type with the operator on its last or first member. A type
operator or an indexed access does, exactly if that member has no parentheses in the type. -/
theorem render_operand_eq_iff (p : Project) (c : Connective) (first last : TypeExpr)
    (middle : List TypeExpr) :
    (∀ operator, (typeOperator operator (c.type (first :: (middle ++ [last])))).render p =
        (c.type (.typeOperator operator first :: (middle ++ [last]))).render p ↔
          c.power ≤ first.bindingPower) ∧
      (∀ index, (indexedAccess (c.type (first :: (middle ++ [last]))) index).render p =
        (c.type (first :: (middle ++ [.indexedAccess last index]))).render p ↔
          c.power ≤ last.bindingPower) ∧
      (rest (c.type (first :: (middle ++ [last])))).render p ≠
        (c.type (.rest first :: (middle ++ [last]))).render p ∧
      (array (c.type (first :: (middle ++ [last])))).render p ≠
        (c.type (first :: (middle ++ [.array last]))).render p ∧
      (optional (c.type (first :: (middle ++ [last])))).render p ≠
        (c.type (first :: (middle ++ [.optional last]))).render p := by
  have text_inj {s t : TypeExpr} : s.render p = t.render p ↔ chars p s = chars p t :=
    ⟨fun same => String.ofList_injective same, congrArg String.ofList⟩
  have tight : Form.typeOperator.bindingPower ≤ operandPower := by decide
  simp only [ne_eq, text_inj]
  refine ⟨fun operator => ?_, fun index => ?_, ?_, ?_, ?_⟩
  · exact chars_typeOperator_eq_iff p c operator first (middle ++ [last])
  · exact chars_indexedAccess_eq_iff p c index last (first :: middle)
  · obtain ⟨next, others, split⟩ := List.exists_cons_of_ne_nil
      (List.append_ne_nil_of_right_ne_nil middle (List.cons_ne_nil last []))
    rw [split]
    exact chars_ne_of_prefix .rest (fun _ => rfl) (fun _ => tight) first next others
  · exact chars_ne_of_suffix .array (fun _ => rfl) (fun _ => tight) first last middle
  · exact chars_ne_of_suffix .optional (fun _ => rfl) (fun _ => tight) first last middle

/-- `keyof` on a union looks like a union that begins with `keyof`, and an access to an element of a
union like a union that ends with one. -/
theorem render_keyofUnion :
    (typeOperator .keyof (.union [.intrinsic "A", .intrinsic "B"])).render { name := "p" } =
        "keyof A | B" ∧
      (union [.typeOperator .keyof (.intrinsic "A"), .intrinsic "B"]).render { name := "p" } =
        "keyof A | B" ∧
      (indexedAccess (.union [.intrinsic "A", .intrinsic "B"]) (.intrinsic "I")).render
        { name := "p" } = "A | B[I]" ∧
      (union [.intrinsic "A", .indexedAccess (.intrinsic "B") (.intrinsic "I")]).render
        { name := "p" } = "A | B[I]" :=
  ⟨rfl, rfl, rfl, rfl⟩

end TypeExpr

end ApiGraph
