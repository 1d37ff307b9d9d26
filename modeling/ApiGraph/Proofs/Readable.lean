import ApiGraph.Proofs.Occurrences
import ApiGraph.TypeExpr.Render
import Mathlib.Data.List.Basic

/-!
# ApiGraph.Proofs.Readable

The source syntax of a type can be read back. Parentheses stand where a part holds together less
tightly than its place asks for, and they are enough: the reader below finds the type again, one
character ahead at a time, whatever the project.

Only types that say what they are can be read: a name may be any text, and a union in a union looks
like one union. The **plain** types leave such cases out.

* `TypeExpr.IsPlain` — names of letters and digits, arrays, unions and intersections that are not
  nested in their like, conditional types and tuples.
* `TypeExpr.read` — the reader.
* `TypeExpr.IsPlain.isRead` — the reader finds a plain type again, in every place.
* `TypeExpr.render_eq_iff` — plain types with the same text are the same type.
-/

namespace ApiGraph

namespace TypeExpr

/-! ### Plain types -/

/-- A name of at least one letter or digit. -/
structure IsWord (name : String) : Prop where
  nonEmpty : name.toList ≠ []
  alphanumeric : ∀ c ∈ name.toList, c.isAlphanum = true

mutual
/-- A type that is built from names, arrays, unions, intersections, conditional types and tuples. -/
inductive IsPlain : TypeExpr → Prop
  | array {element : TypeExpr} (plain : IsPlain element) : IsPlain (.array element)
  | conditional {check bound whenTrue whenFalse : TypeExpr} (check_plain : IsPlain check)
      (bound_plain : IsPlain bound) (true_plain : IsPlain whenTrue)
      (false_plain : IsPlain whenFalse) : IsPlain (.conditional check bound whenTrue whenFalse)
  | intersection {members : List TypeExpr} (two : 2 ≤ members.length)
      (plain : ∀ t ∈ members, IsPlain t) (flat : ∀ t ∈ members, t.form ≠ .intersection) :
      IsPlain (.intersection members)
  | intrinsic {name : String} (word : IsWord name) : IsPlain (.intrinsic name)
  | tuple {elements : List TypeExpr} (plain : ∀ t ∈ elements, IsPlainElement t) :
      IsPlain (.tuple elements)
  | union {members : List TypeExpr} (two : 2 ≤ members.length)
      (plain : ∀ t ∈ members, IsPlain t) (flat : ∀ t ∈ members, t.form ≠ .union) :
      IsPlain (.union members)

/-- An element of a tuple: a plain type, which may be optional or stand for the rest. -/
inductive IsPlainElement : TypeExpr → Prop
  | plain {t : TypeExpr} (plain : IsPlain t) : IsPlainElement t
  | optional {t : TypeExpr} (plain : IsPlain t) : IsPlainElement (.optional t)
  | rest {t : TypeExpr} (plain : IsPlain t) : IsPlainElement (.rest t)
end

/-! ### The reader -/

/-- A reader gives what stands at the front of a text, and what follows it. -/
abbrev Reader (α : Type) := List Char → Option (α × List Char)

/-- The separator of the members of an intersection. -/
def andText : List Char := [' ', '&', ' ']

/-- The separator of the members of a union. -/
def orText : List Char := [' ', '|', ' ']

/-- What stands behind the type that a conditional type checks. -/
def extendsText : List Char := [' ', 'e', 'x', 't', 'e', 'n', 'd', 's', ' ']

/-- The array for each pair of brackets that follows an element. -/
def readArrays (element : TypeExpr) : List Char → TypeExpr × List Char
  | '[' :: ']' :: cs => readArrays (.array element) cs
  | cs => (element, cs)

/-- Reads one item, and another one after each separator. -/
def readMembers {α : Type} (item : Reader α) (separator : List Char) : Nat → Reader (List α)
  | 0, _ => none
  | room + 1, cs => do
    let (member, cs) ← item cs
    match Text.after? separator cs with
    | none => return ([member], cs)
    | some cs =>
      let (members, cs) ← readMembers item separator room cs
      return (member :: members, cs)

/-- Reads members that make up a type, unless there is only one. -/
def readJoined (item : Reader TypeExpr) (separator : List Char) (form : List TypeExpr → TypeExpr)
    (room : Nat) : Reader TypeExpr := fun cs => do
  let (members, cs) ← readMembers item separator room cs
  match members with
  | [member] => return (member, cs)
  | members => return (form members, cs)

section

/- What stands between brackets is left to `read`, and there is room for so many members. -/
variable (read : Reader TypeExpr) (room : Nat)

/-- Reads an element of a tuple. -/
def readElement : Reader TypeExpr := fun cs =>
  match Text.after? ['.', '.', '.'] cs with
  | some cs => (read cs).map fun (t, cs) => (.rest t, cs)
  | none => do
    let (t, cs) ← read cs
    match cs with
    | '?' :: cs => return (.optional t, cs)
    | cs => return (t, cs)

/-- Reads a tuple whose bracket is open. -/
def readTuple : Reader TypeExpr := fun cs =>
  match Text.after? [']'] cs with
  | some cs => some (.tuple [], cs)
  | none => do
    let (elements, cs) ← readMembers (readElement read) [',', ' '] room cs
    let cs ← Text.after? [']'] cs
    return (.tuple elements, cs)

/-- Reads what has no separators outside brackets. -/
def readOperand : Reader TypeExpr
  | '(' :: cs => do
    let (t, cs) ← read cs
    let cs ← Text.after? [')'] cs
    return readArrays t cs
  | '[' :: cs => do
    let (t, cs) ← readTuple read room cs
    return readArrays t cs
  | cs =>
    let name := cs.takeWhile Char.isAlphanum
    if name.isEmpty then none
    else some (readArrays (.intrinsic (String.ofList name)) (cs.dropWhile Char.isAlphanum))

/-- Reads operands that may be intersected. -/
def readIntersection : Reader TypeExpr :=
  readJoined (readOperand read room) andText .intersection room

/-- Reads intersections that may be united. -/
def readUnion : Reader TypeExpr :=
  readJoined (readIntersection read room) orText .union room

/-- Reads a type, which a conditional type may check. -/
def readConditional : Reader TypeExpr := fun cs => do
  let (check, cs) ← readUnion read room cs
  match Text.after? extendsText cs with
  | none => return (check, cs)
  | some cs =>
    let (bound, cs) ← read cs
    let cs ← Text.after? [' ', '?', ' '] cs
    let (whenTrue, cs) ← read cs
    let cs ← Text.after? [' ', ':', ' '] cs
    let (whenFalse, cs) ← read cs
    return (.conditional check bound whenTrue whenFalse, cs)

end

/-- Reads a type with at most so many levels. -/
def read : Nat → Reader TypeExpr
  | 0 => fun _ => none
  | level + 1 => readConditional (read level) (level + 1)

/-! ### Where a reader stops -/

/-- No word goes on in the text. -/
def EndsWord (cs : List Char) : Prop :=
  ∀ c ∈ cs.head?, c.isAlphanum = false

/-- The reader of an operand, and of operands between the given separators, goes no further. -/
structure Stops (separators : List (List Char)) (cs : List Char) : Prop where
  word : EndsWord cs
  array : Text.after? ['[', ']'] cs = none
  separator : ∀ s ∈ separators, Text.after? s cs = none

/-- The separators of all levels. -/
def separators : List (List Char) := [andText, orText, extendsText]

theorem Stops.of_subset {fewer all : List (List Char)} {cs : List Char} (h : Stops all cs)
    (sub : fewer ⊆ all) : Stops fewer cs where
  word := h.word
  array := h.array
  separator s mem := h.separator s (sub mem)

theorem stops_nil : Stops separators [] where
  word := nofun
  array := rfl
  separator := by simp [separators, andText, orText, extendsText, Text.after?]

/-- A mark that is part of no word and of no separator. -/
theorem stops_cons {c : Char} (h : c ∈ [')', ']', ',', '?']) (cs : List Char) :
    Stops separators (c :: cs) := by
  simp only [List.mem_cons, List.not_mem_nil, or_false] at h
  obtain rfl | rfl | rfl | rfl := h <;> constructor <;>
    simp [EndsWord, separators, andText, orText, extendsText, Text.after?]

/-- A mark between blanks that is part of no separator. -/
theorem stops_blank {c : Char} (h : c ∈ ['?', ':']) (cs : List Char) :
    Stops separators (' ' :: c :: cs) := by
  simp only [List.mem_cons, List.not_mem_nil, or_false] at h
  obtain rfl | rfl := h <;> constructor <;>
    simp [EndsWord, separators, andText, orText, extendsText, Text.after?]

theorem stops_extends (cs : List Char) : Stops [andText, orText] (extendsText ++ cs) := by
  constructor <;> simp [EndsWord, andText, orText, extendsText, Text.after?]

theorem stops_or (cs : List Char) : Stops [andText] (orText ++ cs) := by
  constructor <;> simp [EndsWord, andText, orText, Text.after?]

theorem stops_and (cs : List Char) : Stops [] (andText ++ cs) := by
  constructor <;> simp [EndsWord, andText, Text.after?]

/-! ### Members -/

section

variable {α : Type} {separator text rest : List Char} {room : Nat}

/-- Members are read back, if each is where the separator or the end of all follows. -/
theorem readMembers_join {item : Reader α} {write : α → List Char} {Next : List Char → Prop}
    (next : ∀ cs, Next (separator ++ cs)) (ends : Next rest)
    (stop : Text.after? separator rest = none) :
    ∀ {members : List α} {room : Nat}, members ≠ [] → members.length ≤ room →
      (∀ a ∈ members, ∀ cs, Next cs → item (write a ++ cs) = some (a, cs)) →
      readMembers item separator room (Text.join separator (members.map write) ++ rest) =
        some (members, rest)
  | [], _, nonEmpty, _, _ => absurd rfl nonEmpty
  | [a], room + 1, _, _, reads => by
    have first := reads a List.mem_cons_self rest ends
    show readMembers item separator (room + 1) (write a ++ rest) = _
    simp [readMembers, first, stop]
  | a :: b :: members, room + 1, _, fits, reads => by
    have first := reads a List.mem_cons_self _
      (next (Text.join separator ((b :: members).map write) ++ rest))
    have others := readMembers_join next ends stop (List.cons_ne_nil b members)
      (Nat.le_of_succ_le_succ fits) fun c mem => reads c (List.mem_cons_of_mem a mem)
    have split : Text.join separator ((a :: b :: members).map write) ++ rest =
        write a ++ (separator ++ (Text.join separator ((b :: members).map write) ++ rest)) := by
      simp [Text.join]
    rw [split]
    simp only [readMembers, first, Text.after?_append, others, Option.bind_eq_bind,
      Option.bind_some]
    rfl

variable {item : Reader TypeExpr} {form : List TypeExpr → TypeExpr} {t : TypeExpr}

/-- One member alone is what is read. -/
theorem readJoined_single (reads : item text = some (t, rest))
    (stop : Text.after? separator rest = none) :
    readJoined item separator form (room + 1) text = some (t, rest) := by
  simp [readJoined, readMembers, reads, stop]

/-- Two members or more make up a type. -/
theorem readJoined_of_readMembers {members : List TypeExpr} (two : 2 ≤ members.length)
    (reads : readMembers item separator room text = some (members, rest)) :
    readJoined item separator form room text = some (form members, rest) := by
  match members, two with
  | a :: b :: members, _ => simp [readJoined, reads]

/-- Where no item is, there are no members. -/
theorem readMembers_eq_none {item : Reader α} (h : item text = none) :
    readMembers item separator room text = none := by
  cases room with
  | zero => rfl
  | succ room => simp [readMembers, h]

end

/-! ### From one level to the next -/

section

variable {level : Nat} {t : TypeExpr} {text rest : List Char}

theorem readArrays_eq (h : Text.after? ['[', ']'] rest = none) :
    readArrays t rest = (t, rest) := by
  unfold readArrays
  split
  · simp [Text.after?] at h
  · rfl

/-- An operand alone is an intersection. -/
theorem readIntersection_of_readOperand {inner : Reader TypeExpr}
    (reads : readOperand inner (level + 1) text = some (t, rest))
    (stop : Text.after? andText rest = none) :
    readIntersection inner (level + 1) text = some (t, rest) :=
  readJoined_single reads stop

/-- An intersection alone is a union. -/
theorem readUnion_of_readIntersection {inner : Reader TypeExpr}
    (reads : readIntersection inner (level + 1) text = some (t, rest))
    (stop : Text.after? orText rest = none) :
    readUnion inner (level + 1) text = some (t, rest) :=
  readJoined_single reads stop

/-- A union that is not checked is a type. -/
theorem read_of_readUnion (reads : readUnion (read level) (level + 1) text = some (t, rest))
    (stop : Text.after? extendsText rest = none) : read (level + 1) text = some (t, rest) := by
  simp [read, readConditional, reads, stop]

theorem read_of_readIntersection
    (reads : readIntersection (read level) (level + 1) text = some (t, rest))
    (stops : Stops separators rest) : read (level + 1) text = some (t, rest) :=
  have noOr := stops.separator orText (by simp [separators])
  have noExtends := stops.separator extendsText (by simp [separators])
  read_of_readUnion (readUnion_of_readIntersection reads noOr) noExtends

theorem read_of_readOperand
    (reads : readOperand (read level) (level + 1) text = some (t, rest))
    (stops : Stops separators rest) : read (level + 1) text = some (t, rest) :=
  have noAnd := stops.separator andText (by simp [separators])
  read_of_readIntersection (readIntersection_of_readOperand reads noAnd) stops

/-- No type begins with a dot or a closing bracket. -/
theorem read_eq_none {c : Char} (h : c ∈ ['.', ']']) (level : Nat) (cs : List Char) :
    read level (c :: cs) = none := by
  cases level with
  | zero => rfl
  | succ level =>
    have operand : readOperand (read level) (level + 1) (c :: cs) = none := by
      simp only [List.mem_cons, List.not_mem_nil, or_false] at h
      obtain rfl | rfl := h <;> simp [readOperand]
    simp [read, readConditional, readUnion, readIntersection, readJoined,
      readMembers_eq_none, operand]

end

/-! ### Plain types are read back -/

variable {p : Project}

/-- The text of each part by itself. -/
theorem parts_eq_map (power : Int) :
    ∀ ts : List TypeExpr, parts p power ts = ts.map fun t => enclose power t (chars p t)
  | [] => rfl
  | t :: ts => congrArg (enclose power t (chars p t) :: ·) (parts_eq_map power ts)

theorem enclose_of_le {power : Int} {t : TypeExpr} (h : power ≤ t.bindingPower)
    (text : List Char) : enclose power t text = text :=
  if_neg (Int.not_lt.2 h)

theorem enclose_of_lt {power : Int} {t : TypeExpr} (h : t.bindingPower < power)
    (text : List Char) : enclose power t text = '(' :: (text ++ [')']) :=
  if_pos h

/-- The reader finds a type again, in each place that asks for another power: as an operand, as a
member of a union, and on its own. -/
structure IsRead (p : Project) (t : TypeExpr) : Prop where
  operand {level : Nat} {cs : List Char} (fits : sizeOf t < level) (ends : EndsWord cs) :
    readOperand (read level) (level + 1)
      (enclose Form.array.bindingPower t (chars p t) ++ cs) = some (readArrays t cs)
  member {level : Nat} {cs : List Char} (flat : t.form ≠ .union) (fits : sizeOf t < level)
    (stops : Stops [andText] cs) : readIntersection (read level) (level + 1)
      (enclose Form.union.bindingPower t (chars p t) ++ cs) = some (t, cs)
  whole {level : Nat} {cs : List Char} (fits : sizeOf t ≤ level) (stops : Stops separators cs) :
    read (level + 1) (chars p t ++ cs) = some (t, cs)

namespace IsRead

variable {t : TypeExpr}

/-- An operand that ends is the type itself. -/
theorem operand_stops (h : IsRead p t) {level : Nat} {cs : List Char} (fits : sizeOf t < level)
    {between : List (List Char)} (stops : Stops between cs) :
    readOperand (read level) (level + 1)
      (enclose Form.array.bindingPower t (chars p t) ++ cs) = some (t, cs) := by
  rw [h.operand fits stops.word, readArrays_eq stops.array]

/-- Types that hold together most tightly are read as operands everywhere. -/
theorem of_operand (tight : t.bindingPower = Form.array.bindingPower)
    (operand : ∀ {level cs}, sizeOf t ≤ level → EndsWord cs →
      readOperand (read level) (level + 1) (chars p t ++ cs) = some (readArrays t cs)) :
    IsRead p t where
  operand fits ends := by
    rw [enclose_of_le (Int.le_of_eq tight.symm)]
    exact operand (Nat.le_of_lt fits) ends
  member _ fits stops := by
    have reads := operand (Nat.le_of_lt fits) stops.word
    rw [readArrays_eq stops.array] at reads
    rw [enclose_of_le (tight ▸ by decide)]
    exact readIntersection_of_readOperand reads (stops.separator _ List.mem_cons_self)
  whole fits stops := by
    have reads := operand fits stops.word
    rw [readArrays_eq stops.array] at reads
    exact read_of_readOperand reads stops

/-- Types that hold together less tightly are operands between parentheses. -/
theorem operand_of_whole (loose : t.bindingPower < Form.array.bindingPower)
    (whole : ∀ {level cs}, sizeOf t ≤ level → Stops separators cs →
      read (level + 1) (chars p t ++ cs) = some (t, cs))
    {level : Nat} {cs : List Char} (fits : sizeOf t < level) :
    readOperand (read level) (level + 1)
      (enclose Form.array.bindingPower t (chars p t) ++ cs) = some (readArrays t cs) := by
  obtain ⟨level, rfl⟩ := Nat.exists_eq_add_one_of_ne_zero (Nat.ne_zero_of_lt fits)
  have inner := whole (Nat.le_of_lt_succ fits) (stops_cons (c := ')') (by simp) cs)
  rw [enclose_of_lt loose]
  simp [readOperand, inner, Text.after?]

/-- A type that holds together less tightly is read between parentheses if it is read on its own. -/
theorem of_whole (loose : t.bindingPower < Form.array.bindingPower)
    (member : ∀ {level cs}, t.form ≠ .union → sizeOf t < level → Stops [andText] cs →
      readIntersection (read level) (level + 1)
        (enclose Form.union.bindingPower t (chars p t) ++ cs) = some (t, cs))
    (whole : ∀ {level cs}, sizeOf t ≤ level → Stops separators cs →
      read (level + 1) (chars p t ++ cs) = some (t, cs)) : IsRead p t where
  operand fits _ := operand_of_whole loose whole fits
  member := member
  whole := whole

/-- Nothing changes between parentheses where a type stands on its own. -/
theorem enclosed (h : IsRead p t) {level : Nat} {cs : List Char} (fits : sizeOf t < level)
    (stops : Stops separators cs) :
    read (level + 1) (enclose Form.array.bindingPower t (chars p t) ++ cs) = some (t, cs) :=
  read_of_readOperand (h.operand_stops fits stops) stops

end IsRead

/-! #### The powers of plain types -/

/-- The forms of plain types. -/
def plainForms : List Form :=
  [.array, .conditional, .intersection, .intrinsic, .tuple, .union]

theorem IsPlain.form_mem {t : TypeExpr} (h : t.IsPlain) : t.form ∈ plainForms := by
  cases h <;> simp [form, plainForms]

/-- Places that ask for different powers have the same parentheses, if no power of the type is
between. -/
theorem enclose_congr {power power' : Int} {t : TypeExpr}
    (h : t.bindingPower < power ↔ t.bindingPower < power') (text : List Char) :
    enclose power t text = enclose power' t text := by
  simp only [enclose, h]

/-- A type that is checked has parentheses where an operand has them. -/
theorem IsPlain.enclose_check {t : TypeExpr} (h : t.IsPlain) (text : List Char) :
    enclose Form.checkPower t text = enclose Form.array.bindingPower t text := by
  have powers : ∀ form ∈ plainForms,
      (form.bindingPower < Form.checkPower ↔ form.bindingPower < Form.array.bindingPower) := by
    decide
  exact enclose_congr (powers t.form h.form_mem) text

/-- A member of an intersection has parentheses where an operand has them. -/
theorem IsPlain.enclose_member {t : TypeExpr} (h : t.IsPlain) (flat : t.form ≠ .intersection)
    (text : List Char) :
    enclose Form.intersection.bindingPower t text = enclose Form.array.bindingPower t text := by
  have powers : ∀ form ∈ plainForms, form ≠ .intersection →
      (form.bindingPower < Form.intersection.bindingPower ↔
        form.bindingPower < Form.array.bindingPower) := by
    decide
  exact enclose_congr (powers t.form h.form_mem flat) text

/-! #### One lemma for each form -/

theorem isRead_intrinsic {name : String} (word : IsWord name) : IsRead p (.intrinsic name) := by
  refine .of_operand rfl fun {level cs} _ ends => ?_
  show readOperand (read level) (level + 1) (name.toList ++ cs) = _
  have ended : cs.takeWhile Char.isAlphanum = [] ∧ cs.dropWhile Char.isAlphanum = cs := by
    cases cs with
    | nil => exact ⟨rfl, rfl⟩
    | cons c cs => simp [ends c rfl]
  have take : (name.toList ++ cs).takeWhile Char.isAlphanum = name.toList := by
    rw [List.takeWhile_append_of_pos word.alphanumeric, ended.1, List.append_nil]
  have drop : (name.toList ++ cs).dropWhile Char.isAlphanum = cs := by
    rw [List.dropWhile_append_of_pos word.alphanumeric, ended.2]
  have back : String.ofList name.toList = name := String.ofList_toList
  obtain ⟨c, tail, split⟩ := List.exists_cons_of_ne_nil word.nonEmpty
  have isWord : c.isAlphanum = true := word.alphanumeric c (by simp [split])
  have noParenthesis : c ≠ '(' := by
    intro h
    exact absurd (h ▸ isWord) (by decide)
  have noBracket : c ≠ '[' := by
    intro h
    exact absurd (h ▸ isWord) (by decide)
  rw [split] at take drop back
  rw [split]
  simp only [List.cons_append] at take drop
  simp [readOperand, noParenthesis, noBracket, take, drop, back]

theorem isRead_array {element : TypeExpr} (h : IsRead p element) : IsRead p (.array element) := by
  refine .of_operand rfl fun {level cs} fits ends => ?_
  have smaller : sizeOf element < level := by
    rw [array.sizeOf_spec] at fits
    omega
  have opens : EndsWord ('[' :: ']' :: cs) := by simp [EndsWord]
  show readOperand (read level) (level + 1)
    (enclose Form.array.bindingPower element (chars p element) ++ ['[', ']'] ++ cs) = _
  rw [List.append_assoc]
  exact h.operand smaller opens

/-- Members have room, and there are some. -/
theorem length_le_sizeOf (ts : List TypeExpr) : ts.length ≤ sizeOf ts := by
  induction ts with
  | nil => exact Nat.zero_le _
  | cons t ts ih =>
    rw [List.cons.sizeOf_spec, List.length_cons]
    omega

theorem ne_nil_of_two {ts : List TypeExpr} (two : 2 ≤ ts.length) : ts ≠ [] :=
  List.ne_nil_of_length_pos (Nat.lt_of_lt_of_le Nat.zero_lt_two two)

theorem isRead_intersection {members : List TypeExpr} (two : 2 ≤ members.length)
    (plain : ∀ t ∈ members, IsPlain t) (flat : ∀ t ∈ members, t.form ≠ .intersection)
    (h : ∀ t ∈ members, IsRead p t) : IsRead p (.intersection members) := by
  have reads {level : Nat} {cs : List Char} (fits : sizeOf (intersection members) ≤ level)
      (stops : Stops [andText] cs) :
      readIntersection (read level) (level + 1) (chars p (.intersection members) ++ cs) =
        some (.intersection members, cs) := by
    rw [intersection.sizeOf_spec] at fits
    have each : ∀ t ∈ members, ∀ cs, Stops [] cs →
        readOperand (read level) (level + 1)
          (enclose Form.intersection.bindingPower t (chars p t) ++ cs) = some (t, cs) := by
      intro t mem cs stops
      have smaller := List.sizeOf_lt_of_mem mem
      rw [(plain t mem).enclose_member (flat t mem)]
      exact (h t mem).operand_stops (by omega) stops
    have room : members.length ≤ level + 1 := Nat.le_trans (length_le_sizeOf members) (by omega)
    have all := readMembers_join stops_and (stops.of_subset (List.nil_subset _))
      (stops.separator andText List.mem_cons_self) (ne_nil_of_two two) room each
    rw [← parts_eq_map] at all
    exact readJoined_of_readMembers two all
  have loose : Form.intersection.bindingPower < Form.array.bindingPower := by decide
  have tight : Form.union.bindingPower ≤ Form.intersection.bindingPower := by decide
  refine .of_whole loose (fun _ fits stops => ?_) fun fits stops => ?_
  · rw [enclose_of_le tight]
    exact reads (Nat.le_of_lt fits) stops
  · exact read_of_readIntersection (reads fits (stops.of_subset (by simp [separators]))) stops

theorem isRead_union {members : List TypeExpr} (two : 2 ≤ members.length)
    (flat : ∀ t ∈ members, t.form ≠ .union) (h : ∀ t ∈ members, IsRead p t) :
    IsRead p (.union members) := by
  have loose : Form.union.bindingPower < Form.array.bindingPower := by decide
  refine .of_whole loose (fun isUnion => absurd rfl isUnion) fun {level cs} fits stops => ?_
  rw [union.sizeOf_spec] at fits
  have each : ∀ t ∈ members, ∀ cs, Stops [andText] cs →
      readIntersection (read level) (level + 1)
        (enclose Form.union.bindingPower t (chars p t) ++ cs) = some (t, cs) := by
    intro t mem cs stops
    have smaller := List.sizeOf_lt_of_mem mem
    exact (h t mem).member (flat t mem) (by omega) stops
  have room : members.length ≤ level + 1 := Nat.le_trans (length_le_sizeOf members) (by omega)
  have all := readMembers_join stops_or (stops.of_subset (by simp [separators]))
    (stops.separator orText (by simp [separators])) (ne_nil_of_two two) room each
  rw [← parts_eq_map] at all
  have reads : readUnion (read level) (level + 1) (chars p (.union members) ++ cs) =
      some (.union members, cs) :=
    readJoined_of_readMembers two all
  exact read_of_readUnion reads (stops.separator extendsText (by simp [separators]))

theorem isRead_conditional {check bound whenTrue whenFalse : TypeExpr} (plain : IsPlain check)
    (check_read : IsRead p check) (bound_read : IsRead p bound) (true_read : IsRead p whenTrue)
    (false_read : IsRead p whenFalse) :
    IsRead p (.conditional check bound whenTrue whenFalse) := by
  have whole {level : Nat} {cs : List Char}
      (fits : sizeOf (conditional check bound whenTrue whenFalse) ≤ level)
      (stops : Stops separators cs) :
      read (level + 1) (chars p (.conditional check bound whenTrue whenFalse) ++ cs) =
        some (.conditional check bound whenTrue whenFalse, cs) := by
    rw [conditional.sizeOf_spec] at fits
    obtain ⟨level, rfl⟩ : ∃ below, level = below + 1 := ⟨level - 1, by omega⟩
    -- The parts stand in the text from the left to the right, each before what follows it.
    let afterTrue := [' ', ':', ' '] ++ (chars p whenFalse ++ cs)
    let afterBound := [' ', '?', ' '] ++ (chars p whenTrue ++ afterTrue)
    let afterCheck := extendsText ++ (chars p bound ++ afterBound)
    have text : chars p (.conditional check bound whenTrue whenFalse) ++ cs =
        enclose Form.checkPower check (chars p check) ++ afterCheck := by
      show enclose Form.checkPower check (chars p check) ++ extendsText ++ chars p bound ++
        [' ', '?', ' '] ++ chars p whenTrue ++ [' ', ':', ' '] ++ chars p whenFalse ++ cs = _
      simp only [List.append_assoc, afterCheck, afterBound, afterTrue]
    have stopsCheck : Stops [andText, orText] afterCheck := stops_extends _
    have reads_check : readUnion (read (level + 1)) (level + 2)
        (enclose Form.array.bindingPower check (chars p check) ++ afterCheck) =
          some (check, afterCheck) :=
      readUnion_of_readIntersection
        (readIntersection_of_readOperand (check_read.operand_stops (by omega) stopsCheck)
          (stopsCheck.separator andText (by simp)))
        (stopsCheck.separator orText (by simp))
    have reads_bound : read (level + 1) (chars p bound ++ afterBound) = some (bound, afterBound) :=
      bound_read.whole (by omega) (stops_blank (by simp) _)
    have reads_true : read (level + 1) (chars p whenTrue ++ afterTrue) =
        some (whenTrue, afterTrue) :=
      true_read.whole (by omega) (stops_blank (by simp) _)
    have reads_false : read (level + 1) (chars p whenFalse ++ cs) = some (whenFalse, cs) :=
      false_read.whole (by omega) stops
    rw [text, plain.enclose_check, read]
    simp only [readConditional, reads_check, Option.bind_eq_bind, Option.bind_some, afterCheck,
      Text.after?_append, reads_bound, afterBound, reads_true, afterTrue, reads_false]
    rfl
  let t := conditional check bound whenTrue whenFalse
  have loose : t.bindingPower < Form.array.bindingPower :=
    show Form.conditional.bindingPower < Form.array.bindingPower by decide
  have loose' : t.bindingPower < Form.union.bindingPower :=
    show Form.conditional.bindingPower < Form.union.bindingPower by decide
  refine .of_whole loose (fun {level cs} _ fits stops => ?_) whole
  have reads : readOperand (read level) (level + 1)
      (enclose Form.array.bindingPower t (chars p t) ++ cs) = some (t, cs) := by
    rw [IsRead.operand_of_whole loose whole fits, readArrays_eq stops.array]
  rw [enclose_of_lt loose] at reads
  rw [enclose_of_lt loose']
  exact readIntersection_of_readOperand reads (stops.separator andText List.mem_cons_self)

/-! #### Tuples -/

/-- An element of a tuple ends: another one follows, or the bracket is closed. -/
def EndsElement (cs : List Char) : Prop :=
  ∃ tail, cs = ',' :: tail ∨ cs = ']' :: tail

theorem EndsElement.stops {cs : List Char} (h : EndsElement cs) : Stops separators cs := by
  obtain ⟨tail, rfl | rfl⟩ := h
  · exact stops_cons (by simp) tail
  · exact stops_cons (by simp) tail

/-- The reader finds an element of a tuple again. -/
def IsReadElement (p : Project) (t : TypeExpr) : Prop :=
  ∀ {level : Nat} {cs : List Char}, sizeOf t ≤ level → EndsElement cs →
    readElement (read (level + 1)) (chars p t ++ cs) = some (t, cs)

/-- What is read as a type does not begin as the rest of a tuple does. -/
theorem after?_dots {level : Nat} {cs : List Char} {found : TypeExpr × List Char}
    (h : read level cs = some found) : Text.after? ['.', '.', '.'] cs = none := by
  cases cs with
  | nil => rfl
  | cons c cs =>
    have noDot : '.' ≠ c := by
      rintro rfl
      exact Option.some_ne_none _ (h.symm.trans (read_eq_none (by simp) level cs))
    exact if_neg noDot

/-- What is read as elements does not begin as the end of a tuple does. -/
theorem after?_bracket {level room : Nat} {separator cs : List Char}
    {found : List TypeExpr × List Char}
    (h : readMembers (readElement (read level)) separator room cs = some found) :
    Text.after? [']'] cs = none := by
  cases cs with
  | nil => rfl
  | cons c cs =>
    have noBracket : ']' ≠ c := by
      rintro rfl
      have nothing : readElement (read level) (']' :: cs) = none := by
        simp [readElement, Text.after?, read_eq_none]
      exact Option.some_ne_none _ (h.symm.trans (readMembers_eq_none nothing))
    exact if_neg noBracket

theorem IsRead.element {t : TypeExpr} (h : IsRead p t) : IsReadElement p t := by
  intro level cs fits ends
  have reads := h.whole fits ends.stops
  have noDots := after?_dots reads
  obtain ⟨tail, rfl | rfl⟩ := ends
  · simp [readElement, noDots, reads]
  · simp [readElement, noDots, reads]

theorem IsRead.optional_element {t : TypeExpr} (h : IsRead p t) :
    IsReadElement p (.optional t) := by
  intro level cs fits ends
  rw [optional.sizeOf_spec] at fits
  have reads : read (level + 1) (enclose Form.array.bindingPower t (chars p t) ++ '?' :: cs) =
      some (t, '?' :: cs) :=
    h.enclosed (by omega) (stops_cons (by simp) cs)
  have text : chars p (.optional t) ++ cs =
      enclose Form.array.bindingPower t (chars p t) ++ '?' :: cs :=
    List.append_assoc _ _ cs
  rw [text]
  simp [readElement, after?_dots reads, reads]

theorem IsRead.rest_element {t : TypeExpr} (h : IsRead p t) : IsReadElement p (.rest t) := by
  intro level cs fits ends
  rw [rest.sizeOf_spec] at fits
  have reads : read (level + 1) (enclose Form.array.bindingPower t (chars p t) ++ cs) =
      some (t, cs) :=
    h.enclosed (by omega) ends.stops
  have text : chars p (.rest t) ++ cs =
      ['.', '.', '.'] ++ (enclose Form.array.bindingPower t (chars p t) ++ cs) :=
    List.append_assoc _ _ cs
  rw [text, readElement, Text.after?_append]
  simp [reads]

/-- No type holds together so little that an element has parentheses. -/
theorem enclose_unknown (t : TypeExpr) (text : List Char) :
    enclose Form.unknown.bindingPower t text = text := by
  have least : Form.unknown.bindingPower ≤ t.form.bindingPower := by
    cases t.form <;> decide
  exact enclose_of_le least text

theorem isRead_tuple {elements : List TypeExpr} (h : ∀ t ∈ elements, IsReadElement p t) :
    IsRead p (.tuple elements) := by
  refine .of_operand rfl fun {level cs} fits _ => ?_
  rw [tuple.sizeOf_spec] at fits
  obtain ⟨level, rfl⟩ : ∃ below, level = below + 1 := ⟨level - 1, by omega⟩
  let list := Text.join [',', ' '] (elements.map (chars p))
  have text : chars p (.tuple elements) ++ cs = '[' :: (list ++ ']' :: cs) := by
    show '[' :: (Text.join [',', ' '] (parts p Form.unknown.bindingPower elements) ++ [']']) ++ cs
      = _
    simp only [parts_eq_map, enclose_unknown, List.cons_append, List.append_assoc,
      List.nil_append, list]
  have reads : readTuple (read (level + 1)) (level + 2) (list ++ ']' :: cs) =
      some (.tuple elements, cs) := by
    cases elements with
    | nil => simp [readTuple, list, Text.join, Text.after?]
    | cons first others =>
      have room : (first :: others).length ≤ level + 2 :=
        Nat.le_trans (length_le_sizeOf _) (by omega)
      have each : ∀ t ∈ first :: others, ∀ cs, EndsElement cs →
          readElement (read (level + 1)) (chars p t ++ cs) = some (t, cs) := by
        intro t mem cs ends
        have smaller := List.sizeOf_lt_of_mem mem
        exact h t mem (by omega) ends
      have next (cs : List Char) : EndsElement ([',', ' '] ++ cs) := ⟨' ' :: cs, .inl rfl⟩
      have ends : EndsElement (']' :: cs) := ⟨cs, .inr rfl⟩
      have all := readMembers_join next ends (by simp [Text.after?])
        (List.cons_ne_nil first others) room each
      have noBracket := after?_bracket all
      simp only [readTuple, list, noBracket, all, Option.bind_eq_bind, Option.bind_some]
      rfl
  rw [text]
  simp [readOperand, reads]

mutual
/-- **Plain types can be read.** -/
theorem IsPlain.isRead : ∀ {t : TypeExpr}, t.IsPlain → IsRead p t
  | _, .array plain => isRead_array plain.isRead
  | _, .conditional check_plain bound_plain true_plain false_plain =>
    isRead_conditional check_plain check_plain.isRead bound_plain.isRead true_plain.isRead
      false_plain.isRead
  | _, .intersection two plain flat =>
    isRead_intersection two plain flat fun t mem => (plain t mem).isRead
  | _, .intrinsic word => isRead_intrinsic word
  | _, .tuple plain => isRead_tuple fun t mem => (plain t mem).isReadElement
  | _, .union two plain flat => isRead_union two flat fun t mem => (plain t mem).isRead

theorem IsPlainElement.isReadElement : ∀ {t : TypeExpr}, t.IsPlainElement → IsReadElement p t
  | _, .plain plain => plain.isRead.element
  | _, .optional plain => plain.isRead.optional_element
  | _, .rest plain => plain.isRead.rest_element
end

/-- **The text of a plain type tells the type**: two plain types have the same text only if they are
the same type. -/
theorem render_eq_iff {t t' : TypeExpr} (h : t.IsPlain) (h' : t'.IsPlain) :
    t.render p = t'.render p ↔ t = t' := by
  constructor
  · intro same
    have chars_eq : chars p t = chars p t' := String.ofList_injective same
    let level := max (sizeOf t) (sizeOf t')
    have first : read (level + 1) (chars p t ++ []) = some (t, []) :=
      h.isRead.whole (Nat.le_max_left _ _) stops_nil
    have second : read (level + 1) (chars p t' ++ []) = some (t', []) :=
      h'.isRead.whole (Nat.le_max_right _ _) stops_nil
    rw [chars_eq] at first
    exact (Prod.mk.inj (Option.some.inj (first.symm.trans second))).1
  · intro same
    rw [same]

/-- `(A extends B ? C : D) extends E ? F : G`. -/
def checkedConditional : TypeExpr :=
  .conditional
    (.conditional (.intrinsic "A") (.intrinsic "B") (.intrinsic "C") (.intrinsic "D"))
    (.intrinsic "E") (.intrinsic "F") (.intrinsic "G")

/-- `A extends B ? C : D extends E ? F : G`. -/
def chainedConditional : TypeExpr :=
  .conditional (.intrinsic "A") (.intrinsic "B") (.intrinsic "C")
    (.conditional (.intrinsic "D") (.intrinsic "E") (.intrinsic "F") (.intrinsic "G"))

/-- Only parentheses tell the two types apart. -/
theorem render_checkedConditional_ne :
    checkedConditional.IsPlain ∧ chainedConditional.IsPlain ∧
      checkedConditional.render { name := "library" } ≠
        chainedConditional.render { name := "library" } := by
  have word {c : Char} (h : c.isAlphanum = true) : (intrinsic (String.ofList [c])).IsPlain :=
    .intrinsic ⟨by simp, by simpa using h⟩
  have checked : checkedConditional.IsPlain :=
    .conditional (.conditional (word (by decide)) (word (by decide)) (word (by decide))
      (word (by decide))) (word (by decide)) (word (by decide)) (word (by decide))
  have chained : chainedConditional.IsPlain :=
    .conditional (word (by decide)) (word (by decide)) (word (by decide))
      (.conditional (word (by decide)) (word (by decide)) (word (by decide)) (word (by decide)))
  exact ⟨checked, chained, fun same => nomatch (render_eq_iff checked chained).1 same⟩

end TypeExpr

end ApiGraph
