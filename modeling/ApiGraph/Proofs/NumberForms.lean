import ApiGraph.Proofs.Renumbering
import ApiGraph.Proofs.Spelling

/-!
# ApiGraph.Proofs.NumberForms

The form of a number in a document, integer or double. A project holds doubles only, and writes one as
an integer where a double is sure to hold it; so of the numbers in a JSON tree some **keep their form**
when the project that is read from the tree is written, and others do not. What a project writes keeps
its form in the tree. In a text it may lose it: a double can be read as a neighbour, and that may be an
integer.

* `Numeral.KeepsForm` — integers, and doubles that are no small integers.
* `Project.IsOrder.keepsForm_toJson` — the numbers that a project writes keep their form.
* `Numeral.Survives`, `Json.survives_of_isWhole` — what the text of a number is read as keeps its form.
* `exists_mirrors` — what a text with such numbers is read as is the tree of a renumbered project.
-/

namespace ApiGraph

open Wire

namespace Numeral

/-- A number that is written in the form in which it was read: an integer, or a finite double that is not an
integer of less than 54 bits. -/
def KeepsForm : Numeral → Prop
  | .integer _ => True
  | .double x => x.isFinite = true ∧ ∀ n, x.toInt? = some n → maxSafeInteger < n.natAbs

/-- A number whose text is read as a number that keeps its form. -/
def Survives (n : Numeral) : Prop :=
  ∃ m, n.reread? = some m ∧ m.KeepsForm

theorem keepsForm_double_iff {x : Binary64} :
    (double x).KeepsForm ↔ x.toWire = .number (.double x) := by
  unfold KeepsForm
  rcases x.toWire_cases with ⟨infinite, written⟩ | ⟨finite, written⟩ | ⟨n, whole, small, written⟩
  · simp [infinite, written]
  · simp only [finite, written, true_and, iff_true]
    intro n whole
    -- a small integer would be written as one
    by_contra small
    rw [Binary64.toWire, finite, whole] at written
    simp [Nat.le_of_not_lt small] at written
  · have apart : WireLiteral.number (.integer n) ≠ .number (.double x) := nofun
    rw [written, iff_false_right apart]
    intro ⟨_, large⟩
    exact absurd (large n whole) (Nat.not_lt.2 (Nat.le_sub_one_of_lt small))

theorem KeepsForm.isFinite {n : Numeral} (h : n.KeepsForm) : n.isFinite = true := by
  cases n with
  | integer n => rfl
  | double x => exact h.1

/-- Equal numbers keep their form together. -/
theorem KeepsForm.of_same {m n : Numeral} (h : m.KeepsForm) (same : m.same n = true) : n.KeepsForm := by
  cases n with
  | integer n => trivial
  | double y =>
      cases m with
      | integer m => cases same
      | double x =>
          obtain ⟨-, equal⟩ := Bool.and_eq_true_iff.1 same
          rcases Bool.or_eq_true_iff.1 equal with bits | zeros
          · obtain rfl : x = y := by
              cases x
              cases y
              exact congrArg _ (beq_iff_eq.1 bits)
            exact h
          · -- a zero is an integer, so it does not keep its form
            obtain ⟨zero, -⟩ := Bool.and_eq_true_iff.1 zeros
            have whole := (Binary64.toInt?_of_isZero (beq_iff_eq.1 zero)).2
            exact absurd (h.2 0 whole) (by decide)

/-- An integer of at most 64 bits survives. -/
theorem survives_integer {n : Int} (inRange : (integer n).IsRepresentable) : (integer n).Survives :=
  ⟨.integer n, reread?_integer inRange, trivial⟩

end Numeral

open Numeral

namespace Json

mutual
/-- The numbers of a whole tree survive. -/
theorem survives_of_isWhole : ∀ j : Json, j.isWhole = true → ∀ n ∈ j.numbers, n.Survives
  | .null, _ | .bool _, _ | .string _, _ => nofun
  | .number (.integer _), h =>
      List.forall_mem_singleton.2 (survives_integer (of_decide_eq_true (p := _ ∧ _) h))
  | .array items, h => survives_of_wholeItems items h
  | .object members, h => survives_of_wholeMembers members h

theorem survives_of_wholeItems : ∀ items : List Json, wholeItems items = true →
    ∀ n ∈ numbersOfItems items, n.Survives
  | [], _ => nofun
  | item :: rest, h => by
      obtain ⟨here, later⟩ := Bool.and_eq_true_iff.1 h
      exact List.forall_mem_append.2 ⟨survives_of_isWhole item here, survives_of_wholeItems rest later⟩

theorem survives_of_wholeMembers : ∀ members : List (String × Json), wholeMembers members = true →
    ∀ n ∈ numbersOfMembers members, n.Survives
  | [], _ => nofun
  | (_, value) :: rest, h => by
      obtain ⟨here, later⟩ := Bool.and_eq_true_iff.1 h
      exact List.forall_mem_append.2 ⟨survives_of_isWhole value here, survives_of_wholeMembers rest later⟩
end

end Json

/-! ### What is written -/

/-- **The numbers that a project writes keep their form.** -/
theorem Project.IsOrder.keepsForm_toJson {p : Project} {l : List Position} (h : p.IsOrder l)
    (config : Config) : ∀ n ∈ (p.rootDocument config).toJson.numbers, n.KeepsForm := by
  classical
  -- the tree stays if every number is taken out of it that does not keep its form, so there is none
  let f (n : Numeral) : Json := if n.KeepsForm then .number n else .null
  have mirrors : Mirrors id f :=
    { integer := fun n => if_pos trivial
      double := fun x => by
        show literalJson x.toWire = _
        rcases x.toWire_cases with ⟨-, written⟩ | ⟨-, written⟩ | ⟨n, -, -, written⟩
        · rw [written]
          rfl
        · rw [written]
          exact (if_pos (keepsForm_double_iff.2 written)).symm
        · rw [written]
          exact (if_pos trivial).symm }
  have same := h.toJson_renumber mirrors config
  rw [p.renumber_id] at same
  intro n mem
  rw [same, Json.numbers_mapNumbers] at mem
  obtain ⟨m, -, mem⟩ := List.mem_flatMap.1 mem
  by_cases keeps : m.KeepsForm
  · simp only [f, if_pos keeps, Json.numbers, List.mem_singleton] at mem
    exact mem ▸ keeps
  · simp only [f, if_neg keeps, Json.numbers, List.not_mem_nil] at mem

/-! ### What is read again -/

/-- Where all numbers survive, the tree that the text is read as mirrors other doubles. -/
theorem exists_mirrors {j : Json} (proper : j.IsProper) (keeps : ∀ n ∈ j.numbers, n.KeepsForm)
    (survives : ∀ n ∈ j.numbers, n.Survives) :
    ∃ g f, Mirrors g f ∧ j.mapNumbers f = j.mapNumbers reread := by
  -- a double of the tree goes to the one that it is read as, any other double to itself
  have each (x : Binary64) : ∃ y, ((double x).KeepsForm → (double y).KeepsForm) ∧
      (¬(double x).KeepsForm → y = x) ∧
      (double x ∈ j.numbers → reread (.double x) = .number (.double y)) := by
    by_cases mem : double x ∈ j.numbers
    · obtain ⟨m, read, kept⟩ := survives _ mem
      have finite : x.isFinite = true := Json.isRepresentable_of_mem_numbers proper _ mem
      obtain ⟨y, rfl⟩ := exists_of_reread?_double finite read
      refine ⟨y, fun _ => kept, fun lost => absurd (keeps _ mem) lost, fun _ => ?_⟩
      rw [reread, if_pos (show (double x).isFinite = true from finite), read]
      rfl
    · exact ⟨x, fun kept => kept, fun _ => rfl, fun inside => absurd inside mem⟩
  choose g kept lost read using each
  let f : Numeral → Json
    | .integer n => .number (.integer n)
    | .double x => .number (.double (g x))
  refine ⟨g, f, ⟨fun _ => rfl, fun x => ?_⟩, Json.mapNumbers_congr fun n mem => ?_⟩
  · by_cases keeps : (double x).KeepsForm
    · rw [keepsForm_double_iff.1 keeps, keepsForm_double_iff.1 (kept x keeps)]
      rfl
    · rw [lost x keeps]
      rcases x.toWire_cases with ⟨-, written⟩ | ⟨-, written⟩ | ⟨n, -, -, written⟩
      · rw [written]
        rfl
      · exact absurd (keepsForm_double_iff.2 written) keeps
      · rw [written]
        rfl
  · cases n with
    | integer n =>
        exact (Json.reread_integer (Json.isRepresentable_of_mem_numbers proper _ mem)).symm
    | double x => exact (read x mem).symm

end ApiGraph
