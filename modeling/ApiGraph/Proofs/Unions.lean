import Mathlib.Logic.Function.Iterate
import ApiGraph.Proofs.Ownership

/-!
# ApiGraph.Proofs.Unions

What merging `true` and `false` does to the members of a union: where both are, the first of each
gives way to one `boolean`, in the place of the one that came first.

* `mergeBools_eq_self` — without one of the two nothing changes.
* `mergeBools_cases` — the members before and after.
* `anonymousList_mergeBools` — the declarations in the members stay.
* `mem_iterate_mergeBools_iff` — how long there is something to merge: each round takes one of each.
* `unionOf_normal_iff` — when one round is enough.
-/

namespace ApiGraph.TypeExpr

/-- The literal type of a boolean value. -/
abbrev bool (value : Bool) : TypeExpr := .literal (.bool value)

theorem isBool_eq_true_iff {value : Bool} {t : TypeExpr} :
    isBool value t = true ↔ t = bool value := by
  cases t <;> simp [isBool]

private theorem exists_split {ts : List TypeExpr} {i : Nat} {t : TypeExpr} (h : ts[i]? = some t) :
    ∃ before after, ts = before ++ t :: after ∧ before.length = i := by
  obtain ⟨inside, rfl⟩ := List.getElem?_eq_some_iff.1 h
  refine ⟨ts.take i, ts.drop (i + 1), ?_, List.length_take_of_le (Nat.le_of_lt inside)⟩
  rw [List.getElem_cons_drop, List.take_append_drop]

private theorem set_eraseIdx {ts : List TypeExpr} {i j : Nat} {x y : TypeExpr} (lt : i < j)
    (hx : ts[i]? = some x) (hy : ts[j]? = some y) (new : TypeExpr) :
    ∃ a b c, ts = a ++ x :: (b ++ y :: c) ∧ (ts.eraseIdx j).set i new = a ++ new :: (b ++ c) := by
  obtain ⟨a, rest, rfl, rfl⟩ := exists_split hx
  -- the second index, counted from behind the first
  obtain ⟨k, rfl⟩ : ∃ k, j = a.length + (k + 1) := ⟨j - a.length - 1, by omega⟩
  rw [List.getElem?_append_right (by omega), Nat.add_sub_cancel_left, List.getElem?_cons_succ] at hy
  obtain ⟨b, c, rfl, rfl⟩ := exists_split hy
  refine ⟨a, b, c, rfl, ?_⟩
  rw [List.eraseIdx_append_of_length_le (by omega), Nat.add_sub_cancel_left, List.eraseIdx_cons_succ,
    List.eraseIdx_append_of_length_le (by omega), Nat.sub_self, List.eraseIdx_cons_zero,
    List.set_append_right _ _ (by omega), Nat.sub_self, List.set_cons_zero]

private theorem getElem?_of_findIdx? {ts : List TypeExpr} {i : Nat} {value : Bool}
    (h : ts.findIdx? (isBool value) = some i) : ts[i]? = some (bool value) := by
  obtain ⟨inside, here, -⟩ := List.findIdx?_eq_some_iff_getElem.1 h
  rw [List.getElem?_eq_getElem inside, isBool_eq_true_iff.1 here]

/-- Without `true` or without `false` nothing changes. -/
theorem mergeBools_eq_self {members : List TypeExpr} (value : Bool) (h : bool value ∉ members) :
    mergeBools members = members := by
  have none : members.findIdx? (isBool value) = none := by
    refine List.findIdx?_eq_none_iff.2 fun t mem => ?_
    refine Bool.eq_false_iff.2 fun same => h ?_
    rwa [← isBool_eq_true_iff.1 same]
  cases value <;> simp [mergeBools, none]

/-- Either one of `true` and `false` is missing, or `boolean` stands for one of each. -/
theorem mergeBools_cases (members : List TypeExpr) :
    (∃ value, bool value ∉ members) ∨
      ∃ value a b c, members = a ++ bool value :: (b ++ bool (!value) :: c) ∧
        mergeBools members = a ++ .intrinsic "boolean" :: (b ++ c) := by
  by_cases missing : ∃ value, bool value ∉ members
  · exact .inl missing
  · refine .inr ?_
    have both (value : Bool) : ∃ i, members.findIdx? (isBool value) = some i := by
      have mem : bool value ∈ members := Classical.not_not.1 fun h => missing ⟨value, h⟩
      rw [← Option.isSome_iff_exists, List.findIdx?_isSome]
      exact List.any_eq_true.2 ⟨_, mem, isBool_eq_true_iff.2 rfl⟩
    obtain ⟨i, first⟩ := both true
    obtain ⟨j, second⟩ := both false
    have here := getElem?_of_findIdx? first
    have there := getElem?_of_findIdx? second
    unfold mergeBools
    rw [first, second]
    dsimp only
    -- whichever comes first gives its place to the `boolean`
    rcases Nat.lt_trichotomy i j with lt | rfl | lt
    · rw [Nat.max_eq_right (Nat.le_of_lt lt), Nat.min_eq_left (Nat.le_of_lt lt)]
      exact ⟨true, set_eraseIdx lt here there _⟩
    · rw [here] at there
      cases there
    · rw [Nat.max_eq_left (Nat.le_of_lt lt), Nat.min_eq_right (Nat.le_of_lt lt)]
      exact ⟨false, set_eraseIdx lt there here _⟩

/-- What is merged was a member before, or it is the `boolean`, which stands for one. -/
theorem mem_of_mem_mergeBools {members : List TypeExpr} {t : TypeExpr} (h : t ∈ mergeBools members) :
    t ∈ members ∨ t = .intrinsic "boolean" ∧ ∃ value, bool value ∈ members := by
  rcases mergeBools_cases members with ⟨value, missing⟩ | ⟨value, a, b, c, before, after⟩
  · exact .inl (mergeBools_eq_self value missing ▸ h)
  · rw [after, List.mem_append, List.mem_cons, List.mem_append] at h
    rw [before]
    rcases h with first | rfl | between | last
    · exact .inl (by simp [first])
    · exact .inr ⟨rfl, value, by simp⟩
    · exact .inl (by simp [between])
    · exact .inl (by simp [last])

theorem anonymousList_append (as bs : List TypeExpr) :
    anonymousList (as ++ bs) = anonymousList as ++ anonymousList bs := by
  simp only [anonymousList_eq_flatMap, List.flatMap_append]

/-- Merging leaves the declarations in the members. -/
theorem anonymousList_mergeBools (members : List TypeExpr) :
    anonymousList (mergeBools members) = anonymousList members := by
  rcases mergeBools_cases members with ⟨value, missing⟩ | ⟨value, a, b, c, before, after⟩
  · rw [mergeBools_eq_self value missing]
  · rw [after, before]
    simp only [anonymousList_append, anonymousList, anonymous, List.nil_append]

/-! ### Rounds -/

/-- A union with both `true` and `false` loses one of each. -/
theorem countP_mergeBools {members : List TypeExpr} (both : ∀ value, bool value ∈ members)
    (v : Bool) : members.countP (isBool v) = (mergeBools members).countP (isBool v) + 1 := by
  rcases mergeBools_cases members with ⟨value, missing⟩ | ⟨value, a, b, c, before, after⟩
  · exact absurd (both value) missing
  · have first : isBool v (bool value) = (v == value) := by cases v <;> cases value <;> rfl
    have second : isBool v (bool !value) = (v != value) := by cases v <;> cases value <;> rfl
    have merged : isBool v (.intrinsic "boolean") = false := rfl
    rw [after, before]
    simp only [List.countP_append, List.countP_cons, first, second, merged]
    cases v <;> cases value <;> simp <;> omega

/-- A round changes nothing exactly if one of `true` and `false` is missing. -/
theorem mergeBools_eq_self_iff {members : List TypeExpr} :
    mergeBools members = members ↔ ∃ value, bool value ∉ members := by
  constructor
  · intro same
    by_contra none
    have both : ∀ value, bool value ∈ members :=
      fun value => Classical.not_not.1 fun missing => none ⟨value, missing⟩
    have fewer := countP_mergeBools both true
    rw [same] at fewer
    omega
  · rintro ⟨value, missing⟩
    exact mergeBools_eq_self value missing

theorem bool_mem_iff {value : Bool} {members : List TypeExpr} :
    bool value ∈ members ↔ 0 < members.countP (isBool value) := by
  simp [List.countP_pos_iff, isBool_eq_true_iff]

/-- **Each round takes one of each**, so both are still there after as many rounds exactly if there
were more of each than that. -/
theorem mem_iterate_mergeBools_iff {rounds : Nat} {members : List TypeExpr} :
    (∀ value, bool value ∈ mergeBools^[rounds] members) ↔
      ∀ value, rounds < members.countP (isBool value) := by
  induction rounds generalizing members with
  | zero => exact forall_congr' fun value => bool_mem_iff
  | succ rounds ih =>
      rw [Function.iterate_succ_apply, ih]
      by_cases both : ∀ value, bool value ∈ members
      · refine forall_congr' fun value => ?_
        rw [countP_mergeBools both value]
        exact Nat.succ_lt_succ_iff.symm
      · -- nothing is merged, and one of the two counts is zero
        obtain ⟨value, missing⟩ := not_forall.1 both
        rw [mergeBools_eq_self value missing]
        have zero : members.countP (isBool value) = 0 :=
          Nat.eq_zero_of_not_pos fun some => missing (bool_mem_iff.2 some)
        exact iff_of_false (fun many => by have := many value; omega)
          (fun many => by have := many value; omega)

/-- The members of a union. -/
def members : TypeExpr → List TypeExpr
  | .union members => members
  | _ => []

/-- **When a union is in normal form.** Built from two or more `true` and two or more `false` a union
still has both, and another round changes it; built from anything else it has no longer both, and it
stays. In general as many rounds are needed as there are pairs. -/
theorem unionOf_normal_iff (ts : List TypeExpr) :
    ((∀ value, bool value ∈ (unionOf ts).members) ↔ ∀ value, 2 ≤ ts.countP (isBool value)) ∧
      (unionOf (unionOf ts).members = unionOf ts ↔ ∃ value, ts.countP (isBool value) < 2) ∧
      ∀ rounds, mergeBools^[rounds + 1] ts = mergeBools^[rounds] ts ↔
        ∃ value, ts.countP (isBool value) ≤ rounds := by
  have settled (rounds : Nat) : mergeBools^[rounds + 1] ts = mergeBools^[rounds] ts ↔
      ∃ value, ts.countP (isBool value) ≤ rounds := by
    rw [Function.iterate_succ_apply', mergeBools_eq_self_iff, ← not_forall,
      mem_iterate_mergeBools_iff]
    simp only [not_forall, Nat.not_lt]
  refine ⟨@mem_iterate_mergeBools_iff 1 ts, ?_, settled⟩
  have again := settled 1
  simp only [← Nat.lt_succ_iff] at again
  rw [← again]
  exact ⟨fun same => TypeExpr.union.inj same, fun same => congrArg TypeExpr.union same⟩

/-- A union of two `true` and two `false` still has one of each, and changes once more. -/
theorem not_normal_twoPairs :
    (∀ value, bool value ∈ (unionOf [bool true, bool true, bool false, bool false]).members) ∧
      unionOf (unionOf [bool true, bool true, bool false, bool false]).members ≠
        unionOf [bool true, bool true, bool false, bool false] := by
  have once : unionOf [bool true, bool true, bool false, bool false] =
      .union [.intrinsic "boolean", bool true, bool false] := rfl
  have twice : unionOf [.intrinsic "boolean", bool true, bool false] =
      .union [.intrinsic "boolean", .intrinsic "boolean"] := rfl
  rw [once]
  refine ⟨?_, ?_⟩
  · rintro (_ | _) <;> simp [members]
  · intro same
    nomatch twice.symm.trans same

end ApiGraph.TypeExpr
