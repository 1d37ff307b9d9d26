import Mathlib.Data.List.Perm.Subperm
import ApiGraph.Proofs.Fields

/-!
# ApiGraph.Proofs.TreeNumbers

The numbers of a JSON tree. A tree is its numbers in a shape, and putting something flat in the place of
each number leaves the shape as it is: the depth, the keys, and what else has a value.

* `Json.tree_induction` — the induction over trees.
* `Json.numbers`, `Json.mapNumbers` — the numbers, and what stands in their place.
* `Json.depth_mapNumbers`, `Json.keysOnce_mapNumbers`, `Json.mapNumbers_congr` — what stays.
* `Json.lastWins_of_keysOnce` — where keys are given once, all members stay.
* `Json.exists_same_of_same` — equal trees have equal numbers.
-/

namespace ApiGraph.Json

/-! ### Induction -/

section

-- The recursion passes the assumptions on, which the linter does not see.
set_option linter.unusedSectionVars false

variable {P : Json → Prop} (null : P .null) (bool : ∀ b, P (.bool b)) (number : ∀ n, P (.number n))
  (string : ∀ s, P (.string s)) (array : ∀ items, (∀ j ∈ items, P j) → P (.array items))
  (object : ∀ members : List (String × Json), (∀ m ∈ members, P m.2) → P (.object members))
  (valueless : P .valueless)
include null bool number string array object valueless

mutual
/-- What passes from the items and from the members' values to an array and an object holds of every
tree. -/
@[elab_as_elim]
theorem tree_induction : ∀ j : Json, P j
  | .null => null
  | .bool b => bool b
  | .number n => number n
  | .string s => string s
  | .array items => array items (tree_induction_items items)
  | .object members => object members (tree_induction_members members)
  | .valueless => valueless

theorem tree_induction_items : ∀ items : List Json, ∀ j ∈ items, P j
  | [] => nofun
  | item :: rest => List.forall_mem_cons.2 ⟨tree_induction item, tree_induction_items rest⟩

theorem tree_induction_members : ∀ members : List (String × Json), ∀ m ∈ members, P m.2
  | [] => nofun
  | (_, value) :: rest => List.forall_mem_cons.2 ⟨tree_induction value, tree_induction_members rest⟩
end

end

/-! ### Numbers -/

mutual
/-- The numbers in a tree, in the order of its text. -/
def numbers : Json → List Numeral
  | .number n => [n]
  | .array items => numbersOfItems items
  | .object members => numbersOfMembers members
  | _ => []

/-- The numbers in the items. -/
def numbersOfItems : List Json → List Numeral
  | [] => []
  | item :: rest => numbers item ++ numbersOfItems rest

/-- The numbers in the members' values. -/
def numbersOfMembers : List (String × Json) → List Numeral
  | [] => []
  | (_, value) :: rest => numbers value ++ numbersOfMembers rest
end

mutual
/-- The tree with something else in the place of each number. -/
def mapNumbers (f : Numeral → Json) : Json → Json
  | .number n => f n
  | .array items => .array (mapNumbersOfItems f items)
  | .object members => .object (mapNumbersOfMembers f members)
  | json => json

/-- The items with something else in the place of each number. -/
def mapNumbersOfItems (f : Numeral → Json) : List Json → List Json
  | [] => []
  | item :: rest => mapNumbers f item :: mapNumbersOfItems f rest

/-- The members with something else in the place of each number. -/
def mapNumbersOfMembers (f : Numeral → Json) : List (String × Json) → List (String × Json)
  | [] => []
  | (key, value) :: rest => (key, mapNumbers f value) :: mapNumbersOfMembers f rest
end

theorem numbers_array (items : List Json) : (array items).numbers = items.flatMap numbers := by
  rw [numbers]
  induction items with
  | nil => rfl
  | cons j items ih => rw [numbersOfItems, ih, List.flatMap_cons]

theorem numbers_object (members : List (String × Json)) :
    (object members).numbers = members.flatMap fun m => m.2.numbers := by
  rw [numbers]
  induction members with
  | nil => rfl
  | cons m members ih => rw [numbersOfMembers, ih, List.flatMap_cons]

variable {f g : Numeral → Json}

theorem mapNumbers_array (items : List Json) :
    (array items).mapNumbers f = .array (items.map (mapNumbers f)) := by
  rw [mapNumbers]
  congr 1
  induction items with
  | nil => rfl
  | cons j items ih => rw [mapNumbersOfItems, ih, List.map_cons]

theorem mapNumbers_object (members : List (String × Json)) :
    (object members).mapNumbers f = .object (members.map fun m => (m.1, m.2.mapNumbers f)) := by
  rw [mapNumbers]
  congr 1
  induction members with
  | nil => rfl
  | cons m members ih => rw [mapNumbersOfMembers, ih, List.map_cons]

/-- The numbers of a proper tree are representable. -/
theorem isRepresentable_of_mem_numbers {j : Json} (h : j.IsProper) :
    ∀ n ∈ j.numbers, n.IsRepresentable := by
  induction j using tree_induction with
  | number n => exact List.forall_mem_singleton.2 h
  | array items ih =>
      rw [numbers_array]
      intro n mem
      obtain ⟨j, inside, mem⟩ := List.mem_flatMap.1 mem
      exact ih j inside (properItems_iff.1 h j inside) n mem
  | object members ih =>
      rw [numbers_object]
      intro n mem
      obtain ⟨m, inside, mem⟩ := List.mem_flatMap.1 mem
      exact ih m inside (properMembers_iff.1 h.2 m inside) n mem
  | null | bool _ | string _ | valueless => exact nofun

/-! ### The same shape -/

/-- Only what stands for the numbers of the tree counts. -/
theorem mapNumbers_congr {j : Json} (same : ∀ n ∈ j.numbers, f n = g n) :
    j.mapNumbers f = j.mapNumbers g := by
  induction j using tree_induction with
  | number n => exact same n List.mem_cons_self
  | array items ih =>
      rw [numbers_array] at same
      rw [mapNumbers_array, mapNumbers_array]
      refine congrArg array (List.map_congr_left fun j mem => ih j mem fun n inside => ?_)
      exact same n (List.mem_flatMap_of_mem mem inside)
  | object members ih =>
      rw [numbers_object] at same
      rw [mapNumbers_object, mapNumbers_object]
      refine congrArg object (List.map_congr_left fun m mem => ?_)
      rw [ih m mem fun n inside => same n (List.mem_flatMap_of_mem mem inside)]
  | null | bool _ | string _ | valueless => rfl

theorem numbers_mapNumbers (j : Json) :
    (j.mapNumbers f).numbers = j.numbers.flatMap fun n => (f n).numbers := by
  induction j using tree_induction with
  | number n => simp [mapNumbers, numbers]
  | array items ih =>
      rw [mapNumbers_array, numbers_array, numbers_array, List.flatMap_map, List.flatMap_assoc]
      exact List.flatMap_congr ih
  | object members ih =>
      rw [mapNumbers_object, numbers_object, numbers_object, List.flatMap_map, List.flatMap_assoc]
      exact List.flatMap_congr ih
  | null | bool _ | string _ | valueless => rfl

theorem depthItems_map {h : Json → Json} {items : List Json}
    (each : ∀ j ∈ items, (h j).depth = j.depth) : depthItems (items.map h) = depthItems items := by
  induction items with
  | nil => rfl
  | cons j items ih =>
      rw [List.forall_mem_cons] at each
      rw [List.map_cons, depthItems, depthItems, each.1, ih each.2]

theorem depthMembers_map {h : Json → Json} {members : List (String × Json)}
    (each : ∀ m ∈ members, (h m.2).depth = m.2.depth) :
    depthMembers (members.map fun m => (m.1, h m.2)) = depthMembers members := by
  induction members with
  | nil => rfl
  | cons m members ih =>
      rw [List.forall_mem_cons] at each
      rw [List.map_cons, depthMembers, depthMembers, each.1, ih each.2]

/-- Something flat in the place of each number leaves the depth. -/
theorem depth_mapNumbers (flat : ∀ n, (f n).depth = 0) (j : Json) :
    (j.mapNumbers f).depth = j.depth := by
  induction j using tree_induction with
  | number n => exact flat n
  | array items ih => rw [mapNumbers_array, depth, depth, depthItems_map ih]
  | object members ih => rw [mapNumbers_object, depth, depth, depthMembers_map ih]
  | null | bool _ | string _ | valueless => rfl

/-- A tree has a value only if what stands for its numbers has one. -/
theorem hasValue_of_mapNumbers {j : Json} (h : (j.mapNumbers f).hasValue = true) :
    ∀ n ∈ j.numbers, (f n).hasValue = true := by
  induction j using tree_induction with
  | number n => exact List.forall_mem_singleton.2 h
  | array items ih =>
      rw [mapNumbers_array, hasValue, hasValueItems_iff, List.forall_mem_map] at h
      intro n mem
      rw [numbers_array] at mem
      obtain ⟨j, inside, mem⟩ := List.mem_flatMap.1 mem
      exact ih j inside (h j inside) n mem
  | object members ih =>
      rw [mapNumbers_object, hasValue, hasValueMembers_iff, List.forall_mem_map] at h
      intro n mem
      rw [numbers_object] at mem
      obtain ⟨m, inside, mem⟩ := List.mem_flatMap.1 mem
      exact ih m inside (h m inside) n mem
  | null | bool _ | string _ | valueless => exact nofun

/-! ### Keys -/

mutual
/-- Objects give each key once. -/
def KeysOnce : Json → Prop
  | .array items => KeysOnceInItems items
  | .object members => (members.map (·.1)).Nodup ∧ KeysOnceInMembers members
  | _ => True

/-- The objects in the items give each key once. -/
def KeysOnceInItems : List Json → Prop
  | [] => True
  | item :: rest => KeysOnce item ∧ KeysOnceInItems rest

/-- The objects in the members' values give each key once. -/
def KeysOnceInMembers : List (String × Json) → Prop
  | [] => True
  | (_, value) :: rest => KeysOnce value ∧ KeysOnceInMembers rest
end

theorem keysOnce_array {items : List Json} : (array items).KeysOnce ↔ ∀ j ∈ items, j.KeysOnce := by
  rw [KeysOnce]
  induction items with
  | nil => simp [KeysOnceInItems]
  | cons j items ih => rw [KeysOnceInItems, ih, List.forall_mem_cons]

theorem keysOnce_object {members : List (String × Json)} : (object members).KeysOnce ↔
    (members.map (·.1)).Nodup ∧ ∀ m ∈ members, m.2.KeysOnce := by
  rw [KeysOnce]
  refine and_congr_right' ?_
  induction members with
  | nil => simp [KeysOnceInMembers]
  | cons m members ih => rw [KeysOnceInMembers, ih, List.forall_mem_cons]

theorem keysOnce_of_isProper {j : Json} (h : j.IsProper) : j.KeysOnce := by
  induction j using tree_induction with
  | array items ih => exact keysOnce_array.2 fun j mem => ih j mem (properItems_iff.1 h j mem)
  | object members ih =>
      obtain ⟨distinct, proper⟩ := h
      exact keysOnce_object.2 ⟨distinct, fun m mem => ih m mem (properMembers_iff.1 proper m mem)⟩
  | null | bool _ | number _ | string _ | valueless => trivial

/-- Something flat in the place of each number leaves the keys. -/
theorem keysOnce_mapNumbers (flat : ∀ n, (f n).KeysOnce) {j : Json} (h : j.KeysOnce) :
    (j.mapNumbers f).KeysOnce := by
  induction j using tree_induction with
  | number n => exact flat n
  | array items ih =>
      rw [mapNumbers_array, keysOnce_array, List.forall_mem_map]
      exact fun j mem => ih j mem (keysOnce_array.1 h j mem)
  | object members ih =>
      obtain ⟨distinct, once⟩ := keysOnce_object.1 h
      rw [mapNumbers_object, keysOnce_object, List.forall_mem_map, List.map_map]
      exact ⟨distinct, fun m mem => ih m mem (once m mem)⟩
  | null | bool _ | string _ | valueless => trivial

/-- Where keys are given once, all members stay. -/
theorem keepLast_of_nodup {members : List (String × Json)} (distinct : (members.map (·.1)).Nodup) :
    keepLast members = members := by
  induction members with
  | nil => rfl
  | cons m members ih =>
      obtain ⟨new, later⟩ := List.nodup_cons.1 distinct
      have single : ¬members.any (·.1 == m.1) = true := by
        intro again
        obtain ⟨n, mem, same⟩ := List.any_eq_true.1 again
        exact new (List.mem_map.2 ⟨n, mem, beq_iff_eq.1 same⟩)
      rw [keepLast, if_neg single, ih later]

/-- A tree that repeats no key is kept as it is. -/
theorem lastWins_of_keysOnce {j : Json} (h : j.KeysOnce) : j.lastWins = j := by
  induction j using tree_induction with
  | array items ih =>
      have each := keysOnce_array.1 h
      rw [lastWins]
      congr 1
      clear h
      induction items with
      | nil => rfl
      | cons j items ih' =>
          rw [List.forall_mem_cons] at ih each
          rw [lastWinsItems, ih.1 each.1, ih' ih.2 each.2]
  | object members ih =>
      obtain ⟨distinct, each⟩ := keysOnce_object.1 h
      have kept : lastWinsMembers members = members := by
        clear h distinct
        induction members with
        | nil => rfl
        | cons m members ih' =>
            rw [List.forall_mem_cons] at ih each
            rw [lastWinsMembers, ih.1 each.1, ih' ih.2 each.2]
      rw [lastWins, kept, keepLast_of_nodup distinct]
  | null | bool _ | number _ | string _ | valueless => rfl

/-! ### Equal trees -/

theorem exists_of_sameItems {as bs : List Json} (h : sameItems as bs = true) :
    ∀ b ∈ bs, ∃ a ∈ as, a.same b = true := by
  induction as generalizing bs with
  | nil =>
      cases bs with
      | nil => exact nofun
      | cons b bs => cases h
  | cons a as ih =>
      cases bs with
      | nil => cases h
      | cons b bs =>
          obtain ⟨first, rest⟩ := Bool.and_eq_true_iff.1 h
          refine List.forall_mem_cons.2 ⟨⟨a, List.mem_cons_self, first⟩, fun x mem => ?_⟩
          obtain ⟨y, inside, same⟩ := ih rest x mem
          exact ⟨y, List.mem_cons_of_mem _ inside, same⟩

theorem exists_of_sameMembers {as bs : List (String × Json)} (h : sameMembers as bs = true) :
    ∀ a ∈ as, ∃ b, member? a.1 bs = some b ∧ a.2.same b = true := by
  induction as with
  | nil => exact nofun
  | cons a as ih =>
      obtain ⟨first, rest⟩ := Bool.and_eq_true_iff.1 h
      refine List.forall_mem_cons.2 ⟨?_, ih rest⟩
      cases found : member? a.1 bs with
      | none => simp [found] at first
      | some b => exact ⟨b, rfl, by simpa [found] using first⟩

theorem mem_keys_of_member? {key : String} {members : List (String × Json)} {j : Json}
    (h : member? key members = some j) : key ∈ members.map (·.1) := by
  obtain ⟨m, found, -⟩ := Option.map_eq_some_iff.1 h
  have same : m.1 = key := by simpa using List.find?_some found
  exact List.mem_map.2 ⟨m, List.mem_reverse.1 (List.mem_of_find?_eq_some found), same⟩

/-- Of objects that give each key once, members are equal by their keys, both ways. -/
theorem exists_of_same_object {as bs : List (String × Json)} (distinct : (as.map (·.1)).Nodup)
    (distinct' : (bs.map (·.1)).Nodup) (h : (object as).same (object bs) = true) :
    ∀ b ∈ bs, ∃ a ∈ as, a.2.same b.2 = true := by
  obtain ⟨length, same⟩ := Bool.and_eq_true_iff.1 h
  have each := exists_of_sameMembers same
  have subset : as.map (·.1) ⊆ bs.map (·.1) := by
    refine List.forall_mem_map.2 fun a mem => ?_
    obtain ⟨j, found, -⟩ := each a mem
    exact mem_keys_of_member? found
  -- as many distinct keys on both sides, so those on the right are the ones on the left
  have size : bs.length ≤ as.length := Nat.le_of_eq (beq_iff_eq.1 length).symm
  have perm := (distinct.subperm subset).perm_of_length_le (by simpa using size)
  intro b mem
  obtain ⟨a, inside, key⟩ := List.mem_map.1 (perm.mem_iff.2 (List.mem_map_of_mem mem))
  obtain ⟨j, found, same⟩ := each a inside
  rw [key, member?_eq_some distinct' mem] at found
  exact ⟨a, inside, Option.some.inj found ▸ same⟩

/-- Equal trees that repeat no key have equal numbers. -/
theorem exists_same_of_same {a b : Json} (once : a.KeysOnce) (once' : b.KeysOnce)
    (h : a.same b = true) : ∀ n ∈ b.numbers, ∃ m ∈ a.numbers, m.same n = true := by
  induction a using tree_induction generalizing b with
  | number m =>
      cases b with
      | number n => exact List.forall_mem_singleton.2 ⟨m, List.mem_cons_self, h⟩
      | _ => cases h
  | array as ih =>
      cases b with
      | array bs =>
          rw [numbers_array, numbers_array]
          intro n mem
          obtain ⟨b, inside, mem⟩ := List.mem_flatMap.1 mem
          obtain ⟨a, inside', same⟩ := exists_of_sameItems h b inside
          obtain ⟨m, there, equal⟩ := ih a inside' (keysOnce_array.1 once a inside')
            (keysOnce_array.1 once' b inside) same n mem
          exact ⟨m, List.mem_flatMap_of_mem inside' there, equal⟩
      | _ => cases h
  | object as ih =>
      cases b with
      | object bs =>
          obtain ⟨distinct, each⟩ := keysOnce_object.1 once
          obtain ⟨distinct', each'⟩ := keysOnce_object.1 once'
          rw [numbers_object, numbers_object]
          intro n mem
          obtain ⟨b, inside, mem⟩ := List.mem_flatMap.1 mem
          obtain ⟨a, inside', same⟩ := exists_of_same_object distinct distinct' h b inside
          obtain ⟨m, there, equal⟩ := ih a inside' (each a inside') (each' b inside) same n mem
          exact ⟨m, List.mem_flatMap_of_mem inside' there, equal⟩
      | _ => cases h
  | null | bool _ | string _ | valueless =>
      cases b with
      | number n => cases h
      | array bs => cases h
      | object bs => cases h
      | _ => exact nofun

end ApiGraph.Json
