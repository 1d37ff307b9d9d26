import Mathlib.Data.List.Nodup
import ApiGraph.Wire.Layout
import ApiGraph.Wire.Reader

/-!
# ApiGraph.Proofs.Fields

Records as they are written. The members of a written record are its fields that are present, each
under its own name, so a reader finds every field again. A JSON tree is **proper** if it is a value,
its numbers have sizes that JSON documents hold, and no object in it gives a key twice; such a tree equals
itself.

* `Numeral.IsRepresentable`, `Json.IsProper`, `Json.same_self` — proper trees.
* `Wire.isProper_present`, `Wire.fits_present` — written records are proper and fit.
* `Wire.record?_present`, `Wire.tagged?_typed` — what a reader finds in them.
-/

namespace ApiGraph

/-! ### Proper trees -/

/-- An integer of at most 64 bits, or a finite double. -/
def Numeral.IsRepresentable : Numeral → Prop
  | .integer n => -9223372036854775808 ≤ n ∧ n < 18446744073709551616
  | .double x => x.isFinite = true

/-- A finite double equals itself. -/
theorem Binary64.same_self {x : Binary64} (finite : x.isFinite = true) : x.same x = true := by
  have number : x.isNaN = false := by simp_all [isFinite, isNaN]
  simp [same, number]

theorem Numeral.same_self {n : Numeral} (h : n.IsRepresentable) : n.same n = true := by
  cases n with
  | integer n => exact beq_self_eq_true n
  | double x => exact Binary64.same_self h

namespace Json

mutual
/-- Every part denotes a value, numbers are representable, and objects give each key once. -/
def IsProper : Json → Prop
  | .null | .bool _ | .string _ => True
  | .number n => n.IsRepresentable
  | .array items => ProperItems items
  | .object members => (members.map (·.1)).Nodup ∧ ProperMembers members
  | .valueless => False

/-- All items are proper. -/
def ProperItems : List Json → Prop
  | [] => True
  | item :: rest => IsProper item ∧ ProperItems rest

/-- All members' values are proper. -/
def ProperMembers : List (String × Json) → Prop
  | [] => True
  | (_, value) :: rest => IsProper value ∧ ProperMembers rest
end

theorem properItems_iff {items : List Json} : ProperItems items ↔ ∀ j ∈ items, IsProper j := by
  induction items with
  | nil => simp [ProperItems]
  | cons j items ih => simp [ProperItems, ih]

theorem properMembers_iff {members : List (String × Json)} :
    ProperMembers members ↔ ∀ m ∈ members, IsProper m.2 := by
  induction members with
  | nil => simp [ProperMembers]
  | cons m members ih => simp [ProperMembers, ih]

mutual
/-- A proper tree has a value. -/
theorem hasValue_of_isProper : ∀ j : Json, IsProper j → j.hasValue = true
  | .null, _ | .bool _, _ | .number _, _ | .string _, _ => rfl
  | .array items, h => hasValueItems_of_proper items h
  | .object members, h => hasValueMembers_of_proper members h.2

theorem hasValueItems_of_proper : ∀ items : List Json, ProperItems items → hasValueItems items = true
  | [], _ => rfl
  | item :: rest, h => by
      rw [hasValueItems, hasValue_of_isProper item h.1, hasValueItems_of_proper rest h.2]
      rfl

theorem hasValueMembers_of_proper : ∀ members : List (String × Json), ProperMembers members →
    hasValueMembers members = true
  | [], _ => rfl
  | (_, value) :: rest, h => by
      rw [hasValueMembers, hasValue_of_isProper value h.1, hasValueMembers_of_proper rest h.2]
      rfl
end

/-- Where keys are given once, each key has its own value. -/
theorem member?_eq_some {members : List (String × Json)} (distinct : (members.map (·.1)).Nodup)
    {m : String × Json} (mem : m ∈ members) : member? m.1 members = some m.2 := by
  unfold member?
  cases found : members.reverse.find? (·.1 == m.1) with
  | none => simpa using List.find?_eq_none.1 found m (List.mem_reverse.2 mem)
  | some entry =>
      -- members are searched from the last one, but there is only one of the name
      have same : entry.1 = m.1 := by simpa using List.find?_some found
      have inside := List.mem_reverse.1 (List.mem_of_find?_eq_some found)
      obtain rfl : entry = m := List.inj_on_of_nodup_map distinct inside mem same
      rfl

mutual
/-- A proper tree equals itself. -/
theorem same_self : ∀ j : Json, IsProper j → j.same j = true
  | .null, _ => rfl
  | .bool _, _ | .string _, _ => by simp [same]
  | .number _, h => Numeral.same_self h
  | .array items, h => sameItems_self items h
  | .object members, h => by
      rw [same, beq_self_eq_true, Bool.true_and]
      exact sameMembers_self members h.1 members h.2 fun _ mem => mem

theorem sameItems_self : ∀ items : List Json, ProperItems items → sameItems items items = true
  | [], _ => rfl
  | item :: rest, h => by
      rw [sameItems, same_self item h.1, sameItems_self rest h.2]
      rfl

theorem sameMembers_self (all : List (String × Json)) (distinct : (all.map (·.1)).Nodup) :
    ∀ members : List (String × Json), ProperMembers members → (∀ m ∈ members, m ∈ all) →
      sameMembers members all = true
  | [], _, _ => rfl
  | (key, value) :: rest, h, inside => by
      have found : member? key all = some value :=
        member?_eq_some distinct (inside (key, value) List.mem_cons_self)
      have later := sameMembers_self all distinct rest h.2 fun m mem =>
        inside m (List.mem_cons_of_mem _ mem)
      simp only [sameMembers, found, same_self value h.1, later, Bool.true_and]
end

/-! ### Room -/

theorem depthItems_le_iff {items : List Json} {room : Nat} :
    depthItems items ≤ room ↔ ∀ j ∈ items, j.depth ≤ room := by
  induction items with
  | nil => simp [depthItems]
  | cons j items ih => rw [depthItems, Nat.max_le, ih, List.forall_mem_cons]

theorem depthMembers_le_iff {members : List (String × Json)} {room : Nat} :
    depthMembers members ≤ room ↔ ∀ m ∈ members, m.2.depth ≤ room := by
  induction members with
  | nil => simp [depthMembers]
  | cons m members ih => rw [depthMembers, Nat.max_le, ih, List.forall_mem_cons]

theorem hasValueItems_iff {items : List Json} :
    hasValueItems items = true ↔ ∀ j ∈ items, j.hasValue = true := by
  induction items with
  | nil => simp [hasValueItems]
  | cons j items ih => simp [hasValueItems, ih]

theorem hasValueMembers_iff {members : List (String × Json)} :
    hasValueMembers members = true ↔ ∀ m ∈ members, m.2.hasValue = true := by
  induction members with
  | nil => simp [hasValueMembers]
  | cons m members ih => simp [hasValueMembers, ih]

theorem fits_iff {j : Json} {room : Nat} :
    j.fits room = true ↔ j.hasValue = true ∧ j.depth ≤ room := by
  rw [fits, Bool.and_eq_true_iff, decide_eq_true_iff]

/-- An array takes one level of room and leaves the others to its items. -/
theorem fits_array {items : List Json} {room : Nat} (h : (Json.array items).fits room = true) :
    ∃ rest, room = rest + 1 ∧ ∀ j ∈ items, j.fits rest = true := by
  obtain ⟨values, deep⟩ := fits_iff.1 h
  cases room with
  | zero => cases deep
  | succ rest =>
      refine ⟨rest, rfl, fun j mem => fits_iff.2 ⟨hasValueItems_iff.1 values j mem, ?_⟩⟩
      exact depthItems_le_iff.1 (Nat.le_of_succ_le_succ deep) j mem

/-- The items fit all the more into the room of the array. -/
theorem fits_items {items : List Json} {room : Nat} (h : (Json.array items).fits room = true) :
    ∀ j ∈ items, j.fits room = true := by
  obtain ⟨rest, rfl, each⟩ := fits_array h
  intro j mem
  obtain ⟨value, deep⟩ := fits_iff.1 (each j mem)
  exact fits_iff.2 ⟨value, Nat.le_succ_of_le deep⟩

/-- An object takes one level of room and leaves the others to its members' values. -/
theorem fits_object {members : List (String × Json)} {room : Nat}
    (h : (Json.object members).fits room = true) :
    ∃ rest, room = rest + 1 ∧ ∀ m ∈ members, m.2.fits rest = true := by
  obtain ⟨values, deep⟩ := fits_iff.1 h
  cases room with
  | zero => cases deep
  | succ rest =>
      refine ⟨rest, rfl, fun m mem => fits_iff.2 ⟨hasValueMembers_iff.1 values m mem, ?_⟩⟩
      exact depthMembers_le_iff.1 (Nat.le_of_succ_le_succ deep) m mem

end Json

/-! ### Written records -/

namespace Wire

variable {fields : List (String × Option Json)} {names : List String} {room : Nat}

/-- The fields that are present, as members. -/
def members (fields : List (String × Option Json)) : List (String × Json) :=
  fields.filterMap fun (name, value) => value.map (name, ·)

theorem mem_members {name : String} {j : Json} :
    (name, j) ∈ members fields ↔ (name, some j) ∈ fields := by
  simp only [members, List.mem_filterMap, Option.map_eq_some_iff, Prod.mk.injEq, Prod.exists]
  constructor
  · rintro ⟨_, _, mem, _, rfl, rfl, rfl⟩
    exact mem
  · exact fun mem => ⟨name, some j, mem, j, rfl, rfl, rfl⟩

theorem keys_members_sublist (fields : List (String × Option Json)) :
    ((members fields).map (·.1)).Sublist (fields.map (·.1)) := by
  induction fields with
  | nil => exact .slnil
  | cons f fields ih =>
      obtain ⟨name, _ | j⟩ := f
      · exact ih.cons name
      · exact ih.cons_cons name

/-- A member's value is what its field holds. -/
theorem lookup_members (distinct : (fields.map (·.1)).Nodup) (name : String) :
    (members fields).lookup name = (fields.lookup name).join := by
  induction fields with
  | nil => rfl
  | cons f fields ih =>
      obtain ⟨key, value⟩ := f
      obtain ⟨new, later⟩ := List.nodup_cons.1 distinct
      by_cases same : name = key
      · subst same
        cases value with
        | some j => simp [members]
        | none =>
            -- a field that is absent leaves the name to no other field
            have absent : (members fields).lookup name = none := by
              rw [List.lookup_eq_none_iff]
              intro m mem
              have key := (keys_members_sublist fields).subset (List.mem_map_of_mem mem)
              exact bne_iff_ne.2 fun same => new (same ▸ key)
            simpa [members] using absent
      · have other : (name == key) = false := beq_eq_false_iff_ne.2 same
        rw [List.lookup_cons, other]
        cases value with
        | none => exact ih later
        | some j =>
            rw [← ih later]
            simp [members, List.lookup_cons, other]

/-- All that the fields hold has a property. -/
def EachField (P : Json → Prop) : List (String × Option Json) → Prop
  | [] => True
  | (_, value) :: rest => (∀ j ∈ value, P j) ∧ EachField P rest

theorem eachField_iff {P : Json → Prop} :
    EachField P fields ↔ ∀ f ∈ fields, ∀ j ∈ f.2, P j := by
  induction fields with
  | nil => simp [EachField]
  | cons f fields ih => simp [EachField, ih]

/-- A record that is written with distinct fields is proper, if what its fields hold is. -/
theorem isProper_present (distinct : (fields.map (·.1)).Nodup)
    (proper : EachField Json.IsProper fields) : (present fields).IsProper := by
  refine ⟨(keys_members_sublist fields).nodup distinct, Json.properMembers_iff.2 ?_⟩
  intro m mem
  exact eachField_iff.1 proper (m.1, some m.2) (mem_members.1 mem) m.2 rfl

/-- A record takes one level of room and leaves the others to its fields. -/
theorem fits_present (h : (present fields).fits room = true) :
    ∃ rest, room = rest + 1 ∧ EachField (fun j => j.fits rest = true) fields := by
  obtain ⟨rest, rfl, each⟩ := Json.fits_object h
  refine ⟨rest, rfl, eachField_iff.2 ?_⟩
  intro f mem j holds
  exact each (f.1, j) (mem_members.2 (holds ▸ mem))

/-- The record of some fields, as a reader that knows `names` finds it. -/
def found (names : List String) (fields : List (String × Option Json)) : Record :=
  ⟨fun name => if name ∈ names then (fields.lookup name).join else none⟩

theorem repeats_eq_false (names : List String) {ms : List (String × Json)}
    (distinct : (ms.map (·.1)).Nodup) :
    Record.repeats names ms = false := by
  refine List.any_eq_false.2 fun name _ => ?_
  have once := List.nodup_iff_count_le_one.1 distinct name
  rw [List.count_eq_countP, List.countP_map, List.countP_eq_length_filter] at once
  simpa [Function.comp_def] using once

theorem ofMembers?_members (names : List String) (distinct : (fields.map (·.1)).Nodup) :
    Record.ofMembers? names (members fields) = some (found names fields) := by
  have keys := (keys_members_sublist fields).nodup distinct
  rw [Record.ofMembers?, repeats_eq_false names keys, found]
  simp only [lookup_members distinct]
  rfl

/-- A written record is read with its fields. -/
theorem record?_present (distinct : (fields.map (·.1)).Nodup) :
    (present fields).record? names = some (found names fields) :=
  ofMembers?_members names distinct

theorem ofName?_name (form : TypeExpr.Form) : TypeExpr.Form.ofName? form.name = some form := by
  cases form <;> decide

/-- The discriminator and the fields of a form have names of their own. -/
theorem nodup_fieldNames (form : TypeExpr.Form) : ("type" :: fieldNames form).Nodup := by
  cases form <;> decide

/-- The discriminator is no field of any form. -/
theorem found_typed (form : TypeExpr.Form) (tag : Option Json) :
    found (fieldNames form) (("type", tag) :: fields) = found (fieldNames form) fields := by
  refine congrArg Record.mk (funext fun name => ?_)
  split
  · next mem =>
    have other : (name == "type") = false :=
      beq_eq_false_iff_ne.2 fun same => (List.nodup_cons.1 (nodup_fieldNames form)).1 (same ▸ mem)
    rw [List.lookup_cons, other]
  · rfl

/-- A written type is read with its form and its fields. -/
theorem tagged?_typed {form : TypeExpr.Form} (all : fields.map (·.1) = fieldNames form)
    (inner : Bool) :
    tagged? inner (typed form fields) = some (form, found (fieldNames form) fields) := by
  have named : ((("type", some (Json.string form.name)) :: fields).map (·.1)).Nodup := by
    rw [List.map_cons, all]
    exact nodup_fieldNames form
  have once := repeats_eq_false ["type"] ((keys_members_sublist _).nodup named)
  have tag := lookup_members named "type"
  have read := ofMembers?_members (fieldNames form) named
  rw [List.lookup_cons_self, Option.join_some] at tag
  rw [found_typed] at read
  show tagged? inner (.object (members (("type", some (Json.string form.name)) :: fields))) = _
  simp [tagged?, once, tag, read, form?, ofName?_name]

/-- A written type is proper, if what its fields hold is. -/
theorem isProper_typed {form : TypeExpr.Form} (all : fields.map (·.1) = fieldNames form)
    (proper : EachField Json.IsProper fields) : (typed form fields).IsProper := by
  refine isProper_present ?_ ⟨fun j tag => Option.some.inj tag ▸ trivial, proper⟩
  rw [List.map_cons, all]
  exact nodup_fieldNames form

end Wire

end ApiGraph
