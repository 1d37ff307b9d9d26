import Mathlib.Data.Finset.Card
import ApiGraph.Project.Traverse
import ApiGraph.Proofs.Orphans

/-!
# ApiGraph.Proofs.Traversal

Walking against removing. A walk below a reflection and its removal follow the same links, in another
order, but for one: a type parameter takes the type literal that constrains it along when it goes, and a
walk never enters it.

* `Project.Walks`, `mem_visited_iff` — a walk visits what its steps lead to, all the way down.
* `Project.below`, `card_below_lt` — each step leaves less to come, so the levels of a walk are enough.
* `Project.IsConstrainedBy`, `takesAlong_iff` — the link that a walk leaves out.
* `IsRemoval.mem_visited_iff` — what a walk visits of what a removal takes away.
* `visited_iff_of_remove` — when the two agree.
-/

namespace ApiGraph

/-- A visitor that never ends the walk sees all of it. -/
theorem Visit.run_continue {σ : Type} (see : σ → Visit → σ) (vs : List Visit) (s : σ) :
    Visit.run (fun s v => .continue (see s v)) vs s = .continue (vs.foldl see s) := by
  induction vs generalizing s with
  | nil => rfl
  | cons v vs ih => exact ih (see s v)

/-- A walk goes to what a reflection owns, unless that is a type parameter. -/
theorem Reflection.mem_slots {r : Reflection} {x : Id} :
    x ∈ r.slots.map Prod.fst ↔ x ∈ r.owned ∧ ∀ t, r.body ≠ .typeParameter t := by
  cases body : r.body <;> simp [slots, owned, body, Function.comp_def]
  all_goals tauto

namespace Project

variable {p p' : Project} {id owner x y : Id} {r : Reflection} {levels depth : Nat}

/-! ### Walks -/

/-- A walk goes from a reflection to another in a single step. -/
def Walks (p : Project) (owner x : Id) : Prop :=
  x ∈ (p.steps owner).map Visit.id

theorem walks_iff : p.Walks owner x ↔
    p.contains x = true ∧ ∃ o, p.get? owner = some o ∧ x ∈ o.slots.map Prod.fst := by
  unfold Walks steps
  cases found : p.get? owner with
  | none => simp
  | some o =>
      simp only [List.map_filterMap, Option.map_map, Function.comp_def, List.mem_filterMap,
        Option.map_eq_some_iff, List.mem_map, Option.some.injEq, exists_eq_left']
      constructor
      · rintro ⟨⟨child, slot⟩, mem, s, registered, rfl⟩
        exact ⟨Registry.contains_iff.2 ⟨s, registered⟩, _, mem, rfl⟩
      · rintro ⟨known, ⟨child, slot⟩, mem, rfl⟩
        obtain ⟨s, registered⟩ := Registry.contains_iff.1 known
        exact ⟨(child, slot), mem, s, registered, rfl⟩

/-- A step of a walk leads to something that the reflection would take along. -/
theorem Walks.takesAlong (h : p.Walks owner x) : p.TakesAlong owner x := by
  obtain ⟨-, o, found, mem⟩ := walks_iff.1 h
  exact ⟨o, found, (Reflection.mem_slots.1 mem).1⟩

/-- Every level of a walk visits what a step leads to, and what is below that. -/
theorem mem_descend_succ : x ∈ (p.descend (levels + 1) depth id).map Visit.id ↔
    ∃ y, p.Walks id y ∧ (x = y ∨ x ∈ (p.descend levels (depth + 1) y).map Visit.id) := by
  simp only [descend, Walks, List.map_flatMap, List.map_cons, List.mem_flatMap, List.mem_cons,
    List.mem_map, exists_exists_and_eq_and]

/-- What is visited lies at the end of some steps. -/
theorem path_of_mem_descend (visited : x ∈ (p.descend levels depth id).map Visit.id) :
    Relation.TransGen p.Walks id x := by
  induction levels generalizing depth id with
  | zero => cases visited
  | succ levels ih =>
      obtain ⟨y, walks, rfl | below⟩ := mem_descend_succ.1 visited
      · exact .single walks
      · exact .head walks (ih below)

open Classical in
/-- What steps lead to. -/
noncomputable def below (p : Project) (id : Id) : Finset Id :=
  p.registry.ids.toFinset.filter (Relation.TransGen p.Walks id)

theorem mem_below : x ∈ p.below id ↔ Relation.TransGen p.Walks id x := by
  classical
  rw [below, Finset.mem_filter, List.mem_toFinset, and_iff_right_iff_imp]
  intro path
  obtain ⟨owner, -, last⟩ := Relation.TransGen.tail'_iff.1 path
  exact Registry.mem_ids_iff.2 (walks_iff.1 last).1

theorem card_below_le (p : Project) (id : Id) : (p.below id).card ≤ p.size := by
  classical
  refine (Finset.card_filter_le _ _).trans ((List.toFinset_card_le _).trans ?_)
  exact (List.length_map _).le

/-- With every step there is less to come. -/
theorem card_below_lt (acyclic : ∀ x, ¬Relation.TransGen p.Walks x x) (walks : p.Walks id x) :
    (p.below x).card < (p.below id).card := by
  refine Finset.card_lt_card (Finset.ssubset_iff_subset_ne.2 ⟨fun y mem => ?_, fun same => ?_⟩)
  · exact mem_below.2 (.head walks (mem_below.1 mem))
  · exact acyclic x (mem_below.1 (same ▸ mem_below.2 (.single walks)))

/-- A walk over enough levels gets to the end of all steps. -/
theorem mem_descend (acyclic : ∀ x, ¬Relation.TransGen p.Walks x x)
    (enough : (p.below id).card ≤ levels) (path : Relation.TransGen p.Walks id x) :
    x ∈ (p.descend levels depth id).map Visit.id := by
  induction levels generalizing depth id with
  | zero =>
      obtain ⟨y, walks, -⟩ := Relation.TransGen.head'_iff.1 path
      have fewer := card_below_lt acyclic walks
      omega
  | succ levels ih =>
      obtain ⟨y, walks, rest⟩ := Relation.TransGen.head'_iff.1 path
      have fewer := card_below_lt acyclic walks
      refine mem_descend_succ.2 ⟨y, walks, ?_⟩
      rcases Relation.reflTransGen_iff_eq_or_transGen.1 rest with rfl | rest
      · exact .inl rfl
      · exact .inr (ih (by omega) rest)

/-- The ids that are seen by a visitor who never ends the walk below a reflection. -/
def visited (p : Project) (id : Id) : List Id :=
  (Visit.run (fun ids v => .continue (ids ++ [v.id])) (p.descendants id) []).state

theorem visited_eq (p : Project) (id : Id) : p.visited id = (p.descendants id).map Visit.id := by
  have noted (vs : List Visit) (ids : List Id) :
      vs.foldl (fun ids v => ids ++ [v.id]) ids = ids ++ vs.map Visit.id := by
    induction vs generalizing ids with
    | nil => simp
    | cons v vs ih => simp [ih]
  rw [visited, Visit.run_continue, Flow.state, noted, List.nil_append]

/-- In a forest no walk comes back. -/
theorem IsForest.not_walks_self (h : p.IsForest) (x : Id) : ¬Relation.TransGen p.Walks x x :=
  fun path => h.acyclic x
    (Relation.TransGen.mono (fun _ _ walks => walks.takesAlong.owns) x x path)

/-- **A walk visits exactly what its steps lead to**: where nothing owns itself, the levels of a walk are
enough. -/
theorem IsForest.mem_visited_iff (h : p.IsForest) :
    x ∈ p.visited id ↔ Relation.TransGen p.Walks id x := by
  rw [visited_eq]
  constructor
  · exact path_of_mem_descend
  · exact mem_descend h.not_walks_self (p.card_below_le id)

/-! ### What a walk leaves out -/

/-- A type parameter is constrained by a type literal. -/
def IsConstrainedBy (p : Project) (owner x : Id) : Prop :=
  ∃ o t, p.get? owner = some o ∧ o.body = .typeParameter t ∧ o.typeLiteral? = some x

/-- A registered reflection is taken along where a walk steps, and where a type parameter is
constrained. -/
theorem takesAlong_iff (known : p.contains x = true) :
    p.TakesAlong owner x ↔ p.Walks owner x ∨ p.IsConstrainedBy owner x := by
  constructor
  · rintro ⟨o, found, owned⟩
    cases body : o.body with
    | typeParameter t =>
        have literal : x ∈ o.typeLiteral?.toList := by simpa [Reflection.owned, body] using owned
        exact .inr ⟨o, t, found, body, Option.mem_toList.1 literal⟩
    | _ =>
        exact .inl (walks_iff.2 ⟨known, o, found, Reflection.mem_slots.2 ⟨owned, by simp [body]⟩⟩)
  · rintro (walks | ⟨o, t, found, -, literal⟩)
    · exact walks.takesAlong
    · exact ⟨o, found, (Reflection.mem_owned owner).2 (.inl literal)⟩

/-- A walk does not step out of a type parameter. -/
theorem IsConstrainedBy.not_walks (h : p.IsConstrainedBy owner x) : ¬p.Walks owner y := by
  intro walks
  obtain ⟨o, t, found, body, -⟩ := h
  obtain ⟨-, o', found', mem⟩ := walks_iff.1 walks
  obtain rfl := Option.some.inj (found.symm.trans found')
  exact (Reflection.mem_slots.1 mem).2 t body

namespace IsRemoval

variable (h : p.IsRemoval id r p') (forest : p.IsForest)
include h forest

/-- A type literal that constrains a type parameter hides all that goes with it. -/
theorem not_goes_of_path {t : Id} (goes : p.Goes [id] t) (constrained : p.IsConstrainedBy t y)
    (path : Relation.TransGen p.Walks id x) : ¬p.Goes [y] x := by
  intro below
  have once := forest.holdsOnce
  obtain ⟨o, s, found, body, literal⟩ := constrained
  have taken : p.TakesAlong t y := ⟨o, found, (Reflection.mem_owned t).2 (.inl literal)⟩
  -- upwards there is one way only, which leads from the literal to its type parameter
  induction below with
  | @work x mem =>
      obtain rfl := List.mem_singleton.1 mem
      obtain ⟨z, -, last⟩ := Relation.TransGen.tail'_iff.1 path
      obtain rfl := once.unique x z t trivial trivial last.takesAlong.owns taken.owns
      exact IsConstrainedBy.not_walks ⟨o, s, found, body, literal⟩ last
  | @along z x before along ih =>
      obtain ⟨w, above, last⟩ := Relation.TransGen.tail'_iff.1 path
      obtain rfl := once.unique x w z trivial trivial last.takesAlong.owns along.owns
      rcases Relation.reflTransGen_iff_eq_or_transGen.1 above with rfl | above
      · -- the literal would be below the removed reflection, and that below the literal
        have down : Relation.TransGen p.Owns w y := .tail' (path_of_goes goes) taken.owns
        exact forest.acyclic w (down.trans_left (path_of_goes before))
      · exact ih above

/-- **A walk visits what a removal takes away**, without the removed reflection and without what is hidden
by the constraint of a type parameter. -/
theorem mem_visited_iff : x ∈ p.visited id ↔ (p.contains x = true ∧ p'.contains x = false) ∧ x ≠ id ∧
    ∀ t y, p.Goes [id] t → p.IsConstrainedBy t y → ¬p.Goes [y] x := by
  rw [forest.mem_visited_iff]
  constructor
  · intro path
    obtain ⟨owner, above, last⟩ := Relation.TransGen.tail'_iff.1 path
    have goes : p.Goes [id] x := by
      clear above last
      induction path with
      | single walks => exact .along (.work List.mem_cons_self) walks.takesAlong
      | tail _ walks ih => exact .along ih walks.takesAlong
    refine ⟨⟨(walks_iff.1 last).1, ?_⟩, ?_, ?_⟩
    · rw [← Bool.not_eq_true, h.contains_iff]
      exact fun stays => stays.2 goes
    · rintro rfl
      exact forest.not_walks_self x path
    · intro t y gone constrained
      exact h.not_goes_of_path forest gone constrained path
  · rintro ⟨⟨known, gone⟩, other, seen⟩
    have goes : p.Goes [id] x := by
      by_contra stays
      rw [h.contains_iff.2 ⟨known, stays⟩] at gone
      cases gone
    clear known gone
    induction goes with
    | work mem => exact absurd (List.mem_singleton.1 mem) other
    | @along owner x before taken ih =>
        have walks : p.Walks owner x := by
          have known := forest.contains_of_owns taken.owns
          refine ((takesAlong_iff known).1 taken).resolve_right fun constrained => ?_
          exact seen owner x before constrained (.work List.mem_cons_self)
        by_cases same : owner = id
        · exact .single (same ▸ walks)
        · refine .tail (ih same fun t y goes constrained below => ?_) walks
          exact seen t y goes constrained (.along below taken)

/-- A walk visits all that a removal takes away but the removed reflection, exactly if no type parameter
that goes is constrained by a type literal. -/
theorem forall_mem_visited_iff :
    (∀ x, x ∈ p.visited id ↔ (p.contains x = true ∧ p'.contains x = false) ∧ x ≠ id) ↔
      ∀ t y, p.Goes [id] t → ¬p.IsConstrainedBy t y := by
  constructor
  · intro agree t y goes constrained
    obtain ⟨o, s, found, body, literal⟩ := constrained
    have taken : p.TakesAlong t y := ⟨o, found, (Reflection.mem_owned t).2 (.inl literal)⟩
    have gone : p'.contains y = false := by
      rw [← Bool.not_eq_true, h.contains_iff]
      exact fun stays => stays.2 (.along goes taken)
    have other : y ≠ id := by
      rintro rfl
      exact forest.acyclic y (.tail' (path_of_goes goes) taken.owns)
    have visited := (agree y).2 ⟨⟨forest.contains_of_owns taken.owns, gone⟩, other⟩
    obtain ⟨-, -, seen⟩ := (h.mem_visited_iff forest).1 visited
    exact seen t y goes ⟨o, s, found, body, literal⟩ (.work List.mem_cons_self)
  · intro free x
    rw [h.mem_visited_iff forest]
    refine and_congr_right fun _ => and_iff_left ?_
    intro t y goes constrained
    exact absurd constrained (free t y goes)

end IsRemoval

end Project

/-- **When walking and removing agree.** In a decoded project a walk that is never ended visits what the
removal of the same reflection takes away, without that reflection itself and without all that goes with
the type literal which constrains a type parameter. So the two agree exactly if no type parameter that
goes has such a constraint. -/
theorem visited_iff_of_remove (root : WireReflection) (p : Project)
    (decoded : Project.ofWire root = .ok p) : ∀ id r p', p.remove id = .ok (r, p') →
      (∀ x, x ∈ p.visited id ↔ (p.contains x = true ∧ p'.contains x = false) ∧ x ≠ id ∧
        ∀ t y, p.Goes [id] t → p.IsConstrainedBy t y → ¬p.Goes [y] x) ∧
      ((∀ x, x ∈ p.visited id ↔ (p.contains x = true ∧ p'.contains x = false) ∧ x ≠ id) ↔
        ∀ t y, p.Goes [id] t → ¬p.IsConstrainedBy t y) := by
  obtain ⟨valid, rfl⟩ := ofWire_eq_ok_iff.1 decoded
  have forest := WireReflection.isForest_project valid
  intro id r p' removed
  obtain ⟨o, removal⟩ := Project.isRemoval_of_remove removed
  exact ⟨fun x => removal.mem_visited_iff forest, removal.forall_mem_visited_iff forest⟩

/-- The example document has declarations only, so a walk below its variable visits what goes with it. -/
theorem visited_variable : ∃ p r p', Project.ofWire optionsDocument = .ok p ∧
    p.remove 1 = .ok (r, p') ∧ p.visited 1 = [2] ∧
      ∀ x, x ∈ p.visited 1 ↔ (p.contains x = true ∧ p'.contains x = false) ∧ x ≠ 1 := by
  have decoded : Project.ofWire optionsDocument = .ok optionsDocument.project :=
    ofWire_eq_ok_iff.2 ⟨isProject_optionsDocument, rfl⟩
  obtain ⟨r, p', removed⟩ : ∃ r p', optionsDocument.project.remove 1 = .ok (r, p') :=
    Project.exists_remove (by decide)
  have declarations : ∀ e ∈ optionsDocument.project.registry.entries,
      e.2.body.role = .declaration := by decide
  have agree := (visited_iff_of_remove optionsDocument _ decoded 1 r p' removed).2
  refine ⟨_, r, p', decoded, removed, rfl, agree.2 ?_⟩
  rintro t y - ⟨o, s, found, body, -⟩
  have role := declarations (t, o) (Registry.mem_entries_iff.2 found)
  rw [body] at role
  cases role

/-- A class with a type parameter that is constrained by an anonymous declaration. -/
def box : WireReflection :=
  .mk { id := 1, name := "Box", kind := 0x80 } none none none none none
    (some [.mk { id := 3, name := "T", kind := 0x20000 } none none none none none none none
      (some (.reflection typeLiteral)) none none none none none none false])
    none none none none none none none none false

/-- The constraint goes with the class, but a walk below the class does not visit it. -/
theorem visited_box : ∃ p r p', Project.ofWire (libraryOf [box]) = .ok p ∧
    p.remove 1 = .ok (r, p') ∧ p.contains 2 = true ∧ p'.contains 2 = false ∧ p.visited 1 = [3] := by
  obtain ⟨r, p', removed⟩ : ∃ r p', (libraryOf [box]).project.remove 1 = .ok (r, p') :=
    Project.exists_remove (by decide)
  obtain ⟨o, removal⟩ := Project.isRemoval_of_remove removed
  refine ⟨_, r, p', rfl, removed, rfl, ?_, rfl⟩
  have parameter : (libraryOf [box]).project.TakesAlong 1 3 := ⟨_, rfl, by decide⟩
  have constraint : (libraryOf [box]).project.TakesAlong 3 2 := ⟨_, rfl, by decide⟩
  rw [← Bool.not_eq_true, removal.contains_iff]
  exact fun stays => stays.2 (.along (.along (.work List.mem_cons_self) parameter) constraint)

end ApiGraph
