import ApiGraph.Proofs.Grouping

/-!
# ApiGraph.Proofs.OwnedClosure

A removal in full, on any project. Owners may share what they own, own each other in a circle, or name
what is not registered: what goes is what was reached from the removed reflection before anything went,
and the rest of the project is told field by field.

* `Reflection.Loses` — a reflection loses an id, and nothing else.
* `remove_ownedClosure` — what a removal returns and leaves.
-/

namespace ApiGraph

/-! ### Losing an id -/

namespace Body

/-- The lists of ids in a body. -/
def lists : Body → List (List Id)
  | .declaration d => [d.children, d.signatures, d.typeParameters]
  | .signature s => [s.parameters, s.typeParameters]
  | .parameter _ | .typeParameter _ => []

/-- The slots for a single id in a body. -/
def singles : Body → List (Option Id)
  | .declaration d => [d.indexSignature, d.getSignature, d.setSignature]
  | .signature _ | .parameter _ | .typeParameter _ => []

/-- The body without lists, slots and categories. -/
def bare : Body → Body
  | .declaration d => .declaration
    { d with
      children := []
      signatures := []
      typeParameters := []
      indexSignature := none
      getSignature := none
      setSignature := none
      categories := [] }
  | .signature s => .signature { s with parameters := [], typeParameters := [] }
  | .parameter q => .parameter q
  | .typeParameter q => .typeParameter q

end Body

/-- `s'` is `s` without an id in any list, slot or category. All else is the same, and in the same
order. -/
structure Reflection.Loses (id : Id) (s s' : Reflection) : Prop where
  lists : s'.body.lists = s.body.lists.map fun ids => ids.filter (· != id)
  singles : s'.body.singles = s.body.singles.map fun slot => slot.filter (· != id)
  categories : s'.body.categories = s.body.categories.map fun c =>
    { c with children := c.children.filter (· != id) }
  rest : { s' with body := s'.body.bare } = { s with body := s.body.bare }

theorem vacate_eq_filter (id : Id) (slot : Option Id) : vacate id slot = slot.filter (· != id) := by
  cases slot with
  | none => rfl
  | some x => by_cases same : x = id <;> simp [vacate, Option.filter, same]

/-- A detached reflection has lost the id. -/
theorem Reflection.loses_detach (id : Id) (r : Reflection) : r.Loses id (r.detach id) where
  lists := by cases body : r.body <;> simp [detach, Body.detach, Body.lists, without, body]
  singles := by cases body : r.body <;> simp [detach, Body.detach, Body.singles, vacate_eq_filter, body]
  categories := Body.categories_detach id r.body
  rest := by cases body : r.body <;> simp [detach, Body.detach, Body.bare, body]

theorem Project.children_detach (p : Project) (id : Id) (parent : Option Id) :
    (p.detach id parent).children =
      if parent.any p.contains then p.children else p.children.filter (· != id) := by
  unfold detach
  cases parent with
  | none => rfl
  | some owner =>
      rw [Option.filter_some, Option.any_some]
      cases p.contains owner <;> rfl

/-- **A removal takes exactly what is reached from its id**, whatever owns whatever. It succeeds wherever
the id is registered, and returns the reflection that was registered there, which has lost the id if it
was its own parent. What is still registered is what was and is not reached from the id through
registered owners; of that only a registered parent changes, by losing the id. The index loses the entries
of what went. The project's categories lose the id, and so does the top level if no registered parent
could. -/
theorem remove_ownedClosure (p : Project) (id : Id) (r : Reflection) (found : p.get? id = some r) :
    ∃ removed p', p.remove id = .ok (removed, p') ∧
      (if r.parent = some id then r.Loses id removed else removed = r) ∧
      (∀ x, p'.contains x = true ↔
        p.contains x = true ∧ ¬Relation.ReflTransGen p.TakesAlong id x) ∧
      (∀ x s, p.get? x = some s → ¬Relation.ReflTransGen p.TakesAlong id x →
        ∃ s', p'.get? x = some s' ∧ if r.parent = some x then s.Loses id s' else s' = s) ∧
      p'.symbols = p.symbols.filter (fun entry => !p.contains entry.2 || p'.contains entry.2) ∧
      p'.children = (if r.parent.any p.contains then p.children
        else p.children.filter (· != id)) ∧
      p'.categories = p.categories.map (fun c =>
        { c with children := c.children.filter (· != id) }) ∧
      p'.nextId = p.nextId ∧ p'.name = p.name := by
  have removed := Project.remove_eq found
  obtain ⟨r', removal⟩ := Project.isRemoval_of_remove removed
  obtain rfl := Option.some.inj (found.symm.trans removal.found)
  obtain ⟨registry, children, detached⟩ := p.exists_detach id r.parent
  obtain ⟨registry', symbols, left⟩ := Project.exists_unregister { p.detach id r.parent with
    categories := p.categories.map (Category.without id) } [id]
  refine ⟨_, _, removed, ?_, fun x => ?_, fun x s known apart => ?_, ?_, ?_, removal.categories, ?_, ?_⟩
  · split
    · exact r.loses_detach id
    · rfl
  · rw [removal.contains_iff, Project.goes_iff_path]
  · have after := removal.stays x fun goes => apart (Project.goes_iff_path.1 goes)
    rw [known, Option.map_some] at after
    refine ⟨_, after, ?_⟩
    split
    · exact s.loses_detach id
    · rfl
  · refine (Project.symbols_unregister _ [id]).trans ?_
    rw [Project.symbols_detach]
    exact List.filter_congr fun entry _ => congrArg (!· || _) (p.contains_detach id r.parent entry.2)
  · exact removal.children.trans (p.children_detach id r.parent)
  · rw [left, detached]
  · rw [left, detached]

/-- A project whose owners run in a circle: 1 owns 2, 2 owns 3, and the type of 3 is 2 again. The
third is shared with 4, the second stands at the top level too, and 9 is not registered. -/
def tangled : Project where
  name := "library"
  registry := .insert 4 { name := "d", kind := .namespace, body := .declaration { children := [3] } }
    (.insert 3
      { name := "c", kind := .variable, parent := some 2,
        body := .declaration { type := some (.reflection 2) } }
    (.insert 2
      { name := "b", kind := .namespace, parent := some 1,
        body := .declaration { children := [3, 9] } }
    (.insert 1
      { name := "a", kind := .namespace,
        body := .declaration
          { children := [2], categories := [{ title := "All", children := [3, 2] }] } }
      .empty)))
  symbols := [(7, 3), (8, 1), (5, 9)]
  nextId := 5
  children := [1, 2]
  categories := [{ title := "Main", children := [2, 1] }]

/-- The circle goes, and what shared a part of it stays. -/
theorem remove_tangled : ∃ removed p', tangled.remove 2 = .ok (removed, p') ∧
    (∀ x, p'.contains x = true ↔ x = 1 ∨ x = 4) ∧
    p'.symbols = [(8, 1), (5, 9)] ∧ p'.children = [1, 2] := by
  obtain ⟨removed, p', done, -, registered, -, symbols, children, -⟩ :=
    remove_ownedClosure tangled 2 _ rfl
  have known (x : Id) : tangled.contains x = true ↔ x = 1 ∨ x = 2 ∨ x = 3 ∨ x = 4 := by
    have ids : tangled.registry.ids = [1, 2, 3, 4] := rfl
    rw [Project.contains, ← Registry.mem_ids_iff, ids]
    simp
  have second : tangled.TakesAlong 2 3 := ⟨_, rfl, by decide⟩
  -- no step leads out of the circle but to what is not registered
  have inside (x : Id) (path : Relation.ReflTransGen tangled.TakesAlong 2 x) :
      x = 2 ∨ x = 3 ∨ x = 9 := by
    induction path with
    | refl => exact .inl rfl
    | tail _ taken ih =>
        obtain ⟨o, found, owned⟩ := taken
        rcases ih with rfl | rfl | rfl
        · obtain rfl := Option.some.inj found
          right
          simpa [Reflection.owned, Reflection.typeLiteral?, Reflection.type, Body.type] using owned
        · obtain rfl := Option.some.inj found
          left
          exact List.mem_singleton.1 owned
        · cases found
  have left (x : Id) : p'.contains x = true ↔ x = 1 ∨ x = 4 := by
    rw [registered, known]
    constructor
    · rintro ⟨rfl | rfl | rfl | rfl, apart⟩
      · exact .inl rfl
      · exact absurd .refl apart
      · exact absurd (.single second) apart
      · exact .inr rfl
    · rintro (rfl | rfl)
      · exact ⟨.inl rfl, fun path => absurd (inside _ path) (by decide)⟩
      · exact ⟨.inr (.inr (.inr rfl)), fun path => absurd (inside _ path) (by decide)⟩
  have first : p'.contains 1 = true := (left 1).2 (.inl rfl)
  have third : p'.contains 3 = false := by
    rw [← Bool.not_eq_true, left]
    decide
  have before : tangled.contains 3 = true := rfl
  have never : tangled.contains 9 = false := rfl
  refine ⟨removed, p', done, left, ?_, children⟩
  rw [symbols, show tangled.symbols = [(7, 3), (8, 1), (5, 9)] from rfl]
  simp [first, third, before, never]

end ApiGraph
