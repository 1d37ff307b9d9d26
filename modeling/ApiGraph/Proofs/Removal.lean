import ApiGraph.Proofs.Unregister

/-!
# ApiGraph.Proofs.Removal

What a removal does, on any graph. Unregistering drops what can be reached from the work through
registered owners, and nothing else; a removal has its id as the only work, after the parent or the
top level and the project's categories have lost it.

* `Project.TakesAlong`, `Project.Goes` — what goes with a reflection, directly and in the end.
* `goes_iff_path` — what goes is reached through registered owners.
* `get?_unregister`, `symbols_unregister` — what unregistering leaves.
* `remove_eq` — a removal in its steps.
* `Project.IsRemoval`, `isRemoval_of_remove` — what a removal leaves.
-/

namespace ApiGraph

/-- Detached from an id, a reflection lists what else it listed. -/
theorem Reflection.mem_listed_detach {r : Reflection} {id x : Id} (self : Id) :
    x ∈ ((r.detach id).body.listed self).map Position.id ↔
      x ∈ (r.body.listed self).map Position.id ∧ x ≠ id := by
  have listed : (r.detach id).body.listed self = (r.body.listed self).filter (·.id != id) :=
    Body.listed_detach self id r.body
  rw [listed]
  simp only [List.mem_map, List.mem_filter, bne_iff_ne]
  constructor
  · rintro ⟨q, ⟨inside, other⟩, rfl⟩
    exact ⟨⟨q, inside, rfl⟩, other⟩
  · rintro ⟨⟨q, inside, rfl⟩, other⟩
    exact ⟨q, ⟨inside, other⟩, rfl⟩

/-- Detached from an id, a reflection owns its type literal and what else it listed. -/
theorem Reflection.mem_owned_detach {r : Reflection} {id x : Id} (self : Id) :
    x ∈ (r.detach id).owned ↔
      r.typeLiteral? = some x ∨ x ∈ (r.body.listed self).map Position.id ∧ x ≠ id := by
  have main : (r.detach id).typeLiteral? = r.typeLiteral? :=
    congrArg (Option.bind · TypeExpr.declaration?) (Body.type_detach id r.body)
  rw [Reflection.mem_owned self, main, Reflection.mem_listed_detach]

namespace Project

variable {p p' : Project} {work rest : List Id} {id owner x : Id}
  {r s : Reflection}

/-! ### What goes -/

/-- A registered reflection takes an id that it owns along when it is unregistered. -/
def TakesAlong (p : Project) (owner id : Id) : Prop :=
  ∃ o, p.get? owner = some o ∧ id ∈ o.owned

/-- What goes: the work, and whatever something that goes takes along. -/
inductive Goes (p : Project) (work : List Id) : Id → Prop
  | work {id : Id} (mem : id ∈ work) : Goes p work id
  | along {owner id : Id} (before : Goes p work owner) (taken : p.TakesAlong owner id) :
      Goes p work id

theorem not_goes_nil : ¬p.Goes [] id := by
  intro goes
  induction goes with
  | work mem => cases mem
  | along _ _ ih => exact ih

/-- More work takes more along. -/
theorem Goes.cons (h : p.Goes rest x) : p.Goes (id :: rest) x := by
  induction h with
  | work mem => exact .work (List.mem_cons_of_mem _ mem)
  | along _ taken ih => exact .along ih taken

theorem Goes.mono (h : p.Goes work x)
    (taken : ∀ owner id, p.TakesAlong owner id → p'.TakesAlong owner id) : p'.Goes work x := by
  induction h with
  | work mem => exact .work mem
  | along _ along ih => exact .along ih (taken _ _ along)

/-- What goes with a reflection is what it reaches through registered owners, itself included. -/
theorem goes_iff_path : p.Goes [id] x ↔ Relation.ReflTransGen p.TakesAlong id x := by
  constructor
  · intro goes
    induction goes with
    | work mem =>
        obtain rfl := List.mem_singleton.1 mem
        exact .refl
    | along _ taken ih => exact ih.tail taken
  · intro path
    induction path with
    | refl => exact .work List.mem_cons_self
    | tail _ taken ih => exact .along ih taken

/-- Work that is not registered takes nothing along. -/
theorem goes_skip_iff (missing : p.get? id = none) :
    p.Goes (id :: rest) x ↔ x = id ∨ p.Goes rest x := by
  constructor
  · intro goes
    induction goes with
    | work mem => exact (List.mem_cons.1 mem).imp_right .work
    | along _ taken ih =>
        rcases ih with rfl | goes
        · obtain ⟨o, found, -⟩ := taken
          rw [missing] at found
          cases found
        · exact .inr (.along goes taken)
  · rintro (rfl | goes)
    · exact .work List.mem_cons_self
    · exact goes.cons

/-- A dropped reflection leaves what it owned as further work. -/
theorem goes_drop_iff (found : p.get? id = some r) :
    p.Goes (id :: rest) x ↔ x = id ∨ (p.drop id).Goes (r.owned ++ rest) x := by
  constructor
  · intro goes
    induction goes with
    | work mem =>
        exact (List.mem_cons.1 mem).imp_right fun later => .work (List.mem_append_right _ later)
    | @along owner y _ taken ih =>
        obtain ⟨o, foundOwner, owned⟩ := taken
        by_cases same : owner = id
        · subst same
          obtain rfl := Option.some.inj (found.symm.trans foundOwner)
          exact .inr (.work (List.mem_append_left _ owned))
        · have stays : (p.drop id).get? owner = some o := by
            rw [get?_drop, if_neg same, foundOwner]
          exact .inr (.along (ih.resolve_left same) ⟨o, stays, owned⟩)
  · rintro (rfl | goes)
    · exact .work List.mem_cons_self
    · induction goes with
      | work mem =>
          rcases List.mem_append.1 mem with owned | later
          · exact .along (.work List.mem_cons_self) ⟨r, found, owned⟩
          · exact .work (List.mem_cons_of_mem _ later)
      | along _ taken ih =>
          obtain ⟨o, foundOwner, owned⟩ := taken
          rw [get?_drop] at foundOwner
          split at foundOwner
          · cases foundOwner
          · exact .along ih ⟨o, foundOwner, owned⟩

/-! ### Unregistering -/

/-- What goes is not registered afterwards, and all else is as it was. -/
theorem get?_unregister (p : Project) (work : List Id) (x : Id) :
    (p.Goes work x → (p.unregister work).get? x = none) ∧
      (¬p.Goes work x → (p.unregister work).get? x = p.get? x) := by
  fun_induction Project.unregister p work with
  | case1 p => exact ⟨fun goes => absurd goes not_goes_nil, fun _ => rfl⟩
  | case2 p id rest missing ih =>
      rw [goes_skip_iff missing]
      refine ⟨fun goes => ?_, fun stays => ih.2 fun goes => stays (.inr goes)⟩
      by_cases later : p.Goes rest x
      · exact ih.1 later
      · rw [ih.2 later, goes.resolve_right later, missing]
  | case3 p id rest r found ih =>
      rw [goes_drop_iff found]
      constructor
      · intro goes
        by_cases later : (p.drop id).Goes (r.owned ++ rest) x
        · exact ih.1 later
        · rw [ih.2 later, get?_drop, if_pos (goes.resolve_right later)]
      · intro stays
        rw [not_or] at stays
        rw [ih.2 stays.2, get?_drop, if_neg stays.1]

theorem of_get?_unregister (found : (p.unregister work).get? x = some r) :
    ¬p.Goes work x ∧ p.get? x = some r := by
  by_cases goes : p.Goes work x
  · rw [(get?_unregister p work x).1 goes] at found
    cases found
  · rw [(get?_unregister p work x).2 goes] at found
    exact ⟨goes, found⟩

/-- A reflection that owns nothing goes alone. -/
theorem unregister_leaf (found : p.get? id = some r) (leaf : r.owned = []) :
    p.unregister [id] = p.drop id := by
  rw [unregister]
  split
  · next missing =>
    rw [found] at missing
    cases missing
  · next s again =>
    obtain rfl := Option.some.inj (found.symm.trans again)
    rw [leaf, List.nil_append, unregister]

/-- Unregistering changes the registry and the index only. -/
theorem exists_unregister (p : Project) (work : List Id) :
    ∃ registry symbols, p.unregister work = { p with registry, symbols } := by
  fun_induction Project.unregister p work with
  | case1 p => exact ⟨p.registry, p.symbols, rfl⟩
  | case2 p id rest missing ih => exact ih
  | case3 p id rest r found ih =>
      obtain ⟨registry, symbols, same⟩ := ih
      exact ⟨registry, symbols, same⟩

@[simp] theorem children_unregister (p : Project) (work : List Id) :
    (p.unregister work).children = p.children := by
  obtain ⟨registry, symbols, same⟩ := exists_unregister p work
  rw [same]

@[simp] theorem categories_unregister (p : Project) (work : List Id) :
    (p.unregister work).categories = p.categories := by
  obtain ⟨registry, symbols, same⟩ := exists_unregister p work
  rw [same]

/-- Registered is what was registered and does not go. -/
theorem contains_unregister_iff : (p.unregister work).contains x = true ↔
    p.contains x = true ∧ ¬p.Goes work x := by
  show ((p.unregister work).get? x).isSome = true ↔ (p.get? x).isSome = true ∧ ¬p.Goes work x
  by_cases goes : p.Goes work x
  · simp [(get?_unregister p work x).1 goes, goes]
  · simp [(get?_unregister p work x).2 goes, goes]

/-- The index loses the entries of what is unregistered. -/
theorem symbols_unregister (p : Project) (work : List Id) : (p.unregister work).symbols =
    p.symbols.filter fun e => !p.contains e.2 || (p.unregister work).contains e.2 := by
  fun_induction Project.unregister p work with
  | case1 p => exact (List.filter_eq_self.2 fun e _ => by simp).symm
  | case2 p id rest missing ih => exact ih
  | case3 p id rest r found ih =>
      have dropped (x : Id) : (p.drop id).contains x = (p.contains x && x != id) := by
        show ((p.drop id).get? x).isSome = ((p.get? x).isSome && x != id)
        rw [get?_drop]
        by_cases same : x = id <;> simp [same]
      have symbols : (p.drop id).symbols = p.symbols.filter (·.2 != id) := rfl
      rw [ih, symbols, List.filter_filter]
      refine List.filter_congr fun e _ => ?_
      rw [dropped]
      by_cases same : e.2 = id
      · -- it was registered, and nothing registers it again
        have before : p.contains id = true := Registry.contains_iff.2 ⟨r, found⟩
        have after : ((p.drop id).unregister (r.owned ++ rest)).contains id = false := by
          rw [← Bool.not_eq_true, contains_unregister_iff, dropped]
          simp
        simp [same, before, after]
      · have other : (e.2 != id) = true := by simpa using same
        rw [other, Bool.and_true, Bool.and_true]

/-! ### Removing -/

theorem categories_detach (p : Project) (id : Id) (parent : Option Id) :
    (p.detach id parent).categories = p.categories := by
  obtain ⟨registry, children, same⟩ := p.exists_detach id parent
  rw [same]

/-- Detaching an id does not change what goes with it: no path needs the place that it has left. -/
theorem goes_detach_iff (parent : Option Id) : (p.detach id parent).Goes [id] x ↔ p.Goes [id] x := by
  constructor
  · refine fun goes => goes.mono fun owner y taken => ?_
    obtain ⟨o', found', owned⟩ := taken
    rw [get?_detach] at found'
    obtain ⟨o, found, rfl⟩ := Option.map_eq_some_iff.1 found'
    refine ⟨o, found, ?_⟩
    split at owned
    · have before := (Reflection.mem_owned_detach owner).1 owned
      exact (Reflection.mem_owned owner).2 (before.imp_right And.left)
    · exact owned
  · intro goes
    induction goes with
    | work mem => exact .work mem
    | @along owner y _ taken ih =>
        obtain ⟨o, found, owned⟩ := taken
        by_cases same : y = id
        · exact .work (List.mem_singleton.2 same)
        · refine .along ih ⟨_, by rw [get?_detach, found, Option.map_some], ?_⟩
          split
          · have before := (Reflection.mem_owned owner).1 owned
            exact (Reflection.mem_owned_detach owner).2 (before.imp_right (⟨·, same⟩))
          · exact owned

/-- `p'` is what is left of `p` when the reflection `r` has been removed from under an id. -/
structure IsRemoval (p : Project) (id : Id) (r : Reflection) (p' : Project) : Prop where
  found : p.get? id = some r
  gone : ∀ x, p.Goes [id] x → p'.get? x = none
  stays : ∀ x, ¬p.Goes [id] x →
    p'.get? x = (p.get? x).map fun s => if r.parent = some x then s.detach id else s
  children : p'.children = (p.detach id r.parent).children
  categories : p'.categories = p.categories.map (Category.without id)

namespace IsRemoval

variable (h : p.IsRemoval id r p')
include h

/-- **Registered is what was registered and does not go.** -/
theorem contains_iff : p'.contains x = true ↔ p.contains x = true ∧ ¬p.Goes [id] x := by
  show (p'.get? x).isSome = true ↔ (p.get? x).isSome = true ∧ ¬p.Goes [id] x
  by_cases goes : p.Goes [id] x
  · simp [h.gone x goes, goes]
  · simp [h.stays x goes, goes]

/-- What is registered was registered before, and lost the id if it was the parent. -/
theorem exists_of_get? (found : p'.get? x = some s) : ¬p.Goes [id] x ∧
    ∃ s', p.get? x = some s' ∧ s = if r.parent = some x then s'.detach id else s' := by
  by_cases goes : p.Goes [id] x
  · rw [h.gone x goes] at found
    cases found
  · rw [h.stays x goes] at found
    obtain ⟨s', before, same⟩ := Option.map_eq_some_iff.1 found
    exact ⟨goes, s', before, same.symm⟩

theorem not_contains : p'.contains id ≠ true := fun known =>
  (h.contains_iff.1 known).2 (.work List.mem_cons_self)

end IsRemoval

/-- A removal detaches, clears the project's categories, and unregisters. -/
theorem remove_eq (found : p.get? id = some r) : p.remove id =
    .ok (if r.parent = some id then r.detach id else r,
      { p.detach id r.parent with
        categories := p.categories.map (Category.without id) }.unregister [id]) := by
  have cleared : get? { p.detach id r.parent with
      categories := p.categories.map (Category.without id) } id =
        some (if r.parent = some id then r.detach id else r) := by
    refine (get?_detach p id r.parent id).trans ?_
    rw [found, Option.map_some]
  unfold Project.remove
  rw [found]
  dsimp only
  rw [categories_detach, cleared]

/-- Only what is registered can be removed. -/
theorem exists_of_remove (removed : p.remove id = .ok (s, p')) : ∃ r, p.get? id = some r := by
  cases found : p.get? id with
  | some r => exact ⟨r, rfl⟩
  | none =>
      unfold Project.remove at removed
      rw [found] at removed
      cases removed

/-- **A removal takes away what goes with its id**, detaches that id from the parent, and leaves all
else. -/
theorem isRemoval_of_remove (removed : p.remove id = .ok (s, p')) : ∃ r, p.IsRemoval id r p' := by
  obtain ⟨r, found⟩ := exists_of_remove removed
  rw [remove_eq found] at removed
  obtain ⟨-, rfl⟩ := Prod.mk.inj (Except.ok.inj removed)
  -- categories do not matter to what goes
  have same (x : Id) :
      Goes { p.detach id r.parent with
        categories := p.categories.map (Category.without id) } [id] x ↔ p.Goes [id] x := by
    refine Iff.trans ?_ (goes_detach_iff r.parent)
    exact ⟨fun goes => goes.mono fun _ _ h => h, fun goes => goes.mono fun _ _ h => h⟩
  refine ⟨r, found, fun x goes => ?_, fun x stays => ?_, ?_, ?_⟩
  · exact (get?_unregister _ [id] x).1 ((same x).2 goes)
  · rw [(get?_unregister _ [id] x).2 fun goes => stays ((same x).1 goes)]
    exact get?_detach p id r.parent x
  · rw [children_unregister]
  · rw [categories_unregister]

/-- A declaration without parent that owns nothing goes alone. -/
theorem remove_leaf (found : p.get? id = some r) (free : r.parent = none) (leaf : r.owned = []) :
    p.remove id = .ok (r, { p with
      children := without id p.children
      categories := p.categories.map (Category.without id) }.drop id) := by
  have detached : get? { p with
      children := without id p.children
      categories := p.categories.map (Category.without id) } id = some r := found
  have orphan : p.detach id none = { p with children := without id p.children } := rfl
  rw [remove_eq found, free, if_neg (Option.some_ne_none id).symm, orphan,
    unregister_leaf detached leaf]

/-- What is registered can be removed. -/
theorem exists_remove (known : p.contains id = true) : ∃ s p', p.remove id = .ok (s, p') := by
  obtain ⟨r, found⟩ : ∃ r, p.get? id = some r := Registry.contains_iff.1 known
  exact ⟨_, _, remove_eq found⟩

end Project

end ApiGraph
