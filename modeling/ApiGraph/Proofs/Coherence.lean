import ApiGraph.Project.Edit
import ApiGraph.Proofs.Decoded

/-!
# ApiGraph.Proofs.Coherence

What holds of a project at any time. A project is **coherent** if ids and kinds are as they should be,
every place in a list or slot is taken by a reflection that fits it and has the owner as its parent,
no id is listed twice, every reflection with a parent is listed by it, and symbols stand for
registered reflections.

Coherence alone is not kept by changes. A change is **sound** with respect to two lists of ids: the
type literals, which nothing lists and of which alone main types are made, and the work, which is
about to be unregistered and no longer listed, though its parents are still there.

* `Project.IsCoherent` — the invariant for readers.
* `Project.IsSound` — the invariant for changes, with `IsSound.isCoherent`.
* `isSound_new`, `isSound_project` — where runs start.
-/

namespace ApiGraph.Project

variable {p : Project} {literals work : List Id} {id owner : Id} {r o : Reflection} {q : Position}

/-- Owners and owned agree with each other, with the registry and with the symbols. -/
structure IsCoherent (p : Project) : Prop where
  numbered : ∀ id, p.contains id = true → 1 ≤ id ∧ id < p.nextId
  bounded : p.nextId ≤ maxId
  fits : ∀ id r, p.get? id = some r → r.body.role.accepts r.kind = true
  /-- What is listed is registered, in the role that its place asks for, and has the owner as its
  parent. -/
  placed : ∀ q ∈ p.listed, ∃ r, p.get? q.id = some r ∧ r.position q.id = q
  distinct : (p.listed.map Position.id).Nodup
  /-- Whoever has a parent is listed by it. -/
  owned : ∀ id r owner, p.get? id = some r → r.parent = some owner →
    ∃ o, p.get? owner = some o ∧ id ∈ (o.body.listed owner).map Position.id
  symbols : ∀ entry ∈ p.symbols, p.contains entry.2 = true
  symbolsDistinct : (p.symbols.map (·.1)).Nodup

/-- A coherent project but for the work, with its type literals. -/
structure IsSound (p : Project) (literals work : List Id) : Prop where
  next : 1 ≤ p.nextId ∧ p.nextId ≤ maxId
  numbered : ∀ id r, p.get? id = some r → 1 ≤ id ∧ id < p.nextId
  fits : ∀ id r, p.get? id = some r → r.body.role.accepts r.kind = true
  placed : ∀ q ∈ p.listed, ∃ r, p.get? q.id = some r ∧ r.position q.id = q
  topDistinct : p.children.Nodup
  distinct : ∀ owner o, p.get? owner = some o → ((o.body.listed owner).map Position.id).Nodup
  /-- Whoever has a parent is listed by it, or about to go. -/
  owned : ∀ id r owner, p.get? id = some r → r.parent = some owner →
    id ∈ work ∨ ∃ o, p.get? owner = some o ∧ id ∈ (o.body.listed owner).map Position.id
  loose : ∀ id ∈ work, id ∉ p.listed.map Position.id
  symbols : ∀ entry ∈ p.symbols, p.contains entry.2 = true
  symbolsDistinct : (p.symbols.map (·.1)).Nodup
  /-- Type literals are not new ids, and nothing lists them. -/
  unlisted : ∀ id ∈ literals, id < p.nextId ∧ id ∉ p.listed.map Position.id
  /-- A main type that is a reflection type names a type literal. -/
  mains : ∀ id r x, p.get? id = some r → r.typeLiteral? = some x → x ∈ literals

/-! ### Listed places -/

theorem mem_listed_top (child : id ∈ p.children) : Position.free id ∈ p.listed :=
  mem_listed.2 (.inl ⟨id, child, rfl⟩)

theorem mem_listed_of_owner (found : p.get? owner = some o) (mem : q ∈ o.body.listed owner) :
    q ∈ p.listed :=
  mem_listed.2 (.inr ⟨owner, o, found, mem⟩)

/-- A listed id is a child of the top level or listed by a registered reflection. -/
theorem mem_ids_listed : id ∈ p.listed.map Position.id ↔ id ∈ p.children ∨
    ∃ owner o, p.get? owner = some o ∧ id ∈ (o.body.listed owner).map Position.id := by
  simp only [List.mem_map, mem_listed]
  constructor
  · rintro ⟨q, ⟨x, child, rfl⟩ | ⟨owner, o, found, mem⟩, rfl⟩
    · exact .inl child
    · exact .inr ⟨owner, o, found, q, mem, rfl⟩
  · rintro (child | ⟨owner, o, found, q, mem, rfl⟩)
    · exact ⟨.free id, .inl ⟨id, child, rfl⟩, rfl⟩
    · exact ⟨q, .inr ⟨owner, o, found, mem⟩, rfl⟩

namespace IsSound

/-- Of a child of the top level the parent is missing. -/
theorem parent_of_child (h : p.IsSound literals work) (child : id ∈ p.children)
    (found : p.get? id = some r) : r.parent = none := by
  obtain ⟨r', found', placed⟩ := h.placed _ (mem_listed_top child)
  obtain rfl := Option.some.inj (found.symm.trans found')
  exact congrArg Position.owner placed

/-- Whoever lists a reflection is its parent. -/
theorem parent_of_listed (h : p.IsSound literals work) (foundOwner : p.get? owner = some o)
    (mem : id ∈ (o.body.listed owner).map Position.id) (found : p.get? id = some r) :
    r.parent = some owner := by
  obtain ⟨q, inside, rfl⟩ := List.mem_map.1 mem
  obtain ⟨r', found', placed⟩ := h.placed q (mem_listed_of_owner foundOwner inside)
  obtain rfl := Option.some.inj (found.symm.trans found')
  exact (congrArg Position.owner placed).trans (Body.owner_of_mem_listed inside)

/-- What is listed is registered. -/
theorem exists_of_listed (h : p.IsSound literals work) (mem : id ∈ p.listed.map Position.id) :
    ∃ r, p.get? id = some r := by
  obtain ⟨q, inside, rfl⟩ := List.mem_map.1 mem
  obtain ⟨r, found, -⟩ := h.placed q inside
  exact ⟨r, found⟩

/-- Only one reflection lists an id, its parent. -/
theorem lister_eq {other : Id} {o' : Reflection} (h : p.IsSound literals work)
    (found : p.get? owner = some o) (mem : id ∈ (o.body.listed owner).map Position.id)
    (found' : p.get? other = some o') (mem' : id ∈ (o'.body.listed other).map Position.id) :
    owner = other := by
  obtain ⟨r, foundId⟩ := h.exists_of_listed (mem_ids_listed.2 (.inr ⟨owner, o, found, mem⟩))
  have parent := h.parent_of_listed found mem foundId
  exact Option.some.inj (parent.symm.trans (h.parent_of_listed found' mem' foundId))

/-- What a reflection lists is no child of the top level. -/
theorem not_child_of_listed (h : p.IsSound literals work) (found : p.get? owner = some o)
    (mem : id ∈ (o.body.listed owner).map Position.id) : id ∉ p.children := by
  intro child
  obtain ⟨r, foundId⟩ := h.exists_of_listed (mem_ids_listed.2 (.inl child))
  have parent := h.parent_of_listed found mem foundId
  exact Option.some_ne_none owner (parent.symm.trans (h.parent_of_child child foundId))

/-- No id is listed twice, since there is only one parent. -/
theorem nodup_listed (h : p.IsSound literals work) : (p.listed.map Position.id).Nodup := by
  unfold listed
  rw [List.map_append, List.map_map, Position.id_comp_free, List.map_id', List.map_flatMap,
    List.nodup_append]
  refine ⟨h.topDistinct, List.nodup_flatMap.2 ⟨?_, ?_⟩, ?_⟩
  · intro e mem
    exact h.distinct e.1 e.2 (Registry.mem_entries_iff.1 mem)
  · have apart : p.registry.entries.Pairwise fun a b => a.1 ≠ b.1 :=
      List.pairwise_map.1 p.registry.nodup_ids
    refine apart.imp_of_mem fun {a b} memA memB differ => ?_
    intro id inA inB
    exact differ (h.lister_eq (Registry.mem_entries_iff.1 memA) inA
      (Registry.mem_entries_iff.1 memB) inB)
  · rintro id child x inside rfl
    obtain ⟨e, mem, inE⟩ := List.mem_flatMap.1 inside
    exact h.not_child_of_listed (Registry.mem_entries_iff.1 mem) inE child

/-- Without work left a sound project is coherent. -/
theorem isCoherent (h : p.IsSound literals []) : p.IsCoherent where
  numbered id known := by
    obtain ⟨r, found⟩ := Registry.contains_iff.1 known
    exact h.numbered id r found
  bounded := h.next.2
  fits := h.fits
  placed := h.placed
  distinct := h.nodup_listed
  owned id r owner found parent := (h.owned id r owner found parent).resolve_left List.not_mem_nil
  symbols := h.symbols
  symbolsDistinct := h.symbolsDistinct

end IsSound

/-! ### Where runs start -/

/-- A new project is sound, without any type literal. -/
theorem isSound_new (name : String) : IsSound { name } [] [] := by
  have start : (1 : Id) ≤ maxId := by decide
  have nothing (id : Id) (r : Reflection) : get? { name } id ≠ some r := nofun
  have unlisted : listed { name } = [] := rfl
  exact
    { next := ⟨Int.le_refl 1, start⟩
      numbered := fun id r found => (nothing id r found).elim
      fits := fun id r found => (nothing id r found).elim
      placed := by simp [unlisted]
      topDistinct := .nil
      distinct := fun owner o found => (nothing owner o found).elim
      owned := fun id r owner found => (nothing id r found).elim
      loose := nofun
      symbols := nofun
      symbolsDistinct := .nil
      unlisted := nofun
      mains := fun id r x found => (nothing id r found).elim }

/-- The main type is among the types that a reflection carries. -/
theorem mem_anonymous_of_typeLiteral? {x : Id} (h : r.typeLiteral? = some x) :
    x ∈ r.body.anonymous := by
  obtain ⟨t, type, literal⟩ := Option.bind_eq_some_iff.1 h
  obtain rfl : t = .reflection x := by
    cases t with
    | reflection id => exact congrArg TypeExpr.reflection (Option.some.inj literal)
    | _ => cases literal
  have here : x ∈ TypeExpr.anonymousOption r.body.type := by
    rw [show r.body.type = some (.reflection x) from type]
    exact List.mem_cons_self
  cases body : r.body with
  | parameter q => simpa [body, Body.type, Body.anonymous] using here
  | _ => exact List.mem_append_left _ (by simpa [body, Body.type] using here)

namespace IsForest

/-- Nothing is both listed and named by a type. -/
theorem notMem_listed (h : p.IsForest) (named : id ∈ p.anonymous) :
    id ∉ p.listed.map Position.id := by
  intro mem
  have once := (p.perm_positions.map Position.id).nodup_iff.1 h.once
  rw [List.map_append, List.nodup_append] at once
  exact once.2.2 id mem id (List.mem_map.2 ⟨.free id, List.mem_map_of_mem named, rfl⟩) rfl

theorem nodup_listed (h : p.IsForest) : (p.listed.map Position.id).Nodup := by
  have once := (p.perm_positions.map Position.id).nodup_iff.1 h.once
  rw [List.map_append, List.nodup_append] at once
  exact once.1

theorem placed_listed (h : p.IsForest) (mem : q ∈ p.listed) :
    ∃ r, p.get? q.id = some r ∧ r.position q.id = q :=
  h.placed q (p.perm_positions.mem_iff.2 (List.mem_append_left _ mem))

/-- In a forest whoever has a parent is listed by it. -/
theorem listed_of_parent (h : p.IsForest) (found : p.get? id = some r)
    (parent : r.parent = some owner) :
    ∃ o, p.get? owner = some o ∧ id ∈ (o.body.listed owner).map Position.id := by
  obtain ⟨q, mem, rfl⟩ := List.mem_map.1 (h.covers id (Registry.contains_iff.2 ⟨r, found⟩))
  obtain ⟨r', found', placed⟩ := h.placed q mem
  obtain rfl := Option.some.inj (found.symm.trans found')
  have isOwner : q.owner = some owner := (congrArg Position.owner placed).symm.trans parent
  rcases List.mem_append.1 (p.perm_positions.mem_iff.1 mem) with mem | mem
  · obtain ⟨x, -, rfl⟩ | ⟨owner', o, foundOwner, inside⟩ := mem_listed.1 mem
    · cases isOwner
    · obtain rfl := Option.some.inj (isOwner.symm.trans (Body.owner_of_mem_listed inside))
      exact ⟨o, foundOwner, List.mem_map_of_mem inside⟩
  · -- what a type names has no parent
    obtain ⟨x, -, rfl⟩ := List.mem_map.1 mem
    cases isOwner

end IsForest

/-- A decoded project is sound; its type literals are the declarations that its types name. -/
theorem isSound_project {root : WireReflection} (h : root.IsProject) :
    root.project.IsSound root.project.anonymous [] := by
  have forest := WireReflection.isForest_project h
  have admissible := WireReflection.isAdmissible_project h
  have before (id : Id) (r : Reflection) (found : root.project.get? id = some r) :
      id < root.project.nextId := by
    obtain ⟨q, mem, rfl⟩ := List.mem_map.1
      (WireReflection.contains_project.1 (Registry.contains_iff.2 ⟨r, found⟩))
    exact Decoding.lt_nextId_fill mem
  have listed := forest.nodup_listed
  unfold Project.listed at listed
  rw [List.map_append, List.map_map, List.map_flatMap, List.nodup_append, List.nodup_flatMap]
    at listed
  exact
    { next := by
        have start : (1 : Id) ≤ maxId := by decide
        refine ⟨Decoding.le_nextId_fill root.start _, Decoding.nextId_fill_le start ?_⟩
        intro q mem
        have valid : q.IsValid := h.valid (.object q) (mem_placements.1 mem)
        have bounded := valid.bounded
        grind
      numbered := fun id r found => ⟨(admissible id r found).positive, before id r found⟩
      fits := fun id r found => (admissible id r found).fits
      placed := fun q mem => forest.placed_listed mem
      topDistinct := by simpa [Function.comp_def] using listed.1
      distinct := fun owner o found =>
        listed.2.1.1 (owner, o) (Registry.mem_entries_iff.2 found)
      owned := fun id r owner found parent => .inr (forest.listed_of_parent found parent)
      loose := nofun
      symbols := by simp
      symbolsDistinct := by simp
      unlisted := by
        intro id named
        refine ⟨?_, forest.notMem_listed named⟩
        have inside : Position.free id ∈ root.project.positions :=
          root.project.perm_positions.mem_iff.2
            (List.mem_append_right _ (List.mem_map_of_mem named))
        obtain ⟨r, found, -⟩ := forest.placed _ inside
        exact before id r found
      mains := fun id r x found literal =>
        mem_anonymous.2 ⟨id, r, found, mem_anonymous_of_typeLiteral? literal⟩ }

end ApiGraph.Project
