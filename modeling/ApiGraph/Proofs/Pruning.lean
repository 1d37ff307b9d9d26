import ApiGraph.Proofs.Naming

/-!
# ApiGraph.Proofs.Pruning

Removing from a decoded project. A type literal may be removed like any other reflection, but the
type that names it keeps the name, since only lists and slots are searched for it. Encoding such a type
fails; nothing else that is removed gets in the way.

* `Project.removeAll` — removals in turn.
* `Project.IsPruned` — what they leave of a decoded project, with `IsPruned.remove` for one of them.
* `IsPruned.exists_toWire_iff` — a pruned project is encoded unless it names what was removed.
* `exists_toWire_removeAll_iff` — the same for any removals from a decoded project.
-/

namespace ApiGraph

namespace Project

variable {p p' : Project} {literals removed ids : List Id} {id owner x : Id} {r : Reflection}
  {config : Config}

/-- Removes the reflections under some ids in turn. -/
def removeAll (p : Project) : List Id → Except Error Project
  | [] => return p
  | id :: ids => do
    let (_, p) ← p.remove id
    p.removeAll ids

theorem removeAll_singleton (removed : p.remove id = .ok (r, p')) :
    p.removeAll [id] = .ok p' := by
  rw [removeAll, removed]
  rfl

/-- A project from which some ids were removed. Nothing is named twice or on a cycle, and what is named
is registered or was removed. -/
structure IsPruned (p : Project) (literals removed : List Id) : Prop where
  sound : p.IsSound literals []
  names : p.NamesLiterals literals
  once : p.NamesOnce fun _ => True
  acyclic : ∀ id, ¬Relation.TransGen p.Owns id id
  gone : ∀ id ∈ removed, p.contains id ≠ true
  named : ∀ owner, ∀ id ∈ p.named owner, p.contains id = true ∨ id ∈ removed

/-! ### Decoded projects -/

theorem IsForest.nodup_anonymous (h : p.IsForest) : p.anonymous.Nodup := by
  have once := (p.perm_positions.map Position.id).nodup_iff.1 h.once
  rw [List.map_append, List.nodup_append, List.map_map, Position.id_comp_free, List.map_id'] at once
  exact once.2.1

/-- From a decoded project nothing was removed yet. -/
theorem isPruned_project {root : WireReflection} (h : root.IsProject) :
    root.project.IsPruned root.project.anonymous [] := by
  have forest := WireReflection.isForest_project h
  exact
    { sound := isSound_project h
      names := namesLiterals_project h
      once := namesOnce_of_nodup forest.nodup_anonymous
      acyclic := forest.acyclic
      gone := nofun
      named := fun owner id named => .inl (forest.contains_of_owns (owns_iff.2 (.inr named))) }

/-! ### One removal -/

namespace IsRemoval

variable (h : p.IsRemoval id r p')
include h

/-- What stays names what it named. -/
theorem named_of_stays (stays : ¬p.Goes [id] owner) : p'.named owner = p.named owner := by
  cases found : p.get? owner with
  | none =>
      have missing : p'.get? owner = none := by rw [h.stays owner stays, found, Option.map_none]
      rw [named, named, found, missing]
  | some o =>
      have after := h.stays owner stays
      rw [found, Option.map_some] at after
      rw [named_eq found, named_eq after]
      split
      · exact Body.anonymous_detach id o.body
      · rfl

/-- What does not go names what it named before, and nothing else names anything. -/
theorem named_cases (owner : Id) :
    p'.named owner = [] ∨ ¬p.Goes [id] owner ∧ p'.named owner = p.named owner := by
  by_cases goes : p.Goes [id] owner
  · exact .inl (by rw [named, h.gone owner goes, Option.elim_none])
  · exact .inr ⟨goes, h.named_of_stays goes⟩

theorem of_mem_named (mem : x ∈ p'.named owner) : ¬p.Goes [id] owner ∧ x ∈ p.named owner := by
  rcases h.named_cases owner with none | ⟨stays, same⟩
  · rw [none] at mem
    cases mem
  · exact ⟨stays, same ▸ mem⟩

/-- What is still owned was owned before. -/
theorem of_owns (owned : p'.Owns owner x) : p.Owns owner x := by
  rcases owns_iff.1 owned with ⟨o, found, inside⟩ | named
  · obtain ⟨-, o', before, rfl⟩ := h.exists_of_get? found
    refine owns_iff.2 (.inl ⟨o', before, ?_⟩)
    split at inside
    · exact ((Reflection.mem_listed_detach owner).1 inside).1
    · exact inside
  · exact owns_iff.2 (.inr (h.of_mem_named named).2)

end IsRemoval

/-- Whoever takes something along owns it. -/
theorem TakesAlong.owns (h : p.TakesAlong owner id) : p.Owns owner id := by
  obtain ⟨o, found, owned⟩ := h
  refine owns_iff.2 ?_
  rcases (Reflection.mem_owned owner).1 owned with literal | listed
  · exact .inr (named_eq found ▸ mem_anonymous_of_typeLiteral? literal)
  · exact .inl ⟨o, found, listed⟩

namespace IsPruned

/-- What is owned by two, one of them by its types, has a single owner. -/
theorem owner_eq {other : Id} (h : p.IsPruned literals removed) (named : x ∈ p.named owner)
    (owned : p.Owns other x) : owner = other :=
  have once := (h.sound.holdsOnce_iff h.names).2 h.once
  once.unique x owner other trivial trivial (owns_iff.2 (.inr named)) owned

/-- Of what goes with a removal, only the id itself may still be named. -/
theorem remove (h : p.IsPruned literals removed) (done : p.remove id = .ok (r, p')) :
    p'.IsPruned literals (id :: removed) := by
  obtain ⟨o, removal⟩ := isRemoval_of_remove done
  refine
    { sound := h.sound.remove done
      names := h.names.follow (.remove [] done) nofun
      once := ?once
      acyclic := ?acyclic
      gone := ?gone
      named := ?named }
  case once =>
    refine ⟨fun owner _ => ?_, fun x owner other _ _ mem mem' => ?_⟩
    · rcases removal.named_cases owner with none | ⟨-, same⟩
      · exact none ▸ .nil
      · exact same ▸ h.once.each owner trivial
    · exact h.once.unique x owner other trivial trivial (removal.of_mem_named mem).2
        (removal.of_mem_named mem').2
  case acyclic =>
    intro x cycle
    exact h.acyclic x (Relation.TransGen.mono (fun _ _ => removal.of_owns) x x cycle)
  case gone =>
    intro x mem known
    rcases List.mem_cons.1 mem with rfl | before
    · exact removal.not_contains known
    · exact h.gone x before (removal.contains_iff.1 known).1
  case named =>
    intro owner x mem
    obtain ⟨stays, before⟩ := removal.of_mem_named mem
    rcases h.named owner x before with known | old
    · by_cases goes : p.Goes [id] x
      · cases goes with
        | work here => exact .inr (List.mem_cons.2 (.inl (List.mem_singleton.1 here)))
        | along gone taken =>
            -- whatever took it along was the only one to name it
            exact absurd (h.owner_eq before taken.owns ▸ gone) stays
      · exact .inl (removal.contains_iff.2 ⟨known, goes⟩)
    · exact .inr (List.mem_cons_of_mem _ old)

/-- Several removals, one after the other. -/
theorem removeAll (h : p.IsPruned literals removed) (done : p.removeAll ids = .ok p') :
    p'.IsPruned literals (ids.reverse ++ removed) := by
  induction ids generalizing p removed with
  | nil =>
      obtain rfl := Except.ok.inj done
      exact h
  | cons id ids ih =>
      obtain ⟨⟨r, p₁⟩, first, rest⟩ := exists_of_bind_ok done
      rw [List.reverse_cons, List.append_assoc]
      exact ih (h.remove first) rest

/-! ### Encoding what is left -/

/-- Where nothing reached names what was removed, everything reached is registered. -/
theorem contains_of_reaches (h : p.IsPruned literals removed)
    (kept : ∀ id ∈ removed, ∀ owner, p.Reaches owner → id ∉ p.named owner) (reached : p.Reaches x) :
    p.contains x = true := by
  have listed {y : Id} (mem : y ∈ p.listed.map Position.id) : p.contains y = true := by
    obtain ⟨r, found⟩ := h.sound.exists_of_listed mem
    exact Registry.contains_iff.2 ⟨r, found⟩
  rcases reached.cases with child | ⟨owner, before, owned⟩
  · exact listed (mem_ids_listed.2 (.inl child))
  · rcases owns_iff.1 owned with ⟨o, found, inside⟩ | named
    · exact listed (mem_ids_listed.2 (.inr ⟨owner, o, found, inside⟩))
    · exact (h.named owner x named).resolve_right fun gone => kept x gone owner before named

/-- **A pruned project is encoded exactly if nothing that the top level reaches names an id that was
removed.** -/
theorem exists_toWire_iff (h : p.IsPruned literals removed) (config : Config) :
    (∃ document, p.toWire config = .ok document) ↔
      ∀ id ∈ removed, ∀ owner, p.Reaches owner → id ∉ p.named owner := by
  constructor
  · rintro ⟨document, written⟩ id gone owner reached named
    obtain ⟨top, -⟩ := toWire_eq_ok_iff.1 written
    have here : p.HasDocument config id :=
      (reached.hasDocument top).owned (owns_iff.2 (.inr named))
    exact h.gone id gone here.contains
  · intro kept
    have placed := h.sound.isPlaced h.names
    have top : ∀ q ∈ p.children.map Position.free, ∃ l, p.PostOrder [q] l := by
      intro q mem
      obtain ⟨child, inside, rfl⟩ := List.mem_map.1 mem
      exact placed.exists_postOrder h.acyclic (fun _ => h.contains_of_reaches kept)
        (fun _ _ before owned => before.step owned) _ (mem_positions_top inside) (.top inside)
    obtain ⟨l, order⟩ := PostOrder.exists_of_forall top
    have once := (h.sound.holdsOnce_iff h.names).2 h.once
    have distinct := order.nodup_iff_holdsOnce.2 (once.mono fun _ _ => trivial)
    refine ⟨_, toWire_eq_ok_iff.2 ⟨fun id child => ?_, rfl⟩⟩
    obtain ⟨q, mem, rfl⟩ := List.mem_map.1 (order.mem_iff_reaches.2 (.top child))
    exact order.hasDocument distinct q mem

end IsPruned

end Project

/-- **Removals keep a decoded project encodable exactly if they leave no type that names what was
removed**, among all that is still reached from the top level. -/
theorem exists_toWire_removeAll_iff (root : WireReflection) (p p' : Project) (ids : List Id)
    (config : Config) (decoded : Project.ofWire root = .ok p) (removed : p.removeAll ids = .ok p') :
    (∃ document, p'.toWire config = .ok document) ↔
      ∀ id ∈ ids, ∀ owner, p'.Reaches owner → id ∉ p'.named owner := by
  obtain ⟨valid, rfl⟩ := ofWire_eq_ok_iff.1 decoded
  have pruned := (Project.isPruned_project valid).removeAll removed
  rw [pruned.exists_toWire_iff config]
  simp

/-- Once the variable of the example document is removed, nothing names its type. -/
theorem exists_toWire_withoutVariable : ∃ p' document,
    optionsDocument.project.removeAll [1] = .ok p' ∧ p'.toWire {} = .ok document := by
  have decoded : Project.ofWire optionsDocument = .ok optionsDocument.project :=
    ofWire_eq_ok_iff.2 ⟨isProject_optionsDocument, rfl⟩
  obtain ⟨s, p', removed⟩ : ∃ s p', optionsDocument.project.remove 1 = .ok (s, p') :=
    Project.exists_remove (by decide)
  have all := Project.removeAll_singleton removed
  have empty : p'.children = [] := by
    obtain ⟨r, removal⟩ := Project.isRemoval_of_remove removed
    have found : optionsDocument.project.get? 1 = some _ := rfl
    obtain rfl := Option.some.inj (found.symm.trans removal.found)
    exact removal.children
  have nothing (owner : Id) : ¬p'.Reaches owner := by
    rintro ⟨top, child, -⟩
    rw [empty] at child
    cases child
  obtain ⟨document, written⟩ :=
    (exists_toWire_removeAll_iff optionsDocument optionsDocument.project p' [1] {} decoded all).2
      fun _ _ owner reached => absurd reached (nothing owner)
  exact ⟨p', document, all, written⟩

/-- When its type is removed, the variable still names it. -/
theorem toWire_withoutLiteral : ∃ p p', Project.ofWire optionsDocument = .ok p ∧
    p.removeAll [2] = .ok p' ∧ p'.toWire {} = .error (.unknownReflection 2) := by
  have decoded : Project.ofWire optionsDocument = .ok optionsDocument.project :=
    ofWire_eq_ok_iff.2 ⟨isProject_optionsDocument, rfl⟩
  have removed : optionsDocument.project.remove 2 = .ok (_, _) := Project.remove_leaf rfl rfl rfl
  exact ⟨_, _, decoded, Project.removeAll_singleton removed, rfl⟩

end ApiGraph
