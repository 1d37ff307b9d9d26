import ApiGraph.Proofs.Members
import ApiGraph.Proofs.Pruning

/-!
# ApiGraph.Proofs.Orphans

What a removal leaves behind. A reflection owns whatever its types name at any depth, but takes a type
literal along only if that is its whole main type. A literal in an array, an argument or a default stays
registered, with everything that it owns, and nothing reaches it any more.

* `path_of_goes` — what goes was owned by the removed reflection.
* `IsRemoval.reaches_iff` — what is still reached is what was not owned by it.
* `reaches_of_remove_iff` — when a removal leaves nothing behind.
-/

namespace ApiGraph

namespace Project

variable {p p' : Project} {literals : List Id} {id owner x : Id} {r : Reflection}

/-- What goes with an id is owned by it, directly or through others. -/
theorem path_of_goes (goes : p.Goes [id] x) : Relation.ReflTransGen p.Owns id x :=
  Relation.ReflTransGen.mono (fun _ _ taken => taken.owns) id x (goes_iff_path.1 goes)

namespace IsRemoval

variable (h : p.IsRemoval id r p')
include h

/-- What stays owns what it owned, but for the removed id. -/
theorem owns_of_stays (stays : ¬p.Goes [id] owner) (owned : p.Owns owner x) (other : x ≠ id) :
    p'.Owns owner x := by
  rcases owns_iff.1 owned with ⟨o, found, inside⟩ | named
  · have after := h.stays owner stays
    rw [found, Option.map_some] at after
    refine owns_iff.2 (.inl ⟨_, after, ?_⟩)
    split
    · exact (Reflection.mem_listed_detach owner).2 ⟨inside, other⟩
    · exact inside
  · exact owns_iff.2 (.inr (h.named_of_stays stays ▸ named))

section

variable (sound : p.IsSound literals [])
include sound

/-- What was reached and not owned by the removed reflection is still reached. -/
theorem reaches_of_not_path (reached : p.Reaches x) (apart : ¬Relation.ReflTransGen p.Owns id x) :
    p'.Reaches x := by
  have children := h.children.trans (sound.children_detach h.found)
  obtain ⟨top, child, path⟩ := reached
  induction path with
  | refl =>
      have other : top ≠ id := by
        rintro rfl
        exact apart .refl
      refine .top ?_
      rw [children]
      exact List.mem_filter.2 ⟨child, by simpa using other⟩
  | @tail owner x _ owned ih =>
      have other : x ≠ id := by
        rintro rfl
        exact apart .refl
      have above : ¬Relation.ReflTransGen p.Owns id owner := fun path => apart (path.tail owned)
      have stays : ¬p.Goes [id] owner := fun goes => above (path_of_goes goes)
      exact (ih above).step (h.owns_of_stays stays owned other)

variable (forest : p.IsForest)
include forest

/-- What is reached after the removal and does not go was not owned by the removed reflection. -/
theorem not_path_of_reaches (reached : p'.Reaches x) (stays : ¬p.Goes [id] x) :
    ¬Relation.ReflTransGen p.Owns id x := by
  have once := forest.holdsOnce
  have children := h.children.trans (sound.children_detach h.found)
  obtain ⟨top, child, path⟩ := reached
  -- the path upwards is the only one, and it never meets the removed reflection
  induction path with
  | refl =>
      intro below
      rw [children] at child
      rcases below.cases_tail with rfl | ⟨owner, -, owned⟩
      · exact stays (.work List.mem_cons_self)
      · exact once.apart top (List.mem_filter.1 child).1 owner trivial owned
  | @tail owner x _ owned ih =>
      intro below
      have before := h.of_owns owned
      rcases below.cases_tail with rfl | ⟨other, path, owned'⟩
      · exact stays (.work List.mem_cons_self)
      · obtain rfl := once.unique x owner other trivial trivial before owned'
        exact ih (h.contains_iff.1 owned.contains).2 path

/-- **Of what is still registered, exactly that is reached which the removed reflection did not own.** -/
theorem reaches_iff (known : p'.contains x = true) :
    p'.Reaches x ↔ ¬Relation.ReflTransGen p.Owns id x := by
  obtain ⟨before, stays⟩ := h.contains_iff.1 known
  constructor
  · intro reached
    exact h.not_path_of_reaches sound forest reached stays
  · intro apart
    exact h.reaches_of_not_path sound (forest.reaches x (Registry.mem_ids_iff.2 before)) apart

/-- All that is registered is reached exactly if whatever goes names nothing but its type literal. -/
theorem forall_reaches_iff : (∀ x, p'.contains x = true → p'.Reaches x) ↔
    ∀ owner, p.Goes [id] owner → ∀ x ∈ p.named owner,
      (p.get? owner).bind Reflection.typeLiteral? = some x := by
  have once := forest.holdsOnce
  constructor
  · intro all owner goes x named
    have owned : p.Owns owner x := owns_iff.2 (.inr named)
    have below : Relation.ReflTransGen p.Owns id x := (path_of_goes goes).tail owned
    have gone : p.Goes [id] x := by
      by_contra stays
      have known := h.contains_iff.2 ⟨forest.contains_of_owns owned, stays⟩
      exact (h.reaches_iff sound forest known).1 (all x known) below
    -- it went along with its only owner, which does not list what it names
    cases gone with
    | work mem =>
        obtain rfl := List.mem_singleton.1 mem
        exact absurd (.tail' (path_of_goes goes) owned) (forest.acyclic x)
    | @along other _ _ taken =>
        obtain rfl := once.unique x owner other trivial trivial owned taken.owns
        obtain ⟨o, found, inside⟩ := taken
        rw [found, Option.bind_some]
        refine ((Reflection.mem_owned owner).1 inside).resolve_right fun listed => ?_
        rw [named_eq found] at named
        exact forest.notMem_listed (mem_anonymous.2 ⟨owner, o, found, named⟩)
          (mem_ids_listed.2 (.inr ⟨owner, o, found, listed⟩))
  · intro whole x known
    refine (h.reaches_iff sound forest known).2 fun below => (h.contains_iff.1 known).2 ?_
    clear known
    induction below with
    | refl => exact .work List.mem_cons_self
    | @tail owner x _ owned goes =>
        refine .along goes ?_
        rcases owns_iff.1 owned with ⟨o, found, listed⟩ | named
        · exact ⟨o, found, (Reflection.mem_owned owner).2 (.inr listed)⟩
        · obtain ⟨o, found, literal⟩ := Option.bind_eq_some_iff.1 (whole owner goes x named)
          exact ⟨o, found, (Reflection.mem_owned owner).2 (.inl literal)⟩

end

end IsRemoval

end Project

/-- **When a removal leaves nothing behind.** The top level of a decoded project reaches everything that
is registered. After a removal, of what is registered it reaches exactly what the removed reflection did
not own; so it reaches everything exactly if each declaration that is named by a type of what went is the
whole main type there. -/
theorem reaches_of_remove_iff (root : WireReflection) (p : Project)
    (decoded : Project.ofWire root = .ok p) : (∀ x, p.contains x = true → p.Reaches x) ∧
      ∀ id r p', p.remove id = .ok (r, p') →
        (∀ x, p'.contains x = true → (p'.Reaches x ↔ ¬Relation.ReflTransGen p.Owns id x)) ∧
        ((∀ x, p'.contains x = true → p'.Reaches x) ↔
          ∀ owner, p.Goes [id] owner → ∀ x ∈ p.named owner,
            (p.get? owner).bind Reflection.typeLiteral? = some x) := by
  obtain ⟨valid, rfl⟩ := ofWire_eq_ok_iff.1 decoded
  have forest := WireReflection.isForest_project valid
  have sound := Project.isSound_project valid
  refine ⟨fun x known => forest.reaches x (Registry.mem_ids_iff.2 known), ?_⟩
  intro id r p' removed
  obtain ⟨o, removal⟩ := Project.isRemoval_of_remove removed
  exact ⟨fun x known => removal.reaches_iff sound forest known,
    removal.forall_reaches_iff sound forest⟩

/-- With the variable of the example document goes its type, and nothing is left behind. -/
theorem reaches_withoutVariable : ∃ p r p', Project.ofWire optionsDocument = .ok p ∧
    p.remove 1 = .ok (r, p') ∧ ∀ x, p'.contains x = true → p'.Reaches x := by
  have decoded : Project.ofWire optionsDocument = .ok optionsDocument.project :=
    ofWire_eq_ok_iff.2 ⟨isProject_optionsDocument, rfl⟩
  obtain ⟨r, p', removed⟩ : ∃ r p', optionsDocument.project.remove 1 = .ok (r, p') :=
    Project.exists_remove (by decide)
  obtain ⟨-, removals⟩ := reaches_of_remove_iff optionsDocument optionsDocument.project decoded
  refine ⟨_, r, p', decoded, removed, (removals 1 r p' removed).2.2 fun owner _ x named => ?_⟩
  -- only the variable names anything
  obtain ⟨o, found, inside⟩ := Project.exists_of_mem_named named
  have all : optionsDocument.project.registry.entries.map
      (fun e => (e.1, e.2.body.anonymous)) = [(1, [2]), (2, [])] := rfl
  have entry := List.mem_map_of_mem (f := fun e : Id × Reflection => (e.1, e.2.body.anonymous))
    (Registry.mem_entries_iff.2 found)
  rw [all] at entry
  rcases List.mem_cons.1 entry with same | entry
  · obtain ⟨rfl, names⟩ := Prod.mk.inj same
    rw [names] at inside
    obtain rfl := List.mem_singleton.1 inside
    rfl
  · obtain ⟨rfl, names⟩ := Prod.mk.inj (List.mem_singleton.1 entry)
    rw [names] at inside
    cases inside

/-- A variable whose type is an array of an anonymous declaration. -/
def optionsList : WireReflection :=
  .mk { id := 1, name := "options", kind := 0x20 } none none none none none none none
    (some (.array (.reflection typeLiteral))) none none none none none none false

/-- When the variable goes, the declaration in its type stays, and nothing reaches it. -/
theorem not_reaches_withoutList : ∃ p r p', Project.ofWire (libraryOf [optionsList]) = .ok p ∧
    p.remove 1 = .ok (r, p') ∧ p'.contains 2 = true ∧ ¬p'.Reaches 2 := by
  have removed : (libraryOf [optionsList]).project.remove 1 = .ok (_, _) :=
    Project.remove_leaf rfl rfl rfl
  refine ⟨_, _, _, rfl, removed, rfl, ?_⟩
  rintro ⟨top, child, -⟩
  cases child

end ApiGraph
