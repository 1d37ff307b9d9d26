import ApiGraph.Proofs.Coherence

/-!
# ApiGraph.Proofs.Unregister

Removing keeps a project sound. What goes is first detached, which makes it the work, and then dropped
step by step. A dropped reflection leaves what it owned as further work: nothing else listed it, and
nothing at all lists a type literal.

* `Project.IsPartOf` — a project with the same reflections or fewer, and with the same lists or shorter
  ones.
* `IsSound.shrink` — when a change to such a project is sound.
* `IsSound.drop`, `IsSound.unregister`, `IsSound.remove` — one step, all steps, and the whole removal.
-/

namespace ApiGraph

namespace Reflection

variable {id : Id} {r' r : Reflection}

/-- A reflection in the same place and role as another. -/
structure Resembles (r' r : Reflection) : Prop where
  parent : r'.parent = r.parent
  kind : r'.kind = r.kind
  role : r'.body.role = r.body.role

/-- A reflection with the same lists as another it resembles, or shorter ones. -/
structure IsPartOf (id : Id) (r' r : Reflection) : Prop extends r'.Resembles r where
  listed : (r'.body.listed id).Sublist (r.body.listed id)

theorem Resembles.refl (r : Reflection) : r.Resembles r := ⟨rfl, rfl, rfl⟩

theorem IsPartOf.refl (id : Id) (r : Reflection) : r.IsPartOf id r := ⟨.refl r, .refl _⟩

theorem Resembles.position_eq (h : r'.Resembles r) (id : Id) : r'.position id = r.position id := by
  rw [position, position, h.role, h.parent]

end Reflection

/-! ### Detaching from bodies -/

@[simp] theorem toList_vacate (id : Id) (slot : Option Id) :
    (vacate id slot).toList = slot.toList.filter (· != id) := by
  cases slot with
  | none => simp [vacate]
  | some x => by_cases same : x = id <;> simp [vacate, same]

namespace Body

@[simp] theorem role_detach (id : Id) (b : Body) : (b.detach id).role = b.role := by
  cases b <;> rfl

@[simp] theorem type_detach (id : Id) (b : Body) : (b.detach id).type = b.type := by
  cases b <;> rfl

/-- Detaching takes the id out of every list and slot. -/
theorem listed_detach (self id : Id) (b : Body) :
    (b.detach id).listed self = (b.listed self).filter (·.id != id) := by
  have under (role : Role) :
      (fun q : Position => q.id != id) ∘ Position.under self role = (· != id) := rfl
  cases b <;> simp [detach, listed, without, List.filter_map, under]

end Body

/-- A reflection owns its type literal and what it lists. -/
theorem Reflection.mem_owned {r : Reflection} {x : Id} (self : Id) :
    x ∈ r.owned ↔ r.typeLiteral? = some x ∨ x ∈ (r.body.listed self).map Position.id := by
  cases body : r.body <;> simp [owned, Body.listed, body, Position.id_comp_under]

namespace Project

variable {p p' : Project} {literals work rest : List Id} {id owner : Id} {r : Reflection}

/-! ### Smaller projects -/

/-- A project with the same reflections or fewer, and with the same lists or shorter ones. -/
structure IsPartOf (p' p : Project) : Prop where
  next : p'.nextId = p.nextId
  children : p'.children.Sublist p.children
  kept : ∀ id r', p'.get? id = some r' → ∃ r, p.get? id = some r ∧ r'.IsPartOf id r

theorem IsPartOf.mem_listed {q : Position} (h : p'.IsPartOf p) (mem : q ∈ p'.listed) :
    q ∈ p.listed := by
  obtain ⟨x, child, rfl⟩ | ⟨owner, o', found', inside⟩ := Project.mem_listed.1 mem
  · exact mem_listed_top (h.children.subset child)
  · obtain ⟨o, found, part⟩ := h.kept owner o' found'
    exact mem_listed_of_owner found (part.listed.subset inside)

/-- A part of a sound project is sound if nothing that it still lists has gone, and whoever lost its
owner is work. -/
theorem IsSound.shrink {work' : List Id} (h : p.IsSound literals work) (part : p'.IsPartOf p)
    (remains : ∀ q ∈ p'.listed, p'.contains q.id = true)
    (owned : ∀ id r owner, p'.get? id = some r → r.parent = some owner →
      id ∈ work' ∨ ∃ o, p'.get? owner = some o ∧ id ∈ (o.body.listed owner).map Position.id)
    (loose : ∀ id ∈ work', id ∉ p'.listed.map Position.id)
    (symbols : ∀ entry ∈ p'.symbols, p'.contains entry.2 = true)
    (symbolsDistinct : (p'.symbols.map (·.1)).Nodup)
    (mains : ∀ id r x, p'.get? id = some r → r.typeLiteral? = some x → x ∈ literals) :
    p'.IsSound literals work' where
  next := part.next ▸ h.next
  numbered id r' found' := by
    obtain ⟨r, found, -⟩ := part.kept id r' found'
    exact part.next ▸ h.numbered id r found
  fits id r' found' := by
    obtain ⟨r, found, same⟩ := part.kept id r' found'
    rw [same.role, same.kind]
    exact h.fits id r found
  placed q mem := by
    obtain ⟨r', found'⟩ := Registry.contains_iff.1 (remains q mem)
    obtain ⟨r, found, same⟩ := part.kept q.id r' found'
    obtain ⟨s, foundS, placed⟩ := h.placed q (part.mem_listed mem)
    obtain rfl := Option.some.inj (found.symm.trans foundS)
    exact ⟨r', found', (same.position_eq q.id).trans placed⟩
  topDistinct := part.children.nodup h.topDistinct
  distinct owner o' found' := by
    obtain ⟨o, found, same⟩ := part.kept owner o' found'
    exact (same.listed.map Position.id).nodup (h.distinct owner o found)
  owned := owned
  loose := loose
  symbols := symbols
  symbolsDistinct := symbolsDistinct
  unlisted x literal := by
    obtain ⟨before, unlisted⟩ := h.unlisted x literal
    refine ⟨part.next ▸ before, fun mem => unlisted ?_⟩
    obtain ⟨q, inside, rfl⟩ := List.mem_map.1 mem
    exact List.mem_map_of_mem (part.mem_listed inside)
  mains := mains

/-! ### Dropping -/

@[simp] theorem get?_drop (p : Project) (id x : Id) :
    (p.drop id).get? x = if x = id then none else p.get? x :=
  Registry.get?_erase _ _ _

/-- What a project drops is a part of what it was. -/
theorem isPartOf_drop (p : Project) (id : Id) : (p.drop id).IsPartOf p where
  next := rfl
  children := .refl _
  kept x r' found' := by
    rw [get?_drop] at found'
    split at found'
    · cases found'
    · exact ⟨r', found', .refl x r'⟩

/-- Dropping the first of the work leaves what it owned as further work. -/
theorem IsSound.drop (h : p.IsSound literals (id :: rest)) (found : p.get? id = some r) :
    (p.drop id).IsSound literals (r.owned ++ rest) := by
  have part := isPartOf_drop p id
  have gone : id ∉ p.listed.map Position.id := h.loose id List.mem_cons_self
  have others {x : Id} (other : x ≠ id) : (p.drop id).get? x = p.get? x := by
    rw [get?_drop, if_neg other]
  have before {x : Id} {s : Reflection} (found' : (p.drop id).get? x = some s) :
      x ≠ id ∧ p.get? x = some s := by
    rw [get?_drop] at found'
    split at found'
    · cases found'
    · exact ⟨‹_›, found'⟩
  refine h.shrink part ?remains ?owned ?loose ?symbols ?distinct ?mains
  case remains =>
    intro q mem
    obtain ⟨s, foundQ, -⟩ := h.placed q (part.mem_listed mem)
    have other : q.id ≠ id := fun same =>
      gone (same ▸ List.mem_map_of_mem (part.mem_listed mem))
    exact Registry.contains_iff.2 ⟨s, (others other).trans foundQ⟩
  case owned =>
    intro x s owner found' parent
    obtain ⟨other, foundX⟩ := before found'
    rcases h.owned x s owner foundX parent with inWork | ⟨o, foundOwner, listed⟩
    · exact .inl (List.mem_append_right _ (List.mem_of_ne_of_mem other inWork))
    · by_cases same : owner = id
      · -- whatever the dropped reflection listed is further work
        subst same
        obtain rfl := Option.some.inj (found.symm.trans foundOwner)
        exact .inl (List.mem_append_left _ ((Reflection.mem_owned owner).2 (.inr listed)))
      · exact .inr ⟨o, (others same).trans foundOwner, listed⟩
  case loose =>
    intro x mem inside
    obtain ⟨q, insideQ, rfl⟩ := List.mem_map.1 inside
    have listedBefore := List.mem_map_of_mem (f := Position.id) (part.mem_listed insideQ)
    rcases List.mem_append.1 mem with owned | inRest
    · rcases (Reflection.mem_owned id).1 owned with literal | listed
      · exact (h.unlisted q.id (h.mains id r q.id found literal)).2 listedBefore
      · -- only the dropped reflection listed it
        rcases mem_ids_listed.1 inside with child | ⟨owner, o, foundOwner, listed'⟩
        · exact h.not_child_of_listed found listed child
        · obtain ⟨other, foundOwner⟩ := before foundOwner
          exact other (h.lister_eq foundOwner listed' found listed)
    · exact h.loose q.id (List.mem_cons_of_mem _ inRest) listedBefore
  case symbols =>
    intro entry mem
    obtain ⟨known, other⟩ := List.mem_filter.1 mem
    obtain ⟨s, foundS⟩ := Registry.contains_iff.1 (h.symbols entry known)
    exact Registry.contains_iff.2 ⟨s, (others (by simpa using other)).trans foundS⟩
  case distinct => exact (List.filter_sublist.map _).nodup h.symbolsDistinct
  case mains => exact fun x s literal found' => h.mains x s literal (before found').2

/-- Work that is not registered is done. -/
theorem IsSound.skip (h : p.IsSound literals (id :: rest)) (missing : p.get? id = none) :
    p.IsSound literals rest := by
  refine { h with owned := ?_, loose := ?_ }
  · intro x r owner found parent
    refine (h.owned x r owner found parent).imp_left fun inWork => List.mem_of_ne_of_mem ?_ inWork
    rintro rfl
    rw [missing] at found
    cases found
  · intro x mem
    exact h.loose x (List.mem_cons_of_mem _ mem)

/-- Unregistering does all the work. -/
theorem IsSound.unregister (h : p.IsSound literals work) :
    (p.unregister work).IsSound literals [] := by
  fun_induction Project.unregister p work with
  | case1 p => exact h
  | case2 p id rest missing ih => exact ih (h.skip missing)
  | case3 p id rest r found ih => exact ih (h.drop found)

/-! ### Detaching -/

/-- Only the parent changes. -/
theorem get?_detach (p : Project) (id : Id) (parent : Option Id) (x : Id) :
    (p.detach id parent).get? x =
      (p.get? x).map fun r => if parent = some x then r.detach id else r := by
  unfold detach
  cases parent with
  | none => simp [get?]
  | some owner =>
      cases known : p.contains owner with
      | true =>
          rw [Option.filter_some, if_pos known]
          refine (Registry.get?_modify _ _ _ _).trans ?_
          by_cases same : x = owner
          · simp [same, get?]
          · simp [same, Ne.symm same, get?]
      | false =>
          -- a parent that is not registered is nowhere to be changed
          rw [Option.filter_some, if_neg (by simp [known])]
          by_cases same : x = owner
          · have missing : p.get? x = none := by
              subst same
              exact Option.isNone_iff_eq_none.1 (Option.isSome_eq_false_iff.1 known)
            show p.get? x = _
            rw [missing, Option.map_none]
          · simp [Ne.symm same, get?]

/-- Detaching changes the registry or the top level only. -/
theorem exists_detach (p : Project) (id : Id) (parent : Option Id) :
    ∃ registry children, p.detach id parent = { p with registry, children } := by
  unfold detach
  split
  · exact ⟨_, p.children, rfl⟩
  · exact ⟨p.registry, _, rfl⟩

theorem nextId_detach (p : Project) (id : Id) (parent : Option Id) :
    (p.detach id parent).nextId = p.nextId := by
  obtain ⟨registry, children, same⟩ := p.exists_detach id parent
  rw [same]

theorem symbols_detach (p : Project) (id : Id) (parent : Option Id) :
    (p.detach id parent).symbols = p.symbols := by
  obtain ⟨registry, children, same⟩ := p.exists_detach id parent
  rw [same]

theorem contains_detach (p : Project) (id : Id) (parent : Option Id) (x : Id) :
    (p.detach id parent).contains x = p.contains x := by
  show ((p.detach id parent).get? x).isSome = (p.get? x).isSome
  rw [get?_detach, Option.isSome_map]

/-- A detached reflection is not at the top level. -/
theorem IsSound.children_detach (h : p.IsSound literals []) (found : p.get? id = some r) :
    (p.detach id r.parent).children = without id p.children := by
  unfold detach
  cases parent : r.parent with
  | none => rfl
  | some owner =>
      obtain ⟨o, foundOwner, -⟩ := (h.owned id r owner found parent).resolve_left List.not_mem_nil
      have known : p.contains owner = true := Registry.contains_iff.2 ⟨o, foundOwner⟩
      have elsewhere : id ∉ p.children := fun child =>
        Option.some_ne_none owner (parent.symm.trans (h.parent_of_child child found))
      rw [Option.filter_some, if_pos known]
      refine (List.filter_eq_self.2 fun x child => ?_).symm
      simpa using fun same : x = id => elsewhere (same ▸ child)

/-- In a sound project only the parent lists what is detached, so afterwards nothing does. -/
theorem IsSound.exists_detached (h : p.IsSound literals []) (found : p.get? id = some r) {x : Id}
    {s : Reflection} (foundX : p.get? x = some s) :
    ∃ s', (p.detach id r.parent).get? x = some s' ∧ s'.IsPartOf x s ∧
      s'.typeLiteral? = s.typeLiteral? ∧
      s'.body.listed x = (s.body.listed x).filter (·.id != id) := by
  have after := get?_detach p id r.parent x
  rw [foundX, Option.map_some] at after
  refine ⟨_, after, ?_⟩
  split
  · have listed : (s.detach id).body.listed x = (s.body.listed x).filter (·.id != id) :=
      Body.listed_detach x id s.body
    refine ⟨⟨⟨rfl, rfl, Body.role_detach id s.body⟩, listed ▸ List.filter_sublist⟩, ?_, listed⟩
    exact congrArg (Option.bind · TypeExpr.declaration?) (Body.type_detach id s.body)
  · next stranger =>
    refine ⟨.refl x s, rfl, (List.filter_eq_self.2 fun q mem => ?_).symm⟩
    have other : q.id ≠ id := fun same =>
      stranger (h.parent_of_listed foundX (same ▸ List.mem_map_of_mem mem) found)
    simpa using other

/-- Nothing lists a detached reflection, so it may be unregistered. -/
theorem IsSound.detach (h : p.IsSound literals []) (found : p.get? id = some r) :
    (p.detach id r.parent).IsSound literals [id] := by
  have children := h.children_detach found
  have before {x : Id} {s' : Reflection} (found' : (p.detach id r.parent).get? x = some s') :
      ∃ s, p.get? x = some s ∧ s'.IsPartOf x s ∧ s'.typeLiteral? = s.typeLiteral? ∧
        s'.body.listed x = (s.body.listed x).filter (·.id != id) := by
    have known : p.contains x = true :=
      (contains_detach p id r.parent x).symm.trans (Registry.contains_iff.2 ⟨s', found'⟩)
    obtain ⟨s, foundX⟩ := Registry.contains_iff.1 known
    obtain ⟨t, foundT, same⟩ := h.exists_detached found foundX
    obtain rfl := Option.some.inj (found'.symm.trans foundT)
    exact ⟨s, foundX, same⟩
  have part : (p.detach id r.parent).IsPartOf p := by
    refine ⟨nextId_detach _ _ _, children ▸ List.filter_sublist, fun x s' found' => ?_⟩
    obtain ⟨s, foundX, same, -⟩ := before found'
    exact ⟨s, foundX, same⟩
  refine h.shrink part ?remains ?owned ?loose ?symbols ?distinct ?mains
  case remains =>
    intro q mem
    obtain ⟨s, foundQ, -⟩ := h.placed q (part.mem_listed mem)
    exact (contains_detach _ _ _ _).trans (Registry.contains_iff.2 ⟨s, foundQ⟩)
  case owned =>
    intro x s' owner found' parent
    obtain ⟨s, foundX, same, -⟩ := before found'
    obtain ⟨o, foundOwner, listed⟩ :=
      (h.owned x s owner foundX (same.parent ▸ parent)).resolve_left List.not_mem_nil
    by_cases other : x = id
    · exact .inl (List.mem_singleton.2 other)
    · obtain ⟨o', foundOwner', -, -, filtered⟩ := h.exists_detached found foundOwner
      obtain ⟨q, inside, rfl⟩ := List.mem_map.1 listed
      refine .inr ⟨o', foundOwner', List.mem_map_of_mem ?_⟩
      rw [filtered]
      exact List.mem_filter.2 ⟨inside, by simpa using other⟩
  case loose =>
    intro x mem inside
    obtain rfl := List.mem_singleton.1 mem
    rcases mem_ids_listed.1 inside with child | ⟨owner, o', foundOwner', listed⟩
    · rw [children] at child
      simpa using (List.mem_filter.1 child).2
    · obtain ⟨o, -, -, -, filtered⟩ := before foundOwner'
      rw [filtered] at listed
      obtain ⟨q, insideQ, same⟩ := List.mem_map.1 listed
      simpa [same] using (List.mem_filter.1 insideQ).2
  case symbols =>
    intro entry mem
    rw [symbols_detach] at mem
    exact (contains_detach _ _ _ _).trans (h.symbols entry mem)
  case distinct =>
    rw [symbols_detach]
    exact h.symbolsDistinct
  case mains =>
    intro x s' literal found' main
    obtain ⟨s, foundX, -, same, -⟩ := before found'
    exact h.mains x s literal foundX (same.symm.trans main)

/-- The project's categories do not matter. -/
theorem IsSound.withCategories (h : p.IsSound literals work) (cs : List Category) :
    { p with categories := cs }.IsSound literals work :=
  ⟨h.next, h.numbered, h.fits, h.placed, h.topDistinct, h.distinct, h.owned, h.loose, h.symbols,
    h.symbolsDistinct, h.unlisted, h.mains⟩

/-- Removing keeps a project sound. -/
theorem IsSound.remove (h : p.IsSound literals []) (removed : p.remove id = .ok (r, p')) :
    p'.IsSound literals [] := by
  unfold Project.remove at removed
  split at removed
  · cases removed
  · next s found =>
    dsimp only at removed
    split at removed
    · cases removed
    · obtain ⟨-, rfl⟩ := Prod.mk.inj (Except.ok.inj removed)
      exact ((h.detach found).withCategories _).unregister

end Project

end ApiGraph
