import ApiGraph.Proofs.Additions
import ApiGraph.Proofs.Members
import ApiGraph.Proofs.Removal

/-!
# ApiGraph.Proofs.Grouping

Which category members outlive a reflection. A removal takes its id out of the project's categories and
out of those of the parent, and a signature that loses its slot is taken out of none; no other category
is looked at. So a category goes on listing what went, wherever else it stands and whatever else went
along.

* `Project.Groups` — which categories list what, with `Project.GroupsRegistered`.
* `IsRemoval.groups_iff`, `groups_addSignature_iff` — what is left of the categories.
* `groupsRegistered_iff` — when every member is registered afterwards.
-/

namespace ApiGraph

/-- The ids that categories list. -/
def Category.members (cs : List Category) : List Id :=
  cs.flatMap (·.children)

theorem Category.mem_members_without {id m : Id} {cs : List Category} :
    m ∈ members (cs.map (Category.without id)) ↔ m ∈ members cs ∧ m ≠ id := by
  simp only [members, List.mem_flatMap, List.mem_map]
  constructor
  · rintro ⟨c', ⟨c, mem, rfl⟩, inside⟩
    obtain ⟨inside, other⟩ := List.mem_filter.1 inside
    exact ⟨⟨c, mem, inside⟩, by simpa using other⟩
  · rintro ⟨⟨c, mem, inside⟩, other⟩
    exact ⟨c.without id, ⟨c, mem, rfl⟩, List.mem_filter.2 ⟨inside, by simpa using other⟩⟩

namespace Body

@[simp] theorem categories_detach (id : Id) (b : Body) :
    (b.detach id).categories = b.categories.map (Category.without id) := by
  cases b <;> rfl

theorem categories_placeSignature (kind : Kind) (id : Id) (d : Declaration) :
    (Body.declaration (Project.placeSignature kind id d)).categories =
      (Body.declaration d).categories := by
  unfold Project.placeSignature
  split <;> rfl

/-- With a new place a reflection owns what it owned before, but for what had to leave. -/
theorem Takes.mem_owned {key x : Id} {o o' : Reflection} {q : Position} {replaced : List Position}
    (h : o.body.Takes key q replaced o'.body) :
    (x ∈ o'.owned → x = q.id ∨ x ∈ o.owned) ∧
      (x ∈ o.owned → x ∈ replaced.map Position.id ∨ x ∈ o'.owned) := by
  have main : o'.typeLiteral? = o.typeLiteral? :=
    congrArg (Option.bind · TypeExpr.declaration?) h.type
  rw [Reflection.mem_owned key, Reflection.mem_owned key, main]
  constructor
  · rintro (literal | listed)
    · exact .inr (.inl literal)
    · obtain ⟨y, mem, rfl⟩ := List.mem_map.1 listed
      exact (h.of_mem mem).imp (congrArg Position.id) fun old => .inr (List.mem_map_of_mem old)
  · rintro (literal | listed)
    · exact .inr (.inl literal)
    · obtain ⟨y, mem, rfl⟩ := List.mem_map.1 listed
      exact (h.mem_or_mem mem).imp List.mem_map_of_mem fun stays =>
        .inr (List.mem_map_of_mem stays)

end Body

namespace Project

variable {p p' : Project} {id owner x m : Id} {lister : Option Id} {r s : Reflection}
  {name : String} {kind : Kind} {d : Declaration}

/-- A category lists an id: one of the project, or of the reflection that is registered under the
lister's id. -/
def Groups (p : Project) : (lister : Option Id) → Id → Prop
  | none, m => m ∈ Category.members p.categories
  | some x, m => ∃ r, p.get? x = some r ∧ m ∈ Category.members r.body.categories

/-- Whatever a category lists is registered. -/
def GroupsRegistered (p : Project) : Prop :=
  ∀ lister m, p.Groups lister m → p.contains m = true

/-! ### Removals -/

/-- Of the remaining categories, only the project's and the parent's lose anything, and they lose the
removed id only. -/
theorem IsRemoval.groups_iff (h : p.IsRemoval id r p') : p'.Groups lister m ↔
    p.Groups lister m ∧ (∀ x ∈ lister, ¬p.Goes [id] x) ∧
      ¬(m = id ∧ (lister = none ∨ lister = r.parent)) := by
  cases lister with
  | none =>
      rw [Groups, h.categories, Category.mem_members_without]
      simp [Groups]
  | some x =>
      constructor
      · rintro ⟨s, found, mem⟩
        obtain ⟨stays, s', before, rfl⟩ := h.exists_of_get? found
        split at mem
        · have lost := (Category.mem_members_without.1 (Body.categories_detach id s'.body ▸ mem))
          exact ⟨⟨s', before, lost.1⟩, by simpa using stays, fun here => lost.2 here.1⟩
        · next stranger =>
          refine ⟨⟨s', before, mem⟩, by simpa using stays, fun here => stranger ?_⟩
          exact (here.2.resolve_left (Option.some_ne_none x)).symm
      · rintro ⟨⟨s, found, mem⟩, stays, kept⟩
        have after := h.stays x (stays x rfl)
        rw [found, Option.map_some] at after
        refine ⟨_, after, ?_⟩
        split
        · next parent =>
          have lost := Category.mem_members_without.2 ⟨mem, fun same => kept ⟨same, .inr parent.symm⟩⟩
          exact (Body.categories_detach id s.body).symm ▸ lost
        · exact mem

/-! ### Replaced signatures -/

/-- The declaration that a reflection is, with a further signature. -/
def withSignature (kind : Kind) (id : Id) (d : Declaration) (s : Reflection) : Reflection :=
  { s with body := .declaration (placeSignature kind id d) }

section

variable {p₁ : Project} {o : Reflection} (fresh : p.get? p.nextId = none)
  (found : p.get? owner = some o) (body : o.body = .declaration d)
  (registered : p.register { name, kind, parent := some owner, body := .signature {} } = .ok (id, p₁))
include fresh found body registered

/-- In its place the new signature changes its owner only. -/
theorem get?_placeSignature :
    (p₁.modifyDeclaration owner (placeSignature kind id)).get? x =
      if x = id then some { name, kind, parent := some owner, body := .signature {} }
      else if x = owner then some (withSignature kind id d o) else p.get? x := by
  have new : p.get? id = none := (register_eq_ok registered).1 ▸ fresh
  have notNew : owner ≠ id := by
    rintro rfl
    rw [new] at found
    cases found
  rw [modifyDeclaration, get?_modify, get?_register registered]
  by_cases isNew : x = id
  · subst isNew
    rw [if_neg (Ne.symm notNew), if_pos rfl, if_pos rfl]
  · rw [if_neg isNew, if_neg isNew]
    by_cases isOwner : x = owner
    · subst isOwner
      rw [if_pos rfl, if_pos rfl, found, Option.map_some, body]
      rfl
    · rw [if_neg isOwner, if_neg isOwner]

/-- The new signature takes nothing along, and only its owner takes more along than before. -/
theorem of_takesAlong_placeSignature
    (taken : (p₁.modifyDeclaration owner (placeSignature kind id)).TakesAlong x m) :
    x ≠ id ∧ (m = id ∨ p.TakesAlong x m) := by
  obtain ⟨s, foundX, owned⟩ := taken
  rw [get?_placeSignature fresh found body registered] at foundX
  split at foundX
  · obtain rfl := Option.some.inj foundX
    cases owned
  · next notNew =>
    refine ⟨notNew, ?_⟩
    split at foundX
    · next isOwner =>
      subst isOwner
      obtain rfl := Option.some.inj foundX
      have takes := body ▸ Body.takes_signature x id kind d
      exact (takes.mem_owned.1 owned).imp_right fun old => ⟨o, found, old⟩
    · exact .inr ⟨s, foundX, owned⟩

/-- What was taken along still is, unless it is what the new signature replaces. -/
theorem takesAlong_placeSignature (taken : p.TakesAlong x m) :
    m ∈ (replacedSignature kind d).toList ∨
      (p₁.modifyDeclaration owner (placeSignature kind id)).TakesAlong x m := by
  obtain ⟨s, foundX, owned⟩ := taken
  have notNew : x ≠ id := by
    rintro rfl
    rw [(register_eq_ok registered).1, fresh] at foundX
    cases foundX
  have after := get?_placeSignature fresh found body registered (x := x)
  rw [if_neg notNew] at after
  split at after
  · next isOwner =>
    subst isOwner
    obtain rfl := Option.some.inj (found.symm.trans foundX)
    have takes := body ▸ Body.takes_signature x id kind d
    have gone : ((replacedSignature kind d).toList.map (Position.under x .signature)).map
        Position.id = (replacedSignature kind d).toList := by
      rw [List.map_map, Position.id_comp_under, List.map_id']
    exact (takes.mem_owned.2 owned).imp (gone ▸ ·) fun stays => ⟨_, after, stays⟩
  · exact .inr ⟨s, after.trans foundX, owned⟩

/-- The new signature does not change what goes with the one that it replaces. -/
theorem goes_placeSignature_iff (other : x ≠ id) :
    (p₁.modifyDeclaration owner (placeSignature kind id)).Goes (replacedSignature kind d).toList x ↔
      p.Goes (replacedSignature kind d).toList x := by
  constructor
  · intro goes
    induction goes with
    | work mem => exact .work mem
    | along _ taken ih =>
        obtain ⟨notNew, new | before⟩ := of_takesAlong_placeSignature fresh found body registered taken
        · exact absurd new other
        · exact .along (ih notNew) before
  · intro goes
    clear other
    induction goes with
    | work mem => exact .work mem
    | along _ taken ih =>
        rcases takesAlong_placeSignature fresh found body registered taken with replaced | stays
        · exact .work replaced
        · exact .along ih stays

end

/-- `p'` is what is left of `p` when a new signature has been registered under an id, the declaration
`o` has become `o'` with that signature, and the signatures that it replaces have gone. -/
structure IsReplacement (p : Project) (owner id : Id) (o o' : Reflection) (replaced : List Id)
    (p' : Project) : Prop where
  found : p.get? owner = some o
  new : p.get? id = none
  bare : ∀ r, p'.get? id = some r → r.body = .signature {}
  gone : ∀ x, p.Goes replaced x → x ≠ id → p'.get? x = none
  stays : ∀ x, ¬p.Goes replaced x → x ≠ id →
    p'.get? x = if x = owner then some o' else p.get? x
  categories : p'.categories = p.categories

/-- **Adding a signature takes away what goes with the one that it replaces**, changes the owner, and
leaves all else. -/
theorem isReplacement_of_addSignature (fresh : p.get? p.nextId = none)
    (isOwner : p.owningDeclaration owner .signature = .ok d)
    (added : p.addSignature owner name kind = .ok (id, p')) : ∃ o, o.body = .declaration d ∧
      p.IsReplacement owner id o (withSignature kind id d o) (replacedSignature kind d).toList p' := by
  obtain ⟨o, found, body⟩ := owningDeclaration_eq_ok isOwner
  obtain ⟨d', p₁, isOwner', registered, rfl⟩ := addSignature_eq_ok added
  obtain rfl := Except.ok.inj (isOwner.symm.trans isOwner')
  have placed (x : Id) := get?_placeSignature fresh found body registered (x := x)
  have goes_iff {x : Id} := goes_placeSignature_iff fresh found body registered (x := x)
  refine
    ⟨o, body,
      { found
        new := (register_eq_ok registered).1 ▸ fresh
        bare := ?bare
        gone := fun x goes other => (get?_unregister _ _ x).1 ((goes_iff other).2 goes)
        stays := ?stays
        categories := ?categories }⟩
  case bare =>
    intro r foundNew
    have before := (of_get?_unregister foundNew).2
    rw [placed, if_pos rfl] at before
    exact Option.some.inj before ▸ rfl
  case stays =>
    intro x stays other
    rw [(get?_unregister _ _ x).2 fun goes => stays ((goes_iff other).1 goes), placed, if_neg other]
  case categories =>
    obtain ⟨-, -, -, rfl⟩ := register_eq_ok registered
    rw [categories_unregister]
    rfl

namespace IsReplacement

variable {o o' : Reflection} {replaced : List Id}
  (h : p.IsReplacement owner id o o' replaced p')
include h

/-- What was registered stays so unless it goes with what is replaced. -/
theorem contains_iff (known : p.contains x = true) : p'.contains x = true ↔ ¬p.Goes replaced x := by
  obtain ⟨s, found⟩ : ∃ s, p.get? x = some s := Registry.contains_iff.1 known
  have other : x ≠ id := by
    rintro rfl
    rw [h.new] at found
    cases found
  show (p'.get? x).isSome = true ↔ _
  by_cases goes : p.Goes replaced x
  · simp [h.gone x goes other, goes]
  · rw [h.stays x goes other]
    split
    · simp [goes]
    · simp [found, goes]

/-- The remaining categories list what they listed. -/
theorem groups_iff (kept : o'.body.categories = o.body.categories) : p'.Groups lister m ↔
    p.Groups lister m ∧ ∀ x ∈ lister, ¬p.Goes replaced x := by
  cases lister with
  | none =>
      rw [Groups, h.categories]
      simp [Groups]
  | some x =>
      by_cases isNew : x = id
      · subst isNew
        constructor
        · rintro ⟨r, found, mem⟩
          rw [h.bare r found] at mem
          cases mem
        · rintro ⟨⟨r, found, -⟩, -⟩
          rw [h.new] at found
          cases found
      · by_cases goes : p.Goes replaced x
        · simp [Groups, h.gone x goes isNew, goes]
        · have after := h.stays x goes isNew
          have same : p'.Groups (some x) m ↔ p.Groups (some x) m := by
            rw [Groups, Groups, after]
            split
            · next isOwner =>
              subst isOwner
              simp [h.found, kept]
            · rfl
          simp [same, goes]

end IsReplacement

/-! ### Members that are registered -/

/-- Members are registered afterwards exactly if no remaining category lists what went, unless that
is purged. -/
theorem groupsRegistered_iff_of {gone : Id → Prop} {purged : Option Id → Id → Prop}
    (groups : p.GroupsRegistered)
    (known : ∀ m, p.contains m = true → (p'.contains m = true ↔ ¬gone m))
    (left : ∀ lister m, p'.Groups lister m ↔
      p.Groups lister m ∧ (∀ x ∈ lister, ¬gone x) ∧ ¬purged lister m) :
    p'.GroupsRegistered ↔ ∀ lister m, p.Groups lister m → (∀ x ∈ lister, ¬gone x) → gone m →
      purged lister m := by
  constructor
  · intro registered lister m listed stays goes
    by_contra kept
    have still := registered lister m ((left lister m).2 ⟨listed, stays, kept⟩)
    exact (known m (groups lister m listed)).1 still goes
  · intro purges lister m listed
    obtain ⟨before, stays, kept⟩ := (left lister m).1 listed
    rw [known m (groups lister m before)]
    exact fun goes => kept (purges lister m before stays goes)

/-- **When no category outlives its members.** After a removal, every member of every category is
registered exactly if what went was listed by nothing that is left, but for the removed id in the
project's own categories and in those of its parent. After a signature was added, exactly if what went
with the one that it replaces was listed by nothing that is left. -/
theorem groupsRegistered_iff (p : Project) (coherent : p.IsCoherent) (groups : p.GroupsRegistered) :
    (∀ id r s p', p.get? id = some r → p.remove id = .ok (s, p') →
      (p'.GroupsRegistered ↔ ∀ lister m, p.Groups lister m → (∀ x ∈ lister, ¬p.Goes [id] x) →
        p.Goes [id] m → m = id ∧ (lister = none ∨ lister = r.parent))) ∧
    ∀ owner name kind d id p', p.owningDeclaration owner .signature = .ok d →
      p.addSignature owner name kind = .ok (id, p') →
      (p'.GroupsRegistered ↔ ∀ lister m, p.Groups lister m →
        (∀ x ∈ lister, ¬p.Goes (replacedSignature kind d).toList x) →
        ¬p.Goes (replacedSignature kind d).toList m) := by
  constructor
  · intro id r s p' found removed
    obtain ⟨r', removal⟩ := isRemoval_of_remove removed
    obtain rfl := Option.some.inj (found.symm.trans removal.found)
    refine groupsRegistered_iff_of groups (fun m known => ?_) fun lister m => removal.groups_iff
    rw [removal.contains_iff]
    simp [known]
  · intro owner name kind d id p' isOwner added
    have fresh : p.get? p.nextId = none := by
      refine Option.eq_none_iff_forall_ne_some.2 fun r found => ?_
      exact Int.lt_irrefl _ (coherent.numbered _ (Registry.contains_iff.2 ⟨r, found⟩)).2
    obtain ⟨o, body, replacement⟩ := isReplacement_of_addSignature fresh isOwner added
    have kept : (withSignature kind id d o).body.categories = o.body.categories := by
      rw [body]
      exact Body.categories_placeSignature kind id d
    -- nothing is purged
    have left (lister : Option Id) (m : Id) : p'.Groups lister m ↔ p.Groups lister m ∧
        (∀ x ∈ lister, ¬p.Goes (replacedSignature kind d).toList x) ∧ ¬False := by
      rw [replacement.groups_iff kept]
      simp
    exact groupsRegistered_iff_of groups (fun m known => replacement.contains_iff known) left

/-- A variable, and after it a namespace with a category that lists the variable. -/
def settingsFirst : Project :=
  (libraryOf [settings, tools]).project

theorem ofWire_settingsFirst : Project.ofWire (libraryOf [settings, tools]) = .ok settingsFirst :=
  rfl

theorem isCoherent_settingsFirst : settingsFirst.IsCoherent :=
  (isSound_project (ofWire_eq_ok_iff.1 ofWire_settingsFirst).1).isCoherent

theorem groups_settingsFirst (h : settingsFirst.Groups lister m) : lister = some 1 ∧ m = 2 := by
  cases lister with
  | none => cases h
  | some x =>
      obtain ⟨r, found, mem⟩ := h
      have all : settingsFirst.registry.entries.map
          (fun e => (e.1, Category.members e.2.body.categories)) = [(1, [2]), (2, [])] := rfl
      have inside := List.mem_map_of_mem (f := fun e : Id × Reflection =>
        (e.1, Category.members e.2.body.categories)) (Registry.mem_entries_iff.2 found)
      rw [all] at inside
      rcases List.mem_cons.1 inside with same | inside
      · obtain ⟨rfl, members⟩ := Prod.mk.inj same
        rw [members] at mem
        exact ⟨rfl, List.mem_singleton.1 mem⟩
      · obtain ⟨rfl, members⟩ := Prod.mk.inj (List.mem_singleton.1 inside)
        rw [members] at mem
        cases mem

theorem groupsRegistered_settingsFirst : settingsFirst.GroupsRegistered := by
  intro lister m listed
  obtain ⟨-, rfl⟩ := groups_settingsFirst listed
  decide

/-- Nothing lists the namespace, so every member is registered when it is removed. -/
theorem groupsRegistered_withoutTools : ∃ s p', settingsFirst.remove 1 = .ok (s, p') ∧
    p'.GroupsRegistered := by
  obtain ⟨removals, -⟩ := groupsRegistered_iff settingsFirst isCoherent_settingsFirst
    groupsRegistered_settingsFirst
  obtain ⟨s, p', removed⟩ : ∃ s p', settingsFirst.remove 1 = .ok (s, p') := exists_remove (by decide)
  refine ⟨s, p', removed, (removals 1 _ s p' rfl removed).2 fun lister m listed stays goes => ?_⟩
  obtain ⟨rfl, rfl⟩ := groups_settingsFirst listed
  exact absurd (.work List.mem_cons_self) (stays 1 rfl)

/-- The namespace goes on listing the variable after it was removed. -/
theorem not_groupsRegistered_withoutSettings : settingsFirst.IsCoherent ∧
    settingsFirst.GroupsRegistered ∧
    ∃ s p', settingsFirst.remove 2 = .ok (s, p') ∧ ¬p'.GroupsRegistered := by
  have removed : settingsFirst.remove 2 = .ok (_, _) := remove_leaf rfl rfl rfl
  refine ⟨isCoherent_settingsFirst, groupsRegistered_settingsFirst, _, _, removed, ?_⟩
  intro registered
  have gone := registered (some 1) 2 ⟨_, rfl, List.mem_cons_self⟩
  cases gone

end Project

end ApiGraph
