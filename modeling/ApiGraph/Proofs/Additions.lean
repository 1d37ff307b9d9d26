import ApiGraph.Proofs.Unregister

/-!
# ApiGraph.Proofs.Additions

Adding keeps a project sound. A new reflection is first registered, as work that nothing lists yet,
and then put into its place: at the top level, into a list or slot of its owner, or nowhere if it is a
type literal. A slot that was taken leaves the one before it as work.

* `IsSound.register` — a new reflection that lists nothing.
* `IsSound.attach`, `IsSound.attachTop`, `IsSound.attachNowhere` — its place.
* `IsSound.addDeclaration`, `addTypeLiteral`, `addSignature`, `addParameter`, `addTypeParameter` — the
  additions.
* `IsSound.registerSymbol`, `IsSound.assignType` — the changes that add nothing.
-/

namespace ApiGraph

/-- A composed action succeeds only if both parts do. -/
theorem exists_of_bind_ok {α β : Type} {x : Except Error α} {f : α → Except Error β} {b : β}
    (h : x >>= f = .ok b) : ∃ a, x = .ok a ∧ f a = .ok b := by
  cases x with
  | error e => cases h
  | ok a => exact ⟨a, rfl, h⟩

@[simp] theorem Body.role_withType (t : Option TypeExpr) (b : Body) :
    (b.withType t).role = b.role := by
  cases b <;> rfl

@[simp] theorem Body.type_withType (t : Option TypeExpr) (b : Body) : (b.withType t).type = t := by
  cases b <;> rfl

@[simp] theorem Body.listed_withType (self : Id) (t : Option TypeExpr) (b : Body) :
    (b.withType t).listed self = b.listed self := by
  cases b <;> rfl

/-! ### Places in bodies -/

/-- The body `b'` is `b` with a new place, which some places may have to leave. -/
structure Body.Takes (key : Id) (b : Body) (q : Position) (replaced : List Position) (b' : Body) :
    Prop where
  role : b'.role = b.role
  type : b'.type = b.type
  exists_kept : ∃ kept, (b.listed key).Perm (replaced ++ kept) ∧ (b'.listed key).Perm (q :: kept)

namespace Body.Takes

variable {key : Id} {b b' : Body} {q x : Position} {replaced : List Position} {id : Id}

theorem mem_new (h : b.Takes key q replaced b') : q ∈ b'.listed key := by
  obtain ⟨kept, -, after⟩ := h.exists_kept
  exact after.mem_iff.2 List.mem_cons_self

/-- Only the new place is new. -/
theorem of_mem (h : b.Takes key q replaced b') (mem : x ∈ b'.listed key) :
    x = q ∨ x ∈ b.listed key := by
  obtain ⟨kept, before, after⟩ := h.exists_kept
  exact (List.mem_cons.1 (after.mem_iff.1 mem)).imp_right fun old =>
    before.mem_iff.2 (List.mem_append_right _ old)

/-- Only the replaced places leave. -/
theorem mem_or_mem (h : b.Takes key q replaced b') (mem : x ∈ b.listed key) :
    x ∈ replaced ∨ x ∈ b'.listed key := by
  obtain ⟨kept, before, after⟩ := h.exists_kept
  exact (List.mem_append.1 (before.mem_iff.1 mem)).imp_right fun stays =>
    after.mem_iff.2 (List.mem_cons_of_mem _ stays)

theorem listed_of_replaced (h : b.Takes key q replaced b') (gone : id ∈ replaced.map Position.id) :
    id ∈ (b.listed key).map Position.id := by
  obtain ⟨kept, before, -⟩ := h.exists_kept
  rw [(before.map Position.id).mem_iff, List.map_append]
  exact List.mem_append_left _ gone

section

variable (h : b.Takes key q replaced b') (distinct : ((b.listed key).map Position.id).Nodup)
  (new : q.id ∉ (b.listed key).map Position.id)

include h distinct new

/-- A new id keeps the listed ids distinct. -/
theorem nodup : ((b'.listed key).map Position.id).Nodup := by
  obtain ⟨kept, before, after⟩ := h.exists_kept
  rw [(before.map Position.id).nodup_iff, List.map_append, List.nodup_append] at distinct
  rw [(before.map Position.id).mem_iff, List.map_append, List.mem_append, not_or] at new
  exact (after.map Position.id).nodup_iff.2 (List.nodup_cons.2 ⟨new.2, distinct.2.1⟩)

/-- The replaced ids have left. -/
theorem notMem (gone : id ∈ replaced.map Position.id) : id ∉ (b'.listed key).map Position.id := by
  intro mem
  have listed := h.listed_of_replaced gone
  obtain ⟨kept, before, after⟩ := h.exists_kept
  rw [(before.map Position.id).nodup_iff, List.map_append, List.nodup_append] at distinct
  rcases List.mem_cons.1 ((after.map Position.id).mem_iff.1 mem) with rfl | stays
  · exact new listed
  · exact distinct.2.2 id gone id stays rfl

end

end Body.Takes

/-! ### New places -/

namespace Body

theorem takes_child (key id : Id) (d : Declaration) :
    (Body.declaration d).Takes key (.under key .declaration id) []
      (.declaration { d with children := d.children ++ [id] }) := by
  refine ⟨rfl, rfl, _, .refl _, List.perm_iff_count.2 fun x => ?_⟩
  simp [listed, List.count_cons]
  omega

theorem takes_parameter (key id : Id) (s : Signature) :
    (Body.signature s).Takes key (.under key .parameter id) []
      (.signature { s with parameters := s.parameters ++ [id] }) := by
  refine ⟨rfl, rfl, _, .refl _, List.perm_iff_count.2 fun x => ?_⟩
  simp [listed, List.count_cons]
  omega

/-- A signature takes the slot of its kind, or the end of the list. -/
theorem takes_signature (key id : Id) (kind : Kind) (d : Declaration) :
    (Body.declaration d).Takes key (.under key .signature id)
      ((Project.replacedSignature kind d).toList.map (.under key .signature))
      (.declaration (Project.placeSignature kind id d)) := by
  unfold Project.replacedSignature Project.placeSignature
  split
  · refine ⟨rfl, rfl, (Body.declaration { d with indexSignature := none }).listed key, ?_, ?_⟩ <;>
      exact List.perm_iff_count.2 fun x => by simp [listed, List.count_cons]; omega
  · refine ⟨rfl, rfl, (Body.declaration { d with getSignature := none }).listed key, ?_, ?_⟩ <;>
      exact List.perm_iff_count.2 fun x => by simp [listed, List.count_cons]; omega
  · refine ⟨rfl, rfl, (Body.declaration { d with setSignature := none }).listed key, ?_, ?_⟩ <;>
      exact List.perm_iff_count.2 fun x => by simp [listed, List.count_cons]; omega
  · refine ⟨rfl, rfl, _, .refl _, List.perm_iff_count.2 fun x => ?_⟩
    simp [listed, List.count_cons]
    omega

/-- A declaration or signature takes a further type parameter. -/
theorem takes_typeParameter {b : Body} (key id : Id)
    (fits : (Project.placeTypeParameter? 0 b).isSome = true) :
    b.Takes key (.under key .typeParameter id) [] ((Project.placeTypeParameter? id b).getD b) := by
  cases b with
  | declaration d =>
      refine ⟨rfl, rfl, _, .refl _, List.perm_iff_count.2 fun x => ?_⟩
      simp [Project.placeTypeParameter?, listed, List.count_cons]
      omega
  | signature s =>
      refine ⟨rfl, rfl, _, .refl _, List.perm_iff_count.2 fun x => ?_⟩
      simp [Project.placeTypeParameter?, listed, List.count_cons]
      omega
  | _ => cases fits

end Body

namespace Project

variable {p p' : Project} {literals work : List Id} {id owner : Id} {r o : Reflection} {b : Body}
  {replaced : List Position} {f : Reflection → Reflection} {role : Role}

theorem get?_modify (p : Project) (id : Id) (f : Reflection → Reflection) (x : Id) :
    (p.modify id f).get? x = if x = id then (p.get? x).map f else p.get? x :=
  Registry.get?_modify _ _ _ _

/-- The owner of a declaration or signature is a registered declaration. -/
theorem owningDeclaration_eq_ok {d : Declaration} (h : p.owningDeclaration owner role = .ok d) :
    ∃ o, p.get? owner = some o ∧ o.body = .declaration d := by
  unfold owningDeclaration at h
  split at h
  · cases h
  · next o found =>
    refine ⟨o, found, ?_⟩
    cases body : o.body <;> simp_all [Reflection.declaration?]

/-- The owner of a parameter is a registered signature. -/
theorem owningSignature_eq_ok {s : Signature} (h : p.owningSignature owner role = .ok s) :
    ∃ o, p.get? owner = some o ∧ o.body = .signature s := by
  unfold owningSignature at h
  split at h
  · cases h
  · next o found =>
    refine ⟨o, found, ?_⟩
    cases body : o.body <;> simp_all [Reflection.signature?]

/-! ### New reflections -/

/-- Registering gives out the next id, if the kind fits and an id is left. -/
theorem register_eq_ok (added : p.register r = .ok (id, p')) :
    id = p.nextId ∧ p.nextId < maxId ∧ r.body.role.accepts r.kind = true ∧
      p' = { p with nextId := p.nextId + 1, registry := p.registry.insert id r } := by
  unfold register allocate at added
  cases fits : r.body.role.accepts r.kind with
  | false =>
      rw [fits] at added
      cases added
  | true =>
      by_cases left : p.nextId < maxId
      · simp only [fits, left, if_true] at added
        obtain ⟨rfl, rfl⟩ := Prod.mk.inj (Except.ok.inj added)
        exact ⟨rfl, left, rfl, rfl⟩
      · simp only [fits, left, if_false] at added
        cases added

/-- A new reflection changes nothing else. -/
theorem get?_register (added : p.register r = .ok (id, p')) (x : Id) :
    p'.get? x = if x = id then some r else p.get? x := by
  obtain ⟨-, -, -, rfl⟩ := register_eq_ok added
  exact Registry.get?_insert _ _ _ _

/-- If nothing is registered under the next id, a new reflection takes the place of no other. -/
theorem get?_of_register (fresh : p.get? p.nextId = none) (added : p.register r = .ok (id, p'))
    {x : Id} (found : p.get? x = some o) : p'.get? x = some o := by
  have other : x ≠ id := by
    rintro rfl
    rw [(register_eq_ok added).1, fresh] at found
    cases found
  rw [get?_register added, if_neg other, found]

/-- A new reflection is registered. -/
theorem contains_of_register (added : p.register r = .ok (id, p')) : p'.contains id = true :=
  Registry.contains_iff.2 ⟨r, (get?_register added id).trans (if_pos rfl)⟩

/-! ### What an addition does -/

variable {p₁ : Project} {name : String} {kind : Kind} {symbol : Option Symbol}
  {type constraint default : Option TypeExpr}

/-- At the top level a declaration is registered, listed, and remembered under its symbol. -/
theorem addDeclaration_top_eq_ok (h : p.addDeclaration none name kind symbol = .ok (id, p')) :
    ∃ p₁, p.register { name, kind, body := .declaration {} } = .ok (id, p₁) ∧
      { p₁ with children := p₁.children ++ [id] }.registerSymbol? symbol id = .ok p' := by
  obtain ⟨⟨id', p₁⟩, registered, rest⟩ := exists_of_bind_ok h
  obtain ⟨p₂, named, rest⟩ := exists_of_bind_ok rest
  obtain ⟨rfl, rfl⟩ := Prod.mk.inj (Except.ok.inj rest)
  exact ⟨p₁, registered, named⟩

/-- Below a declaration, the owner lists it. -/
theorem addDeclaration_under_eq_ok
    (h : p.addDeclaration (some owner) name kind symbol = .ok (id, p')) :
    ∃ d p₁, p.owningDeclaration owner .declaration = .ok d ∧
      p.register { name, kind, parent := some owner, body := .declaration {} } = .ok (id, p₁) ∧
      (p₁.modifyDeclaration owner fun d => { d with children := d.children ++ [id] }).registerSymbol?
        symbol id = .ok p' := by
  obtain ⟨d, isOwner, rest⟩ := exists_of_bind_ok h
  obtain ⟨⟨id', p₁⟩, registered, rest⟩ := exists_of_bind_ok rest
  obtain ⟨p₂, named, rest⟩ := exists_of_bind_ok rest
  obtain ⟨rfl, rfl⟩ := Prod.mk.inj (Except.ok.inj rest)
  exact ⟨d, p₁, isOwner, registered, named⟩

/-- A type literal is registered and listed nowhere. -/
theorem addTypeLiteral_eq_ok (h : p.addTypeLiteral symbol = .ok (id, p')) :
    ∃ p₁, p.register { name := typeLiteralName, kind := .typeLiteral, body := .declaration {} } =
        .ok (id, p₁) ∧ p₁.registerSymbol? symbol id = .ok p' := by
  obtain ⟨⟨id', p₁⟩, registered, rest⟩ := exists_of_bind_ok h
  obtain ⟨p₂, named, rest⟩ := exists_of_bind_ok rest
  obtain ⟨rfl, rfl⟩ := Prod.mk.inj (Except.ok.inj rest)
  exact ⟨p₁, registered, named⟩

/-- A signature takes its slot, and the one that stood there is unregistered. -/
theorem addSignature_eq_ok (h : p.addSignature owner name kind = .ok (id, p')) :
    ∃ d p₁, p.owningDeclaration owner .signature = .ok d ∧
      p.register { name, kind, parent := some owner, body := .signature {} } = .ok (id, p₁) ∧
      p' = (p₁.modifyDeclaration owner (placeSignature kind id)).unregister
        (replacedSignature kind d).toList := by
  obtain ⟨d, isOwner, rest⟩ := exists_of_bind_ok h
  obtain ⟨⟨id', p₁⟩, registered, rest⟩ := exists_of_bind_ok rest
  obtain ⟨rfl, rfl⟩ := Prod.mk.inj (Except.ok.inj rest)
  exact ⟨d, p₁, isOwner, registered, rfl⟩

theorem addParameter_eq_ok (h : p.addParameter owner name type = .ok (id, p')) :
    ∃ s p₁, p.owningSignature owner .parameter = .ok s ∧
      p.register { name, kind := .parameter, parent := some owner, body := .parameter { type } } =
        .ok (id, p₁) ∧
      p' = p₁.modifySignature owner fun s => { s with parameters := s.parameters ++ [id] } := by
  obtain ⟨s, isOwner, rest⟩ := exists_of_bind_ok h
  obtain ⟨⟨id', p₁⟩, registered, rest⟩ := exists_of_bind_ok rest
  obtain ⟨rfl, rfl⟩ := Prod.mk.inj (Except.ok.inj rest)
  exact ⟨s, p₁, isOwner, registered, rfl⟩

theorem addTypeParameter_eq_ok
    (h : p.addTypeParameter owner name constraint default = .ok (id, p')) :
    ∃ o p₁, p.get? owner = some o ∧ (placeTypeParameter? 0 o.body).isSome = true ∧
      p.register
        { name, kind := .typeParameter, parent := some owner,
          body := .typeParameter { constraint, default } } = .ok (id, p₁) ∧
      p' = p₁.modify owner fun r =>
        { r with body := (placeTypeParameter? id r.body).getD r.body } := by
  unfold addTypeParameter at h
  split at h
  · cases h
  · next o found =>
    split at h
    · cases h
    · next fits =>
      obtain ⟨⟨id', p₁⟩, registered, rest⟩ := exists_of_bind_ok h
      obtain ⟨rfl, rfl⟩ := Prod.mk.inj (Except.ok.inj rest)
      exact ⟨o, p₁, found, by simpa [Option.isSome_iff_ne_none] using fits, registered, rfl⟩

namespace IsSound

/-- New ids are neither registered nor type literals. -/
theorem fresh (h : p.IsSound literals work) : p.get? p.nextId = none ∧ p.nextId ∉ literals := by
  constructor
  · refine Option.eq_none_iff_forall_ne_some.2 fun r found => ?_
    exact Int.lt_irrefl _ (h.numbered _ r found).2
  · exact fun literal => Int.lt_irrefl _ (h.unlisted _ literal).1

/-- What is registered stays registered beside a new reflection. -/
theorem get?_of_register (h : p.IsSound literals work) (added : p.register r = .ok (id, p')) {x : Id}
    (found : p.get? x = some o) : p'.get? x = some o :=
  Project.get?_of_register h.fresh.1 added found

/-- A new reflection that lists nothing is work, since nothing lists it. -/
theorem register (h : p.IsSound literals []) (added : p.register r = .ok (id, p'))
    (empty : ∀ self, r.body.listed self = []) (main : ∀ x, r.typeLiteral? = some x → x ∈ literals) :
    p'.IsSound literals [id] := by
  have get?_new := get?_register added
  have kept {x : Id} {s : Reflection} := h.get?_of_register added (x := x) (o := s)
  obtain ⟨rfl, left, fits, new⟩ := register_eq_ok added
  have next : p'.nextId = p.nextId + 1 := by rw [new]
  have before {x : Id} {s : Reflection} (found : p'.get? x = some s) :
      (x = p.nextId ∧ s = r) ∨ p.get? x = some s := by
    rw [get?_new] at found
    split at found
    · exact .inl ⟨‹_›, (Option.some.inj found).symm⟩
    · exact .inr found
  have listed {q : Position} (mem : q ∈ p'.listed) : q ∈ p.listed := by
    obtain ⟨x, child, rfl⟩ | ⟨owner, o, found, inside⟩ := mem_listed.1 mem
    · rw [new] at child
      exact mem_listed_top child
    · rcases before found with ⟨-, rfl⟩ | found
      · simp [empty] at inside
      · exact mem_listed_of_owner found inside
  have unlisted {x : Id} (h : x ∉ p.listed.map Position.id) : x ∉ p'.listed.map Position.id := by
    intro mem
    obtain ⟨q, inside, rfl⟩ := List.mem_map.1 mem
    exact h (List.mem_map_of_mem (listed inside))
  refine
    { next := ?next
      numbered := ?numbered
      fits := ?fits
      placed := ?placed
      topDistinct := by rw [new]; exact h.topDistinct
      distinct := ?distinct
      owned := ?owned
      loose := ?loose
      symbols := ?symbols
      symbolsDistinct := by rw [new]; exact h.symbolsDistinct
      unlisted := ?unlisted
      mains := ?mains }
  case next =>
    have := h.next.1
    rw [next]
    exact ⟨by grind, by grind⟩
  case numbered =>
    intro x s found
    rcases before found with ⟨rfl, -⟩ | found
    · have := h.next.1
      grind
    · have := h.numbered x s found
      grind
  case fits =>
    intro x s found
    rcases before found with ⟨-, rfl⟩ | found
    · exact fits
    · exact h.fits x s found
  case placed =>
    intro q mem
    obtain ⟨s, found, placed⟩ := h.placed q (listed mem)
    exact ⟨s, kept found, placed⟩
  case distinct =>
    intro owner o found
    rcases before found with ⟨-, rfl⟩ | found
    · simp [empty]
    · exact h.distinct owner o found
  case owned =>
    intro x s owner found parent
    rcases before found with ⟨rfl, -⟩ | found
    · exact .inl List.mem_cons_self
    · obtain ⟨o, foundOwner, inside⟩ := (h.owned x s owner found parent).resolve_left List.not_mem_nil
      exact .inr ⟨o, kept foundOwner, inside⟩
  case loose =>
    -- what is listed was registered before, and this id was not
    intro x mem
    obtain rfl := List.mem_singleton.1 mem
    refine unlisted fun inside => ?_
    obtain ⟨s, found⟩ := h.exists_of_listed inside
    rw [h.fresh.1] at found
    cases found
  case symbols =>
    intro entry mem
    rw [new] at mem
    obtain ⟨s, found⟩ := Registry.contains_iff.1 (h.symbols entry mem)
    exact Registry.contains_iff.2 ⟨s, kept found⟩
  case unlisted =>
    intro x literal
    obtain ⟨early, absent⟩ := h.unlisted x literal
    exact ⟨by grind, unlisted absent⟩
  case mains =>
    intro x s y found literal
    rcases before found with ⟨-, rfl⟩ | found
    · exact main y literal
    · exact h.mains x s y found literal

/-! ### Places -/

/-- Without a parent a new reflection needs no place: it becomes a type literal. -/
theorem attachNowhere (h : p.IsSound literals [id]) (found : p.get? id = some r)
    (parent : r.parent = none) : p.IsSound (id :: literals) [] := by
  refine { h with owned := ?_, loose := nofun, unlisted := ?_, mains := ?_ }
  · intro x s owner foundX isParent
    rcases h.owned x s owner foundX isParent with new | listed
    · obtain rfl := List.mem_singleton.1 new
      obtain rfl := Option.some.inj (found.symm.trans foundX)
      exact (Option.some_ne_none owner (isParent.symm.trans parent)).elim
    · exact .inr listed
  · intro x literal
    rcases List.mem_cons.1 literal with rfl | old
    · exact ⟨(h.numbered x r found).2, h.loose x List.mem_cons_self⟩
    · exact h.unlisted x old
  · intro x s y foundX literal
    exact List.mem_cons_of_mem _ (h.mains x s y foundX literal)

/-- A new declaration without parent may be put at the top level. -/
theorem attachTop (h : p.IsSound literals [id]) (found : p.get? id = some r)
    (place : r.position id = .free id) (new : id ∉ literals) :
    { p with children := p.children ++ [id] }.IsSound literals [] := by
  have listed {q : Position} (mem : q ∈ { p with children := p.children ++ [id] }.listed) :
      q = .free id ∨ q ∈ p.listed := by
    obtain ⟨x, child, rfl⟩ | ⟨owner, o, found, inside⟩ := mem_listed.1 mem
    · rcases List.mem_append.1 child with child | last
      · exact .inr (mem_listed_top child)
      · exact .inl (List.mem_singleton.1 last ▸ rfl)
    · exact .inr (mem_listed_of_owner found inside)
  refine { h with placed := ?placed, topDistinct := ?topDistinct, owned := ?owned, loose := nofun,
                  unlisted := ?unlisted }
  case placed =>
    intro q mem
    rcases listed mem with rfl | mem
    · exact ⟨r, found, place⟩
    · exact h.placed q mem
  case topDistinct =>
    have loose : id ∉ p.children := fun child =>
      h.loose id List.mem_cons_self (mem_ids_listed.2 (.inl child))
    refine List.nodup_append.2 ⟨h.topDistinct, List.nodup_singleton id, ?_⟩
    rintro x child y last rfl
    exact loose (List.mem_singleton.1 last ▸ child)
  case owned =>
    intro x s owner foundX isParent
    rcases h.owned x s owner foundX isParent with work | inside
    · -- a child of the top level has no parent
      obtain rfl := List.mem_singleton.1 work
      obtain rfl := Option.some.inj (found.symm.trans foundX)
      have free : r.parent = none := congrArg Position.owner place
      exact (Option.some_ne_none owner (isParent.symm.trans free)).elim
    · exact .inr inside
  case unlisted =>
    intro x literal
    refine ⟨(h.unlisted x literal).1, fun mem => ?_⟩
    obtain ⟨q, inside, rfl⟩ := List.mem_map.1 mem
    rcases listed inside with rfl | before
    · exact new literal
    · exact (h.unlisted q.id literal).2 (List.mem_map_of_mem before)

/-- A new reflection may be put into a list or slot of its parent. What stood in the slot before
becomes work. -/
theorem attach (h : p.IsSound literals [id]) (found : p.get? id = some r)
    (parent : r.parent = some owner) (new : id ∉ literals) (foundOwner : p.get? owner = some o)
    (changed : f o = { o with body := b }) (takes : o.body.Takes owner (r.position id) replaced b) :
    (p.modify owner f).IsSound literals (replaced.map Position.id) := by
  have get?_modified (x : Id) :
      (p.modify owner f).get? x = if x = owner then some { o with body := b } else p.get? x := by
    rw [get?_modify]
    split
    · next same => rw [same, foundOwner, Option.map_some, changed]
    · rfl
  have backward {x : Id} {s' : Reflection} (found' : (p.modify owner f).get? x = some s') :
      ∃ s, p.get? x = some s ∧ s'.Resembles s ∧ s'.typeLiteral? = s.typeLiteral? := by
    rw [get?_modified] at found'
    split at found'
    · next same =>
      obtain rfl := Option.some.inj found'
      exact ⟨o, same ▸ foundOwner, ⟨rfl, rfl, takes.role⟩,
        congrArg (Option.bind · TypeExpr.declaration?) takes.type⟩
    · exact ⟨s', found', .refl s', rfl⟩
  have forward {x : Id} {s : Reflection} (foundX : p.get? x = some s) :
      ∃ s', (p.modify owner f).get? x = some s' ∧ s'.Resembles s := by
    rw [get?_modified]
    split
    · next same =>
      obtain rfl := Option.some.inj (foundOwner.symm.trans (same ▸ foundX))
      exact ⟨_, rfl, rfl, rfl, takes.role⟩
    · exact ⟨s, foundX, .refl s⟩
  have foundChanged : (p.modify owner f).get? owner = some { o with body := b } := by
    rw [get?_modified, if_pos rfl]
  have distinct := h.distinct owner o foundOwner
  have absent : (r.position id).id ∉ (o.body.listed owner).map Position.id := fun inside =>
    h.loose id List.mem_cons_self (mem_ids_listed.2 (.inr ⟨owner, o, foundOwner, inside⟩))
  have listed {q : Position} (mem : q ∈ (p.modify owner f).listed) :
      q = r.position id ∨ q ∈ p.listed := by
    obtain ⟨x, child, rfl⟩ | ⟨owner', o', found', inside⟩ := mem_listed.1 mem
    · exact .inr (mem_listed_top child)
    · rw [get?_modified] at found'
      split at found'
      · next same =>
        obtain rfl := Option.some.inj found'
        subst same
        exact (takes.of_mem inside).imp_right (mem_listed_of_owner foundOwner)
      · exact .inr (mem_listed_of_owner found' inside)
  refine
    { next := h.next
      numbered := ?numbered
      fits := ?fits
      placed := ?placed
      topDistinct := h.topDistinct
      distinct := ?distinct
      owned := ?owned
      loose := ?loose
      symbols := ?symbols
      symbolsDistinct := h.symbolsDistinct
      unlisted := ?unlisted
      mains := ?mains }
  case numbered =>
    intro x s' found'
    obtain ⟨s, foundX, -⟩ := backward found'
    exact h.numbered x s foundX
  case fits =>
    intro x s' found'
    obtain ⟨s, foundX, same, -⟩ := backward found'
    rw [same.role, same.kind]
    exact h.fits x s foundX
  case placed =>
    intro q mem
    rcases listed mem with rfl | old
    · obtain ⟨r', found', same⟩ := forward found
      exact ⟨r', found', same.position_eq id⟩
    · obtain ⟨s, foundQ, placed⟩ := h.placed q old
      obtain ⟨s', foundQ', same⟩ := forward foundQ
      exact ⟨s', foundQ', (same.position_eq q.id).trans placed⟩
  case distinct =>
    intro owner' o' found'
    rw [get?_modified] at found'
    split at found'
    · next same =>
      obtain rfl := Option.some.inj found'
      exact same ▸ takes.nodup distinct absent
    · exact h.distinct owner' o' found'
  case owned =>
    intro x s' owner' found' isParent
    obtain ⟨s, foundX, same, -⟩ := backward found'
    rcases h.owned x s owner' foundX (same.parent ▸ isParent) with work | ⟨o', foundOwner', inside⟩
    · obtain rfl := List.mem_singleton.1 work
      obtain rfl := Option.some.inj (found.symm.trans foundX)
      obtain rfl := Option.some.inj (isParent.symm.trans (same.parent.trans parent))
      exact .inr ⟨_, foundChanged, List.mem_map_of_mem takes.mem_new⟩
    · by_cases here : owner' = owner
      · -- what the owner listed before stays, or is the work
        subst here
        obtain rfl := Option.some.inj (foundOwner.symm.trans foundOwner')
        obtain ⟨q, mem, rfl⟩ := List.mem_map.1 inside
        exact (takes.mem_or_mem mem).imp List.mem_map_of_mem fun stays =>
          ⟨_, foundChanged, List.mem_map_of_mem stays⟩
      · exact .inr ⟨o', by rw [get?_modified, if_neg here, foundOwner'], inside⟩
  case loose =>
    intro x mem inside
    have before := takes.listed_of_replaced mem
    rcases mem_ids_listed.1 inside with child | ⟨owner', o', found', inside⟩
    · exact h.not_child_of_listed foundOwner before child
    · rw [get?_modified] at found'
      split at found'
      · next same =>
        obtain rfl := Option.some.inj found'
        exact takes.notMem distinct absent mem (same ▸ inside)
      · next other =>
        exact other (h.lister_eq found' inside foundOwner before)
  case symbols =>
    intro entry mem
    obtain ⟨s, foundS⟩ := Registry.contains_iff.1 (h.symbols entry mem)
    obtain ⟨s', foundS', -⟩ := forward foundS
    exact Registry.contains_iff.2 ⟨s', foundS'⟩
  case unlisted =>
    intro x literal
    refine ⟨(h.unlisted x literal).1, fun mem => ?_⟩
    obtain ⟨q, inside, rfl⟩ := List.mem_map.1 mem
    rcases listed inside with rfl | before
    · exact new literal
    · exact (h.unlisted q.id literal).2 (List.mem_map_of_mem before)
  case mains =>
    intro x s' y found' literal
    obtain ⟨s, foundX, -, same⟩ := backward found'
    exact h.mains x s y foundX (same.symm.trans literal)

/-! ### The additions -/

/-- A new reflection may be registered for a place in its parent. -/
theorem registerUnder (h : p.IsSound literals []) (foundOwner : p.get? owner = some o)
    (added : p.register r = .ok (id, p')) (parent : r.parent = some owner)
    (empty : ∀ self, r.body.listed self = []) (main : ∀ x, r.typeLiteral? = some x → x ∈ literals)
    (changed : f o = { o with body := b }) (takes : o.body.Takes owner (r.position id) replaced b) :
    (p'.modify owner f).IsSound literals (replaced.map Position.id) := by
  have new : id ∉ literals := (register_eq_ok added).1 ▸ h.fresh.2
  have found : p'.get? id = some r := by rw [get?_register added, if_pos rfl]
  exact (h.register added empty main).attach found parent new (h.get?_of_register added foundOwner)
    changed takes

/-- A new reflection may be registered for a place in a declaration. -/
theorem registerUnderDeclaration {d : Declaration} {g : Declaration → Declaration}
    (h : p.IsSound literals []) (isOwner : p.owningDeclaration owner role = .ok d)
    (added : p.register r = .ok (id, p')) (parent : r.parent = some owner)
    (empty : ∀ self, r.body.listed self = []) (main : ∀ x, r.typeLiteral? = some x → x ∈ literals)
    (takes : (Body.declaration d).Takes owner (r.position id) replaced (.declaration (g d))) :
    (p'.modifyDeclaration owner g).IsSound literals (replaced.map Position.id) := by
  obtain ⟨o, foundOwner, body⟩ := owningDeclaration_eq_ok isOwner
  refine h.registerUnder foundOwner added parent empty main ?_ (body ▸ takes)
  simp only [body]

/-- A new reflection may be registered for a place in a signature. -/
theorem registerUnderSignature {s : Signature} {g : Signature → Signature}
    (h : p.IsSound literals []) (isOwner : p.owningSignature owner role = .ok s)
    (added : p.register r = .ok (id, p')) (parent : r.parent = some owner)
    (empty : ∀ self, r.body.listed self = []) (main : ∀ x, r.typeLiteral? = some x → x ∈ literals)
    (takes : (Body.signature s).Takes owner (r.position id) replaced (.signature (g s))) :
    (p'.modifySignature owner g).IsSound literals (replaced.map Position.id) := by
  obtain ⟨o, foundOwner, body⟩ := owningSignature_eq_ok isOwner
  refine h.registerUnder foundOwner added parent empty main ?_ (body ▸ takes)
  simp only [body]

/-- Registering a symbol keeps a project sound. -/
theorem registerSymbol {symbol : Symbol} (h : p.IsSound literals work)
    (done : p.registerSymbol symbol id = .ok p') : p'.IsSound literals work := by
  unfold Project.registerSymbol at done
  split at done
  · next known =>
    obtain rfl := Except.ok.inj done
    refine ⟨h.next, h.numbered, h.fits, h.placed, h.topDistinct, h.distinct, h.owned, h.loose, ?_, ?_,
      h.unlisted, h.mains⟩
    · intro entry mem
      rcases List.mem_cons.1 mem with rfl | old
      · exact known
      · exact h.symbols entry (List.mem_filter.1 old).1
    · refine List.nodup_cons.2 ⟨fun mem => ?_, (List.filter_sublist.map _).nodup h.symbolsDistinct⟩
      obtain ⟨entry, other, same⟩ := List.mem_map.1 mem
      simpa [same] using (List.mem_filter.1 other).2
  · cases done

theorem registerSymbol? {symbol : Option Symbol} (h : p.IsSound literals work)
    (done : p.registerSymbol? symbol id = .ok p') : p'.IsSound literals work := by
  cases symbol with
  | none => exact Except.ok.inj done ▸ h
  | some symbol => exact h.registerSymbol done

/-- Adding a declaration keeps a project sound. -/
theorem addDeclaration {above : Option Id} (h : p.IsSound literals [])
    (added : p.addDeclaration above name kind symbol = .ok (id, p')) : p'.IsSound literals [] := by
  cases above with
  | none =>
      obtain ⟨p₁, registered, named⟩ := addDeclaration_top_eq_ok added
      have new : id ∉ literals := (register_eq_ok registered).1 ▸ h.fresh.2
      have found := (get?_register registered id).trans (if_pos rfl)
      have placed := (h.register registered (fun _ => rfl) nofun).attachTop found rfl new
      exact placed.registerSymbol? named
  | some owner =>
      obtain ⟨d, p₁, isOwner, registered, named⟩ := addDeclaration_under_eq_ok added
      have placed := h.registerUnderDeclaration
        (g := fun d => { d with children := d.children ++ [id] }) isOwner registered rfl
        (fun _ => rfl) nofun (Body.takes_child owner id d)
      exact placed.registerSymbol? named

/-- Adding a type literal keeps a project sound, with one more type literal. -/
theorem addTypeLiteral (h : p.IsSound literals [])
    (added : p.addTypeLiteral symbol = .ok (id, p')) : p'.IsSound (id :: literals) [] := by
  obtain ⟨p₁, registered, named⟩ := addTypeLiteral_eq_ok added
  have found := (get?_register registered id).trans (if_pos rfl)
  exact ((h.register registered (fun _ => rfl) nofun).attachNowhere found rfl).registerSymbol? named

/-- Adding a signature keeps a project sound: the signature that it replaces, if any, goes with all
it owns. -/
theorem addSignature (h : p.IsSound literals [])
    (added : p.addSignature owner name kind = .ok (id, p')) : p'.IsSound literals [] := by
  obtain ⟨d, p₁, isOwner, registered, rfl⟩ := addSignature_eq_ok added
  have placed := h.registerUnderDeclaration isOwner registered rfl (fun _ => rfl) nofun
    (Body.takes_signature owner id kind d)
  rw [List.map_map, Position.id_comp_under, List.map_id'] at placed
  exact placed.unregister

/-- Adding a parameter keeps a project sound. -/
theorem addParameter (h : p.IsSound literals [])
    (main : ∀ x, type.bind TypeExpr.declaration? = some x → x ∈ literals)
    (added : p.addParameter owner name type = .ok (id, p')) : p'.IsSound literals [] := by
  obtain ⟨s, p₁, isOwner, registered, rfl⟩ := addParameter_eq_ok added
  exact h.registerUnderSignature (g := fun s => { s with parameters := s.parameters ++ [id] })
    isOwner registered rfl (fun _ => rfl) main (Body.takes_parameter owner id s)

/-- Adding a type parameter keeps a project sound. -/
theorem addTypeParameter (h : p.IsSound literals [])
    (main : ∀ x, constraint.bind TypeExpr.declaration? = some x → x ∈ literals)
    (added : p.addTypeParameter owner name constraint default = .ok (id, p')) :
    p'.IsSound literals [] := by
  obtain ⟨o, p₁, foundOwner, fits, registered, rfl⟩ := addTypeParameter_eq_ok added
  exact h.registerUnder foundOwner registered rfl (fun _ => rfl) main rfl
    (Body.takes_typeParameter owner id fits)

end IsSound

/-! ### Main types -/

theorem contains_assignType (p : Project) (id : Id) (type : Option TypeExpr) (x : Id) :
    (p.assignType id type).contains x = p.contains x :=
  Registry.contains_modify _ _ _ _

/-- Assigning a main type changes nothing else. -/
theorem exists_of_get?_assignType {type : Option TypeExpr} {x : Id}
    (found : (p.assignType id type).get? x = some r) : ∃ s, p.get? x = some s ∧ r.Resembles s ∧
      r.body.listed x = s.body.listed x ∧
      (r.typeLiteral? = s.typeLiteral? ∨ r.typeLiteral? = type.bind TypeExpr.declaration?) := by
  rw [assignType, get?_modify] at found
  split at found
  · obtain ⟨s, before, rfl⟩ := Option.map_eq_some_iff.1 found
    refine ⟨s, before, ⟨rfl, rfl, Body.role_withType _ _⟩, Body.listed_withType _ _ _, .inr ?_⟩
    exact congrArg (Option.bind · TypeExpr.declaration?) (Body.type_withType type s.body)
  · exact ⟨r, found, .refl r, rfl, .inl rfl⟩

/-- Assigning a main type keeps a project sound, if a reflection type names a type literal. -/
theorem IsSound.assignType {type : Option TypeExpr} (h : p.IsSound literals work)
    (main : ∀ x, type.bind TypeExpr.declaration? = some x → x ∈ literals) :
    (p.assignType id type).IsSound literals work := by
  have part : (p.assignType id type).IsPartOf p := by
    refine ⟨rfl, .refl _, fun x r' found' => ?_⟩
    obtain ⟨r, found, same, listed, -⟩ := exists_of_get?_assignType found'
    exact ⟨r, found, same, listed ▸ .refl _⟩
  have known {x : Id} {s : Reflection} (found : p.get? x = some s) :
      (p.assignType id type).contains x = true :=
    (contains_assignType p id type x).trans (Registry.contains_iff.2 ⟨s, found⟩)
  refine h.shrink part ?remains ?owned ?loose ?symbols h.symbolsDistinct ?mains
  case remains =>
    intro q mem
    obtain ⟨s, foundQ, -⟩ := h.placed q (part.mem_listed mem)
    exact known foundQ
  case owned =>
    intro x r' owner found' parent
    obtain ⟨r, found, same, -⟩ := exists_of_get?_assignType found'
    refine (h.owned x r owner found (same.parent ▸ parent)).imp_right ?_
    rintro ⟨o, foundOwner, inside⟩
    obtain ⟨o', foundOwner'⟩ := Registry.contains_iff.1 (known foundOwner)
    obtain ⟨s, foundS, -, listed, -⟩ := exists_of_get?_assignType foundOwner'
    obtain rfl := Option.some.inj (foundOwner.symm.trans foundS)
    exact ⟨o', foundOwner', listed ▸ inside⟩
  case loose =>
    intro x mem inside
    obtain ⟨q, mem', rfl⟩ := List.mem_map.1 inside
    exact h.loose q.id mem (List.mem_map_of_mem (part.mem_listed mem'))
  case symbols =>
    intro entry mem
    exact (contains_assignType p id type entry.2).trans (h.symbols entry mem)
  case mains =>
    intro x r' y found' literal
    obtain ⟨r, found, -, -, same | same⟩ := exists_of_get?_assignType found'
    · exact h.mains x r y found (same.symm.trans literal)
    · exact main y (same.symm.trans literal)

end Project

end ApiGraph
