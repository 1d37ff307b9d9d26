import ApiGraph.Proofs.Allocation
import ApiGraph.Proofs.Nesting

/-!
# ApiGraph.Proofs.SignatureSlots

Which signatures stand in which slots. Edits put a signature only into the slot of its kind, and ids
are never given out again; so whatever else stands in a slot stood there from the start. A new project
has nothing in its slots. A decoded one has what the document puts there, be it of the slot's kind or of
another.

* `Slot.suits` — the kinds of signature that a slot is for.
* `Project.HoldsSignature`, `WireReflection.HoldsSignature` — what stands in the slots of a project and
  of a document.
* `Project.SlotsWithin`, `Project.FillsSlots` — what edits do to slots, without and with a new
  signature.
* `slotsSuit_run` — the slots at any time.
-/

namespace ApiGraph

/-! ### Slots for signatures -/

/-- The bits tell the kind. -/
theorem Kind.eq_of_bits_eq {kind kind' : Kind} (h : kind.bits = kind'.bits) : kind = kind' :=
  Option.some.inj ((Kind.ofBits?_eq_some_iff.2 h).symm.trans (Kind.ofBits?_eq_some_iff.2 rfl))

/-- Whether a slot is for signatures of a kind. -/
def Slot.suits : Slot → Kind → Bool
  | .signatures, kind => kind == .callSignature || kind == .constructorSignature
  | .indexSignature, kind => kind == .indexSignature
  | .getSignature, kind => kind == .getSignature
  | .setSignature, kind => kind == .setSignature
  | _, _ => false

/-- The ids in a slot for signatures. -/
def Body.signaturesIn : Body → Slot → List Id
  | .declaration d, .signatures => d.signatures
  | .declaration d, .indexSignature => d.indexSignature.toList
  | .declaration d, .getSignature => d.getSignature.toList
  | .declaration d, .setSignature => d.setSignature.toList
  | _, _ => []

/-- The signatures that a declaration of a document has in a slot. -/
def WireReflection.signaturesIn : WireReflection → Slot → List WireReflection
  | .mk _ _ signatures _ _ _ _ _ _ _ _ _ _ _ _ _, .signatures => signatures.getD []
  | .mk _ _ _ indexSignature _ _ _ _ _ _ _ _ _ _ _ _, .indexSignature => indexSignature.toList
  | .mk _ _ _ _ getSignature _ _ _ _ _ _ _ _ _ _ _, .getSignature => getSignature.toList
  | .mk _ _ _ _ _ setSignature _ _ _ _ _ _ _ _ _ _, .setSignature => setSignature.toList
  | _, _ => []

/-- In a slot of a registered declaration there is an id. -/
def Project.SlotHas (p : Project) (owner : Id) (slot : Slot) (id : Id) : Prop :=
  ∃ o, p.get? owner = some o ∧ id ∈ o.body.signaturesIn slot

/-- In a slot of a registered declaration there is a registered reflection of some kind. -/
def Project.HoldsSignature (p : Project) (owner : Id) (slot : Slot) (id : Id) (kind : Kind) :
    Prop :=
  p.SlotHas owner slot id ∧ ∃ s, p.get? id = some s ∧ s.kind = kind

/-- In a slot of a declaration the document has a signature of some kind. -/
def WireReflection.HoldsSignature (root : WireReflection) (owner : Id) (slot : Slot) (id : Id)
    (kind : Kind) : Prop :=
  ∃ q ∈ root.rootPlacements, q.role = .declaration ∧ q.id = owner ∧
    ∃ s ∈ q.object.signaturesIn slot, s.header.id = id ∧ s.header.kind = kind.bits

/-- Whatever is in a slot of a project suits it. -/
def Project.SlotsSuit (p : Project) : Prop :=
  ∀ owner slot id kind, p.HoldsSignature owner slot id kind → slot.suits kind = true

/-- Whatever a document has in a slot suits it. -/
def WireReflection.SlotsSuit (root : WireReflection) : Prop :=
  ∀ owner slot id kind, root.HoldsSignature owner slot id kind → slot.suits kind = true

namespace Body

variable {id x : Id} {slot : Slot}

/-- What is in a slot is listed as a signature. -/
theorem mem_listed_of_mem_signaturesIn {b : Body} (self : Id) (h : id ∈ b.signaturesIn slot) :
    .under self .signature id ∈ b.listed self := by
  cases b with
  | declaration d =>
      cases slot <;> simp [signaturesIn] at h <;> simp [listed, Position.under, h]
  | _ => cases slot <;> cases h

theorem signaturesIn_detach (id : Id) (b : Body) (slot : Slot) :
    (b.detach id).signaturesIn slot = (b.signaturesIn slot).filter (· != id) := by
  cases b <;> cases slot <;> simp [signaturesIn, detach, without]

theorem signaturesIn_withType (type : Option TypeExpr) (b : Body) (slot : Slot) :
    (b.withType type).signaturesIn slot = b.signaturesIn slot := by
  cases b <;> cases slot <;> rfl

theorem signaturesIn_placeTypeParameter (id : Id) (b : Body) (slot : Slot) :
    ((Project.placeTypeParameter? id b).getD b).signaturesIn slot = b.signaturesIn slot := by
  cases b <;> cases slot <;> rfl

/-- A new signature takes a place that suits it. -/
theorem mem_signaturesIn_placeSignature {kind : Kind} {d : Declaration}
    (isSignature : kind.isSignature = true)
    (h : x ∈ (Body.declaration (Project.placeSignature kind id d)).signaturesIn slot) :
    x ∈ (Body.declaration d).signaturesIn slot ∨ x = id ∧ slot.suits kind = true := by
  unfold Project.placeSignature at h
  cases kind with
  | indexSignature | getSignature | setSignature | callSignature | constructorSignature =>
      cases slot <;> simp_all [signaturesIn, Slot.suits]
  | _ => cases isSignature

end Body

/-- A reflection of the same kind, with no more in its slots. -/
structure Reflection.SlotsWithin (r' r : Reflection) : Prop where
  kind : r'.kind = r.kind
  slots : ∀ slot, r'.body.signaturesIn slot ⊆ r.body.signaturesIn slot

namespace Reflection.SlotsWithin

variable {r r' r₁ : Reflection}

theorem refl (r : Reflection) : r.SlotsWithin r := ⟨rfl, fun _ => List.Subset.refl _⟩

theorem trans (h : r'.SlotsWithin r₁) (h' : r₁.SlotsWithin r) : r'.SlotsWithin r where
  kind := h.kind.trans h'.kind
  slots slot := List.Subset.trans (h.slots slot) (h'.slots slot)

theorem detach (id : Id) (r : Reflection) : (r.detach id).SlotsWithin r where
  kind := rfl
  slots slot := by
    show (r.body.detach id).signaturesIn slot ⊆ _
    rw [Body.signaturesIn_detach]
    exact List.filter_subset_self _

end Reflection.SlotsWithin

namespace Project

variable {p p' p₁ : Project} {owner id : Id} {slot : Slot} {kind : Kind} {r : Reflection}
  {f : Reflection → Reflection}

/-! ### Edits without a new signature -/

/-- A change that registers nothing, and puts nothing into a slot. -/
structure SlotsWithin (p' p : Project) : Prop where
  nextId : p'.nextId = p.nextId
  each : ∀ id r', p'.get? id = some r' → ∃ r, p.get? id = some r ∧ r'.SlotsWithin r

namespace SlotsWithin

theorem slotHas (h : p'.SlotsWithin p) (has : p'.SlotHas owner slot id) :
    p.SlotHas owner slot id := by
  obtain ⟨o', found', mem⟩ := has
  obtain ⟨o, found, within⟩ := h.each owner o' found'
  exact ⟨o, found, within.slots slot mem⟩

/-- Whatever is registered was registered before. -/
theorem of_get? (nextId : p'.nextId = p.nextId)
    (before : ∀ id r', p'.get? id = some r' → p.get? id = some r') : p'.SlotsWithin p where
  nextId := nextId
  each id r' found := ⟨r', before id r' found, .refl r'⟩

theorem refl (p : Project) : p.SlotsWithin p := .of_get? rfl fun _ _ found => found

theorem trans (h : p'.SlotsWithin p₁) (h' : p₁.SlotsWithin p) : p'.SlotsWithin p where
  nextId := h.nextId.trans h'.nextId
  each id r' found' := by
    obtain ⟨r₁, found₁, within⟩ := h.each id r' found'
    obtain ⟨r, found, within'⟩ := h'.each id r₁ found₁
    exact ⟨r, found, within.trans within'⟩

theorem modify (p : Project) (id : Id) (within : ∀ r, (f r).SlotsWithin r) :
    (p.modify id f).SlotsWithin p where
  nextId := rfl
  each x r' found := by
    rw [get?_modify] at found
    split at found
    · obtain ⟨r, before, rfl⟩ := Option.map_eq_some_iff.1 found
      exact ⟨r, before, within r⟩
    · exact ⟨r', found, .refl r'⟩

/-- A declaration may be replaced by one with the same in its slots. -/
theorem modifyDeclaration (p : Project) (id : Id) {g : Declaration → Declaration}
    (slots : ∀ d slot, (Body.declaration (g d)).signaturesIn slot =
      (Body.declaration d).signaturesIn slot) : (p.modifyDeclaration id g).SlotsWithin p := by
  refine .modify p id fun r => ?_
  split
  · next d body =>
    refine ⟨rfl, fun slot => ?_⟩
    rw [slots, body]
    exact List.Subset.refl _
  · exact .refl r

/-- A signature has no slots for signatures. -/
theorem modifySignature (p : Project) (id : Id) (g : Signature → Signature) :
    (p.modifySignature id g).SlotsWithin p := by
  refine .modify p id fun r => ?_
  split
  · refine ⟨rfl, fun slot x mem => ?_⟩
    cases slot <;> cases mem
  · exact .refl r

theorem unregister (p : Project) (work : List Id) : (p.unregister work).SlotsWithin p :=
  .of_get? (shrinksTo_unregister p work).nextId fun _ _ found => (of_get?_unregister found).2

theorem registerSymbol {symbol : Symbol} (named : p.registerSymbol symbol id = .ok p') :
    p'.SlotsWithin p := by
  unfold Project.registerSymbol at named
  split at named
  · obtain rfl := Except.ok.inj named
    exact .of_get? rfl fun _ _ found => found
  · cases named

theorem registerSymbol? {symbol : Option Symbol} (named : p.registerSymbol? symbol id = .ok p') :
    p'.SlotsWithin p := by
  cases symbol with
  | none =>
      obtain rfl := Except.ok.inj named
      exact .refl p
  | some symbol => exact .registerSymbol named

theorem remove (removed : p.remove id = .ok (r, p')) : p'.SlotsWithin p where
  nextId := (shrinksTo_remove removed).nextId
  each x r' found := by
    obtain ⟨s, removal⟩ := isRemoval_of_remove removed
    obtain ⟨-, r, before, rfl⟩ := removal.exists_of_get? found
    refine ⟨r, before, ?_⟩
    split
    · exact .detach id r
    · exact .refl r

theorem assignType (p : Project) (id : Id) (type : Option TypeExpr) :
    (p.assignType id type).SlotsWithin p := by
  refine .modify p id fun r => ⟨rfl, fun slot => ?_⟩
  rw [Body.signaturesIn_withType]
  exact List.Subset.refl _

end SlotsWithin

/-! ### Edits with a new signature -/

/-- What an edit may do to slots: put the next id, which moves on, into a slot that suits the new
reflection. All else was registered and stood in its slot before. -/
structure FillsSlots (p p' : Project) : Prop where
  nextId : p.nextId ≤ p'.nextId
  kind : ∀ id r', p'.get? id = some r' → id = p.nextId ∨ ∃ r, p.get? id = some r ∧ r'.kind = r.kind
  slots : ∀ owner slot id, p'.SlotHas owner slot id → p.SlotHas owner slot id ∨
    id = p.nextId ∧ p.nextId < p'.nextId ∧
      ∀ r', p'.get? id = some r' → slot.suits r'.kind = true

namespace FillsSlots

theorem of_slotsWithin (h : p'.SlotsWithin p) : p.FillsSlots p' where
  nextId := Int.le_of_eq h.nextId.symm
  kind id r' found := by
    obtain ⟨r, before, within⟩ := h.each id r' found
    exact .inr ⟨r, before, within.kind⟩
  slots owner slot id has := .inl (h.slotHas has)

theorem shrink (h : p.FillsSlots p₁) (h' : p'.SlotsWithin p₁) : p.FillsSlots p' where
  nextId := h'.nextId ▸ h.nextId
  kind id r' found := by
    obtain ⟨r₁, before, within⟩ := h'.each id r' found
    rw [within.kind]
    exact h.kind id r₁ before
  slots owner slot id has := by
    refine (h.slots owner slot id (h'.slotHas has)).imp_right fun ⟨isNext, moves, suits⟩ => ?_
    refine ⟨isNext, h'.nextId.symm ▸ moves, fun r' found => ?_⟩
    obtain ⟨r₁, before, within⟩ := h'.each id r' found
    exact within.kind ▸ suits r₁ before

/-- A new reflection has nothing in its slots. -/
theorem slotHas_of_register (added : p.register r = .ok (id, p₁))
    (bare : ∀ slot, r.body.signaturesIn slot = []) {owner x : Id} (has : p₁.SlotHas owner slot x) :
    p.SlotHas owner slot x := by
  obtain ⟨o, found, mem⟩ := has
  rw [get?_register added] at found
  split at found
  · obtain rfl := Option.some.inj found
    rw [bare] at mem
    cases mem
  · exact ⟨o, found, mem⟩

/-- A new reflection stands in no slot yet. -/
theorem register (added : p.register r = .ok (id, p₁))
    (bare : ∀ slot, r.body.signaturesIn slot = []) : p.FillsSlots p₁ := by
  obtain ⟨rfl, -, -, rfl⟩ := register_eq_ok added
  refine ⟨Int.le_of_lt (Int.lt_succ _), fun id r' found => ?_, fun owner slot id has => ?_⟩
  · rw [get?_register added] at found
    split at found
    · next isNext => exact .inl isNext
    · exact .inr ⟨r', found, rfl⟩
  · exact .inl (slotHas_of_register added bare has)

/-- A new signature takes the place in its owner that suits it. -/
theorem place {name : String} (added : p.register
      { name, kind, parent := some owner, body := .signature {} } = .ok (id, p₁)) :
    p.FillsSlots (p₁.modifyDeclaration owner (placeSignature kind id)) := by
  have bare (slot : Slot) : (Body.signature {}).signaturesIn slot = [] := by cases slot <;> rfl
  have new : p.FillsSlots p₁ := .register added bare
  obtain ⟨isNext, -, isSignature, next⟩ := register_eq_ok added
  have moves : p₁.nextId = p.nextId + 1 := by rw [next]
  have kept (x : Id) (r' : Reflection)
      (found : (p₁.modifyDeclaration owner (placeSignature kind id)).get? x = some r') :
      ∃ r, p₁.get? x = some r ∧ r'.kind = r.kind ∧ ∀ slot, ∀ y ∈ r'.body.signaturesIn slot,
        y ∈ r.body.signaturesIn slot ∨ y = id ∧ slot.suits kind = true := by
    rw [modifyDeclaration, get?_modify] at found
    split at found
    · obtain ⟨r, before, rfl⟩ := Option.map_eq_some_iff.1 found
      refine ⟨r, before, by split <;> rfl, fun slot y mem => ?_⟩
      split at mem
      · next d body =>
        rw [body]
        exact Body.mem_signaturesIn_placeSignature isSignature mem
      · exact .inl mem
    · exact ⟨r', found, rfl, fun _ _ mem => .inl mem⟩
  refine ⟨new.nextId, fun x r' found => ?_, fun owner' slot x has => ?_⟩
  · obtain ⟨r, before, same, -⟩ := kept x r' found
    exact same ▸ new.kind x r before
  · obtain ⟨o', found, mem⟩ := has
    obtain ⟨o, before, -, places⟩ := kept owner' o' found
    rcases places slot x mem with old | ⟨rfl, suits⟩
    · exact .inl (slotHas_of_register added bare ⟨o, before, old⟩)
    · refine .inr ⟨isNext, moves ▸ Int.lt_succ _, fun r' found => ?_⟩
      obtain ⟨r, before, same, -⟩ := kept x r' found
      rw [get?_register added, if_pos rfl] at before
      rw [same, ← Option.some.inj before]
      exact suits

variable {name : String} {symbol : Option Symbol}

theorem addDeclaration {above : Option Id}
    (added : p.addDeclaration above name kind symbol = .ok (id, p')) : p.FillsSlots p' := by
  cases above with
  | none =>
      obtain ⟨p₁, registered, named⟩ := addDeclaration_top_eq_ok added
      have new : p.FillsSlots p₁ := .register registered fun slot => by cases slot <;> rfl
      have top : { p₁ with children := p₁.children ++ [id] }.SlotsWithin p₁ :=
        .of_get? rfl fun _ _ found => found
      exact new.shrink ((SlotsWithin.registerSymbol? named).trans top)
  | some owner =>
      obtain ⟨d, p₁, -, registered, named⟩ := addDeclaration_under_eq_ok added
      have new : p.FillsSlots p₁ := .register registered fun slot => by cases slot <;> rfl
      have under : (p₁.modifyDeclaration owner fun d =>
          { d with children := d.children ++ [id] }).SlotsWithin p₁ :=
        .modifyDeclaration p₁ owner fun d slot => by cases slot <;> rfl
      exact new.shrink ((SlotsWithin.registerSymbol? named).trans under)

theorem addTypeLiteral (added : p.addTypeLiteral symbol = .ok (id, p')) : p.FillsSlots p' := by
  obtain ⟨p₁, registered, named⟩ := addTypeLiteral_eq_ok added
  have new : p.FillsSlots p₁ := .register registered fun slot => by cases slot <;> rfl
  exact new.shrink (.registerSymbol? named)

theorem addSignature (added : p.addSignature owner name kind = .ok (id, p')) : p.FillsSlots p' := by
  obtain ⟨d, p₁, -, registered, rfl⟩ := addSignature_eq_ok added
  exact (place registered).shrink (.unregister _ _)

theorem addParameter {type : Option TypeExpr}
    (added : p.addParameter owner name type = .ok (id, p')) : p.FillsSlots p' := by
  obtain ⟨s, p₁, -, registered, rfl⟩ := addParameter_eq_ok added
  have new : p.FillsSlots p₁ := .register registered fun slot => by cases slot <;> rfl
  exact new.shrink (.modifySignature p₁ owner _)

theorem addTypeParameter {constraint default : Option TypeExpr}
    (added : p.addTypeParameter owner name constraint default = .ok (id, p')) :
    p.FillsSlots p' := by
  obtain ⟨o, p₁, -, -, registered, rfl⟩ := addTypeParameter_eq_ok added
  have new : p.FillsSlots p₁ := .register registered fun slot => by cases slot <;> rfl
  refine new.shrink (.modify p₁ owner fun r => ⟨rfl, fun slot => ?_⟩)
  show ((placeTypeParameter? id r.body).getD r.body).signaturesIn slot ⊆ _
  rw [Body.signaturesIn_placeTypeParameter]
  exact List.Subset.refl _

end FillsSlots

/-! ### Slots at any time -/

/-- A slot has only ids that were given out, and what it holds suits it or stood there in `p₀`. -/
structure SlotsFrom (p₀ p : Project) : Prop where
  below : ∀ owner slot id, p.SlotHas owner slot id → id < p.nextId
  suits : ∀ owner slot id kind, p.HoldsSignature owner slot id kind →
    slot.suits kind = true ∨ p₀.HoldsSignature owner slot id kind

/-- A new id is in no slot, so what stands there keeps its kind. -/
theorem SlotsFrom.step {p₀ : Project} (h : p₀.SlotsFrom p) (fills : p.FillsSlots p') :
    p₀.SlotsFrom p' where
  below owner slot id has := by
    rcases fills.slots owner slot id has with before | ⟨rfl, moves, -⟩
    · exact Int.lt_of_lt_of_le (h.below owner slot id before) fills.nextId
    · exact moves
  suits owner slot id kind holds := by
    obtain ⟨has, s', found, rfl⟩ := holds
    rcases fills.slots owner slot id has with before | ⟨-, -, suits⟩
    · have old : id ≠ p.nextId := Int.ne_of_lt (h.below owner slot id before)
      obtain ⟨s, foundBefore, same⟩ := (fills.kind id s' found).resolve_left old
      exact h.suits owner slot id s'.kind ⟨before, s, foundBefore, same.symm⟩
    · exact .inl (suits s' found)

/-- In a sound project every slot has ids that were given out. -/
theorem IsSound.slotsFrom {literals : List Id} (h : p.IsSound literals []) : p.SlotsFrom p where
  below owner slot id has := by
    obtain ⟨o, found, mem⟩ := has
    have listed := mem_listed_of_owner found (Body.mem_listed_of_mem_signaturesIn owner mem)
    obtain ⟨s, foundId, -⟩ := h.placed _ listed
    exact (h.numbered id s foundId).2
  suits owner slot id kind holds := .inr holds

end Project

namespace Stage

variable {s s' : Stage} {e : Edit}

/-- What an edit does to slots. -/
theorem fillsSlots_edit (done : s.edit e = .ok s') : s.project.FillsSlots s'.project := by
  cases edited_of_edit done with
  | addDeclaration added => exact .addDeclaration added
  | addTypeLiteral added => exact .addTypeLiteral added
  | addSignature added => exact .addSignature added
  | addParameter added => exact .addParameter added
  | addTypeParameter added => exact .addTypeParameter added
  | registerSymbol named => exact .of_slotsWithin (.registerSymbol named)
  | remove removed => exact .of_slotsWithin (.remove removed)
  | assignType => exact .of_slotsWithin (.assignType _ _ _)

theorem fillsSlots_apply (s : Stage) (e : Edit) : s.project.FillsSlots (s.apply e).project := by
  unfold apply
  split
  · next done => exact fillsSlots_edit done
  · exact .of_slotsWithin (.refl _)

theorem slotsFrom_run {p₀ : Project} (h : p₀.SlotsFrom s.project) (es : List Edit) :
    p₀.SlotsFrom (s.run es).project := by
  induction es generalizing s with
  | nil => exact h
  | cons e es ih => exact ih (h.step (s.fillsSlots_apply e))

end Stage

/-! ### Slots of documents -/

namespace WireReflection

variable {root : WireReflection} {owner id : Id} {slot : Slot} {kind : Kind}

/-- Only a declaration has slots for signatures, with the ids that the document has there. -/
theorem mem_signaturesIn_body {known : Id → Bool} {role : Role} {r : WireReflection} :
    id ∈ (r.body known role).signaturesIn slot ↔
      role = .declaration ∧ ∃ s ∈ r.signaturesIn slot, s.header.id = id := by
  cases r
  cases role <;> cases slot <;> simp [body, Body.signaturesIn, signaturesIn, idsOf, idOf?]

/-- A signature in a slot is read below its declaration. -/
theorem parts_subset_of_mem_signaturesIn {parent : Option Id} {r s : WireReflection}
    (h : s ∈ r.signaturesIn slot) :
    s.parts .signature (some r.header.id) ⊆ r.parts .declaration parent := by
  intro part mem
  cases r with
  | mk header children signatures indexSignature getSignature setSignature =>
      cases slot with
      | signatures =>
          cases signatures with
          | none => cases h
          | some rs =>
              have inside : part ∈ partsOfReflections .signature (some header.id) rs :=
                parts_subset_partsOfReflections h mem
              simp [parts, partsOfReflections?, inside]
      | indexSignature | getSignature | setSignature =>
          obtain rfl : _ = some s := Option.mem_toList.1 h
          have inside : part ∈ s.parts .signature (some header.id) := mem
          simp [parts, partsOfReflection?, inside]
      | _ => cases h

/-- What a document has in a slot is a reflection of the document. -/
theorem mem_rootPlacements_of_mem_signaturesIn {q : Placement} {s : WireReflection}
    (mem : q ∈ root.rootPlacements) (role : q.role = .declaration)
    (inside : s ∈ q.object.signaturesIn slot) :
    ⟨.signature, some q.id, s⟩ ∈ root.rootPlacements := by
  have whole := root.includes_rootParts q (mem_placements.1 mem)
  rw [role] at whole
  have own := s.object_mem_parts .signature (some q.object.header.id)
  exact mem_placements.2 (whole (parts_subset_of_mem_signaturesIn inside own))

/-- Each reflection of a document is registered with its kind. -/
theorem exists_get?_project (h : root.IsProject) {q : Placement} (mem : q ∈ root.rootPlacements) :
    ∃ known, root.project.get? q.id = some (q.reflection known) ∧
      (q.reflection known).kind.bits = q.object.header.kind := by
  obtain ⟨pre, post, split⟩ := List.append_of_mem mem
  have valid : q.IsValid := h.valid (.object q) (mem_placements.1 mem)
  exact ⟨_, get?_project h split, (Placement.accepts_reflection valid _).2⟩

/-- **A decoded project has in its slots what the document has there.** -/
theorem holdsSignature_project (h : root.IsProject) :
    root.project.HoldsSignature owner slot id kind ↔ root.HoldsSignature owner slot id kind := by
  constructor
  · intro holds
    obtain ⟨⟨o, found, inside⟩, s, foundId, rfl⟩ := holds
    obtain ⟨pre, q, post, split, rfl, rfl⟩ := exists_of_get?_project h found
    have mem : q ∈ root.rootPlacements := by rw [split]; simp
    obtain ⟨role, t, inObject, rfl⟩ := mem_signaturesIn_body.1 inside
    have below := mem_rootPlacements_of_mem_signaturesIn mem role inObject
    obtain ⟨known, foundT, bits⟩ := exists_get?_project h below
    obtain rfl := Option.some.inj (foundId.symm.trans foundT)
    exact ⟨q, mem, role, rfl, t, inObject, rfl, bits.symm⟩
  · intro holds
    obtain ⟨q, mem, role, rfl, t, inside, rfl, bits⟩ := holds
    obtain ⟨known, found, -⟩ := exists_get?_project h mem
    have below := mem_rootPlacements_of_mem_signaturesIn mem role inside
    obtain ⟨known', foundT, bits'⟩ := exists_get?_project h below
    exact ⟨⟨_, found, mem_signaturesIn_body.2 ⟨role, t, inside, rfl⟩⟩, _, foundT,
      Kind.eq_of_bits_eq (bits'.trans bits)⟩

/-- What a valid document has in a slot is a signature of some kind. -/
theorem HoldsSignature.isSignature (h : root.IsProject)
    (holds : root.HoldsSignature owner slot id kind) : kind.isSignature = true := by
  obtain ⟨q, mem, role, rfl, s, inside, rfl, bits⟩ := holds
  have below := mem_rootPlacements_of_mem_signaturesIn mem role inside
  obtain ⟨kind', known, fits⟩ := (h.valid (.object _) (mem_placements.1 below)).kind
  obtain rfl : kind' = kind := Kind.eq_of_bits_eq ((Kind.ofBits?_eq_some_iff.1 known).trans bits)
  exact fits

end WireReflection

theorem Slot.isSignature_of_suits {slot : Slot} {kind : Kind} (h : slot.suits kind = true) :
    kind.isSignature = true := by
  cases slot <;> cases kind <;> first | rfl | cases h

/-- **A signature stands in a slot for its kind, unless a document put it elsewhere.** From a new
project every run keeps signatures and slots together. A decoded project does so exactly if the document
does; and whatever does not suit its slot at the end of a run, the document had there. -/
theorem slotsSuit_run (s : Stage) (es : List Edit) :
    (∀ name, s.project = { name } → (s.run es).project.SlotsSuit) ∧
      ∀ root, Project.ofWire root = .ok s.project →
        (s.project.SlotsSuit ↔ root.SlotsSuit) ∧
        ∀ owner slot id kind, (s.run es).project.HoldsSignature owner slot id kind →
          kind.isSignature = true ∧
            (slot.suits kind = true ∨ root.HoldsSignature owner slot id kind) := by
  have atEnd (start : s.project.IsStart) : s.project.SlotsFrom (s.run es).project := by
    obtain ⟨literals, sound⟩ := start.exists_isSound
    exact Stage.slotsFrom_run sound.slotsFrom es
  constructor
  · intro name same owner slot id kind holds
    rw [same] at atEnd
    refine ((atEnd (.new name)).suits owner slot id kind holds).resolve_right fun before => ?_
    obtain ⟨⟨o, found, -⟩, -⟩ := before
    cases found
  · intro root decoded
    have start : s.project.IsStart := .decoded root _ decoded
    obtain ⟨valid, same⟩ := ofWire_eq_ok_iff.1 decoded
    have asDocument (owner : Id) (slot : Slot) (id : Id) (kind : Kind) :
        s.project.HoldsSignature owner slot id kind ↔ root.HoldsSignature owner slot id kind := by
      rw [same]
      exact WireReflection.holdsSignature_project valid
    refine ⟨?_, fun owner slot id kind holds => ?_⟩
    · simp only [Project.SlotsSuit, WireReflection.SlotsSuit, asDocument]
    · rcases (atEnd start).suits owner slot id kind holds with suits | before
      · exact ⟨Slot.isSignature_of_suits suits, .inl suits⟩
      · have inDocument := (asDocument owner slot id kind).1 before
        exact ⟨inDocument.isSignature valid, .inr inDocument⟩

/-- A class with a signature in the slot for index signatures. -/
def dictionary (kind : Kind) : WireReflection :=
  .mk { id := 1, name := "Dictionary", kind := 0x80 } none none
    (some (.ofHeader { id := 2, name := "__index", kind := kind.bits }))
    none none none none none none none none none none none false

/-- A document of that class only. -/
def dictionaryDocument (kind : Kind) : WireReflection :=
  .mk { id := 0, name := "library", kind := 0 } (some [dictionary kind])
    none none none none none none none none none none none none none false

theorem rootParts_dictionaryDocument (kind : Kind) : (dictionaryDocument kind).rootParts =
    [.object ⟨.signature, some 1, .ofHeader { id := 2, name := "__index", kind := kind.bits }⟩,
      .object ⟨.declaration, none, dictionary kind⟩] := rfl

theorem isProject_dictionaryDocument {kind : Kind} (isSignature : kind.isSignature = true) :
    (dictionaryDocument kind).IsProject := by
  have first : (1 : Id) ≤ 1 ∧ (1 : Id) ≤ maxId - 1 := by decide
  have second : (1 : Id) ≤ 2 ∧ (2 : Id) ≤ maxId - 1 := by decide
  refine ⟨rfl, fun part mem => ?_, show [(2 : Id), 1].Nodup by decide⟩
  rw [rootParts_dictionaryDocument] at mem
  simp only [List.mem_cons, List.not_mem_nil, or_false] at mem
  rcases mem with rfl | rfl
  · exact ⟨⟨kind, Kind.ofBits?_eq_some_iff.2 rfl, isSignature⟩, second.1, second.2⟩
  · exact ⟨⟨.classType, rfl, rfl⟩, first.1, first.2⟩

/-- The stage at which the document has just been decoded. -/
def dictionaryStage (kind : Kind) : Stage :=
  { project := (dictionaryDocument kind).project, literals := [] }

theorem ofWire_dictionaryDocument {kind : Kind} (isSignature : kind.isSignature = true) :
    Project.ofWire (dictionaryDocument kind) = .ok (dictionaryStage kind).project :=
  ofWire_eq_ok_iff.2 ⟨isProject_dictionaryDocument isSignature, rfl⟩

theorem slotsSuit_dictionaryDocument : (dictionaryDocument .indexSignature).SlotsSuit := by
  intro owner slot id kind holds
  obtain ⟨q, mem, role, -, s, inside, -, bits⟩ := holds
  rw [WireReflection.rootPlacements, rootParts_dictionaryDocument] at mem
  simp only [placements_object, placements_nil, List.mem_cons, List.not_mem_nil, or_false] at mem
  obtain rfl | rfl := mem
  · cases role
  · cases slot with
    | indexSignature =>
        obtain rfl := List.mem_singleton.1 inside
        obtain rfl : Kind.indexSignature = kind := Kind.eq_of_bits_eq bits
        rfl
    | _ => cases inside

/-- An index signature that replaces the one of the document stands in its slot, and a getter of a new
declaration in its own. -/
theorem slotsSuit_run_dictionary :
    ((dictionaryStage .indexSignature).run
      [.addSignature 1 "__index" .indexSignature]).project.SlotsSuit ∧
    (newStage.run [.addDeclaration none "Dictionary" .classType none,
      .addSignature 1 "size" .getSignature]).project.SlotsSuit := by
  have decoded := (slotsSuit_run (dictionaryStage .indexSignature)
    [.addSignature 1 "__index" .indexSignature]).2 _ (ofWire_dictionaryDocument rfl)
  have new := (slotsSuit_run newStage [.addDeclaration none "Dictionary" .classType none,
    .addSignature 1 "size" .getSignature]).1 "library" rfl
  refine ⟨fun owner slot id kind holds => ?_, new⟩
  rcases (decoded.2 owner slot id kind holds).2 with suits | before
  · exact suits
  · exact slotsSuit_dictionaryDocument owner slot id kind before

/-- A call signature in the slot for index signatures is decoded as it stands. -/
theorem not_slotsSuit_callDictionary : ∃ p,
    Project.ofWire (dictionaryDocument .callSignature) = .ok p ∧
    p.HoldsSignature 1 .indexSignature 2 .callSignature ∧ ¬p.SlotsSuit := by
  have holds : (dictionaryStage .callSignature).project.HoldsSignature 1 .indexSignature 2
      .callSignature :=
    ⟨⟨_, rfl, List.mem_cons_self⟩, _, rfl, rfl⟩
  exact ⟨_, ofWire_dictionaryDocument rfl, holds, fun suit => nomatch suit _ _ _ _ holds⟩

end ApiGraph
