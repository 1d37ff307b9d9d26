import ApiGraph.Proofs.Grouping
import ApiGraph.Proofs.InPlace
import ApiGraph.Proofs.Refusal

/-!
# ApiGraph.Proofs.Atomic

All or nothing. Whatever was done to a project before, nothing is registered under its next id; so an
edit in place that fails leaves the project as it was, and an addition that succeeds registers its
reflection, puts it in its place and changes nothing else, unless a signature makes another one go.

* `Project.Arises` — the projects that any public use leads to, with `Arises.isIndexed`.
* `Newcomer`, `Edit.newcomer?` — what an addition brings along, and where it goes.
* `Project.Receives` — what a project is after it has received a newcomer: the frame of an addition.
* `atomic_of_arises` — all or nothing.
-/

namespace ApiGraph

/-! ### Newcomers -/

/-- The body with another declaration, if it is one. -/
def Body.onDeclaration (f : Declaration → Declaration) : Body → Body
  | .declaration d => .declaration (f d)
  | body => body

/-- The body with another signature, if it is one. -/
def Body.onSignature (f : Signature → Signature) : Body → Body
  | .signature s => .signature (f s)
  | body => body

/-- What an addition brings to a project. The owner, if there is one, is the reflection's parent. -/
structure Newcomer where
  reflection : Reflection
  /-- What becomes of the owner's body when it gets the new id. -/
  place : Id → Body → Body := fun _ body => body
  /-- Whether the top level lists it. -/
  isTop : Bool := false
  symbol : Option Symbol := none
  /-- The signature that loses its slot. -/
  replaced : Option Id := none

/-- The signature that a declaration has in the slot of a kind. The other kinds have no slot. -/
def Declaration.inSlotOf (kind : Kind) (d : Declaration) : Option Id :=
  if kind = .indexSignature then d.indexSignature
  else if kind = .getSignature then d.getSignature
  else if kind = .setSignature then d.setSignature
  else none

/-- What an edit brings to a project, if it is an addition. What becomes of the owner is written out field
by field: it gets the id at the end of one list, or in the slot of the signature's kind. -/
def Edit.newcomer? (p : Project) : Edit → Option Newcomer
  | .addDeclaration parent name kind symbol => some
    { reflection := { name, kind, parent, body := .declaration {} }
      place := fun id => Body.onDeclaration fun d => { d with children := d.children ++ [id] }
      isTop := parent.isNone
      symbol }
  | .addTypeLiteral symbol => some
    { reflection :=
        { name := Project.typeLiteralName, kind := .typeLiteral, body := .declaration {} }
      symbol }
  | .addSignature parent name kind => some
    { reflection := { name, kind, parent := some parent, body := .signature {} }
      place := fun id => Body.onDeclaration fun d => { d with
        indexSignature := if kind = .indexSignature then some id else d.indexSignature
        getSignature := if kind = .getSignature then some id else d.getSignature
        setSignature := if kind = .setSignature then some id else d.setSignature
        signatures :=
          if kind ∈ [.indexSignature, .getSignature, .setSignature] then d.signatures
          else d.signatures ++ [id] }
      replaced := ((p.get? parent).bind Reflection.declaration?).bind (Declaration.inSlotOf kind) }
  | .addParameter signature name type => some
    { reflection :=
        { name, kind := .parameter, parent := some signature, body := .parameter { type } }
      place := fun id => Body.onSignature fun s => { s with parameters := s.parameters ++ [id] } }
  | .addTypeParameter owner name constraint default => some
    { reflection :=
        { name, kind := .typeParameter, parent := some owner,
          body := .typeParameter { constraint, default } }
      place := fun id body =>
        (body.onDeclaration fun d => { d with typeParameters := d.typeParameters ++ [id] }).onSignature
          fun s => { s with typeParameters := s.typeParameters ++ [id] } }
  | .registerSymbol _ _ | .remove _ | .assignType _ _ => none

namespace Project

variable {p p' : Project} {n : Newcomer} {id owner x : Id} {r : Reflection} {e : Edit}
  {work : List Id} {symbol : Option Symbol}

/-- What goes with the signature that loses its slot to a newcomer. -/
def Leaves (p : Project) (n : Newcomer) (x : Id) : Prop :=
  p.Goes n.replaced.toList x

/-- **The frame of an addition.** `p'` is what `p` is after a newcomer was registered under an id: the
owner, or the top level, has got the id, a given symbol has become it, and what went with a replaced
signature is gone with its symbols. -/
structure Receives (p : Project) (n : Newcomer) (id : Id) (p' : Project) : Prop where
  name : p'.name = p.name
  categories : p'.categories = p.categories
  isNext : id = p.nextId ∧ p'.nextId = id + 1
  /-- Nothing is overwritten. -/
  free : p.get? id = none
  children : p'.children = if n.isTop then p.children ++ [id] else p.children
  /-- The owner lists the new id and no longer the replaced one. -/
  owner : ∀ owner, n.reflection.parent = some owner → ∃ o, p.get? owner = some o ∧
    o.body.Takes owner (.under owner n.reflection.body.role id)
      (n.replaced.toList.map (.under owner .signature)) (n.place id o.body)
  /-- The newcomer is there, unless it is owned by what leaves. -/
  new : (∀ owner, n.reflection.parent = some owner → ¬p.Leaves n owner) → ¬p.Leaves n id →
    p'.get? id = some n.reflection
  gone : ∀ x, x ≠ id → p.Leaves n x → p'.get? x = none
  /-- All else is as it was, but for the owner. -/
  kept : ∀ x, x ≠ id → ¬p.Leaves n x → p'.get? x = (p.get? x).map fun r =>
    if n.reflection.parent = some x then { r with body := n.place id r.body } else r
  symbols : ∀ symbol x, (symbol, x) ∈ p'.symbols ↔ n.symbol = some symbol ∧ x = id ∨
    n.symbol ≠ some symbol ∧ (symbol, x) ∈ p.symbols ∧ ¬p.Leaves n x

/-! ### Unregistering and the index -/

/-- The index leads to registered reflections only. -/
def Indexes (p : Project) : Prop :=
  ∀ entry ∈ p.symbols, p.contains entry.2 = true

/-- The index loses the entries of what is dropped, and no others. -/
theorem mem_symbols_unregister (p : Project) (work : List Id) (symbol : Symbol) (x : Id) :
    (symbol, x) ∈ (p.unregister work).symbols ↔
      (symbol, x) ∈ p.symbols ∧ ¬(p.contains x = true ∧ p.Goes work x) := by
  have left : (p.unregister work).contains x = true ↔ _ := contains_unregister_iff
  rw [symbols_unregister, List.mem_filter, Bool.or_eq_true, left, Bool.not_eq_true']
  cases p.contains x <;> simp

/-- Remembering under a symbol changes the index only. -/
theorem registerSymbol?_eq_ok (named : p.registerSymbol? symbol id = .ok p') :
    p' = { p with symbols := symbol.elim p.symbols fun s =>
      (s, id) :: p.symbols.filter (·.1 != s) } := by
  cases symbol with
  | none => exact (Except.ok.inj named).symm
  | some symbol =>
      have named : p.registerSymbol symbol id = .ok p' := named
      unfold registerSymbol at named
      split at named
      · exact (Except.ok.inj named).symm
      · cases named

/-- The index still leads to registered reflections when some of them have gone. -/
theorem Indexes.unregister (h : p.Indexes) (work : List Id) : (p.unregister work).Indexes := by
  intro (symbol, x) mem
  obtain ⟨before, stays⟩ := (mem_symbols_unregister p work symbol x).1 mem
  have known := h _ before
  obtain ⟨r, found⟩ : ∃ r, p.get? x = some r := Registry.contains_iff.1 known
  have still := (get?_unregister p work x).2 fun goes => stays ⟨known, goes⟩
  exact Registry.contains_iff.2 ⟨r, still.trans found⟩

theorem Indexes.registerSymbol {symbol : Symbol} (h : p.Indexes)
    (named : p.registerSymbol symbol id = .ok p') : p'.Indexes := by
  unfold Project.registerSymbol at named
  split at named
  · next known =>
    obtain rfl := Except.ok.inj named
    intro entry mem
    rcases List.mem_cons.1 mem with rfl | before
    · exact known
    · exact h entry (List.mem_filter.1 before).1
  · cases named

theorem Indexes.registerSymbol? (h : p.Indexes) (named : p.registerSymbol? symbol id = .ok p') :
    p'.Indexes := by
  cases symbol with
  | none =>
      obtain rfl := Except.ok.inj named
      exact h
  | some symbol => exact h.registerSymbol named

/-! ### Receiving -/

/-- The project with a newcomer in its place, before anything leaves. -/
def receive (p : Project) (n : Newcomer) : Project :=
  let registered : Project :=
    { p with
      nextId := p.nextId + 1
      registry := p.registry.insert p.nextId n.reflection
      children := if n.isTop then p.children ++ [p.nextId] else p.children }
  n.reflection.parent.elim registered fun owner =>
    registered.modify owner fun r => { r with body := n.place p.nextId r.body }

/-- Receiving changes the registry, the next id and the top level only. -/
theorem exists_receive (p : Project) (n : Newcomer) : ∃ registry, p.receive n =
    { p with
      nextId := p.nextId + 1
      registry
      children := if n.isTop then p.children ++ [p.nextId] else p.children } := by
  unfold receive
  cases n.reflection.parent with
  | none => exact ⟨_, rfl⟩
  | some owner => exact ⟨_, rfl⟩

theorem get?_receive (p : Project) (n : Newcomer) (x : Id) : (p.receive n).get? x =
    (if x = p.nextId then some n.reflection else p.get? x).map fun r =>
      if n.reflection.parent = some x then { r with body := n.place p.nextId r.body } else r := by
  unfold receive
  cases parent : n.reflection.parent with
  | none => simp [get?]
  | some owner =>
      rw [Option.elim_some, get?_modify]
      by_cases isOwner : x = owner
      · simp [isOwner, get?]
      · simp [isOwner, Ne.symm isOwner, get?]

/-- An addition receives its newcomer, lets the replaced signature go and remembers the symbol. -/
structure Welcomes (p : Project) (n : Newcomer) (id : Id) (p' : Project) : Prop where
  isNext : id = p.nextId
  owner : ∀ owner, n.reflection.parent = some owner → ∃ o, p.get? owner = some o ∧
    o.body.Takes owner (.under owner n.reflection.body.role id)
      (n.replaced.toList.map (.under owner .signature)) (n.place id o.body)
  leaves : ∀ x, x ≠ id → ((p.receive n).Goes n.replaced.toList x ↔ p.Leaves n x)
  ends : ((p.receive n).unregister n.replaced.toList).registerSymbol? n.symbol id = .ok p'

theorem modifyDeclaration_eq (p : Project) (owner : Id) (f : Declaration → Declaration) :
    p.modifyDeclaration owner f =
      p.modify owner fun r => { r with body := r.body.onDeclaration f } := by
  unfold modifyDeclaration
  congr 1
  funext r
  cases body : r.body <;> simp [Body.onDeclaration, ← body]

theorem modifySignature_eq (p : Project) (owner : Id) (f : Signature → Signature) :
    p.modifySignature owner f =
      p.modify owner fun r => { r with body := r.body.onSignature f } := by
  unfold modifySignature
  congr 1
  funext r
  cases body : r.body <;> simp [Body.onSignature, ← body]

/-- Where no signature loses its slot, nothing leaves. -/
theorem Welcomes.of_none (plain : n.replaced = none)
    (owner : ∀ owner, n.reflection.parent = some owner → ∃ o, p.get? owner = some o ∧
      o.body.Takes owner (.under owner n.reflection.body.role p.nextId) []
        (n.place p.nextId o.body))
    (named : (p.receive n).registerSymbol? n.symbol p.nextId = .ok p') :
    p.Welcomes n p.nextId p' where
  isNext := rfl
  owner := by simpa [plain] using owner
  leaves x _ := by
    rw [Leaves, plain]
    exact iff_of_false not_goes_nil not_goes_nil
  ends := by
    rw [plain, Option.toList_none, unregister]
    exact named

theorem welcomes_addDeclaration {parent : Option Id} {name : String} {kind : Kind}
    (new : (Edit.addDeclaration parent name kind symbol).newcomer? p = some n)
    (added : p.addDeclaration parent name kind symbol = .ok (id, p')) : p.Welcomes n id p' := by
  obtain rfl := Option.some.inj new
  cases parent with
  | none =>
      obtain ⟨p₁, registered, named⟩ := addDeclaration_top_eq_ok added
      obtain ⟨rfl, -, -, rfl⟩ := register_eq_ok registered
      exact .of_none rfl nofun named
  | some owner =>
      obtain ⟨d, p₁, isOwner, registered, named⟩ := addDeclaration_under_eq_ok added
      obtain ⟨o, found, body⟩ := owningDeclaration_eq_ok isOwner
      obtain ⟨rfl, -, -, rfl⟩ := register_eq_ok registered
      rw [modifyDeclaration_eq] at named
      refine .of_none rfl (fun owner' parent => ?_) named
      obtain rfl := Option.some.inj parent
      exact ⟨o, found, body ▸ Body.takes_child _ _ d⟩

theorem welcomes_addTypeLiteral (new : (Edit.addTypeLiteral symbol).newcomer? p = some n)
    (added : p.addTypeLiteral symbol = .ok (id, p')) : p.Welcomes n id p' := by
  obtain rfl := Option.some.inj new
  obtain ⟨p₁, registered, named⟩ := addTypeLiteral_eq_ok added
  obtain ⟨rfl, -, -, rfl⟩ := register_eq_ok registered
  exact .of_none rfl nofun named

theorem welcomes_addParameter {signature : Id} {name : String} {type : Option TypeExpr}
    (new : (Edit.addParameter signature name type).newcomer? p = some n)
    (added : p.addParameter signature name type = .ok (id, p')) : p.Welcomes n id p' := by
  obtain rfl := Option.some.inj new
  obtain ⟨s, p₁, isOwner, registered, rfl⟩ := addParameter_eq_ok added
  obtain ⟨o, found, body⟩ := owningSignature_eq_ok isOwner
  obtain ⟨rfl, -, -, rfl⟩ := register_eq_ok registered
  refine .of_none rfl (fun owner parent => ?_) (congrArg Except.ok (modifySignature_eq _ _ _).symm)
  obtain rfl := Option.some.inj parent
  exact ⟨o, found, body ▸ Body.takes_parameter _ _ s⟩

/-- A type parameter is placed at the end of the owner's list. -/
theorem getD_placeTypeParameter? (id : Id) (b : Body) : (placeTypeParameter? id b).getD b =
    (b.onDeclaration fun d => { d with typeParameters := d.typeParameters ++ [id] }).onSignature
      fun s => { s with typeParameters := s.typeParameters ++ [id] } := by
  cases b <;> rfl

theorem welcomes_addTypeParameter {name : String} {constraint default : Option TypeExpr}
    (new : (Edit.addTypeParameter owner name constraint default).newcomer? p = some n)
    (added : p.addTypeParameter owner name constraint default = .ok (id, p')) :
    p.Welcomes n id p' := by
  obtain rfl := Option.some.inj new
  obtain ⟨o, p₁, found, room, registered, rfl⟩ := addTypeParameter_eq_ok added
  obtain ⟨rfl, -, -, rfl⟩ := register_eq_ok registered
  have takes := Body.takes_typeParameter owner p.nextId room
  simp only [getD_placeTypeParameter?] at takes ⊢
  refine .of_none rfl (fun owner parent => ?_) rfl
  obtain rfl := Option.some.inj parent
  exact ⟨o, found, takes⟩

/-- A signature is placed in the slot of its kind, or at the end of the list. -/
theorem placeSignature_eq (kind : Kind) (id : Id) : placeSignature kind id = fun d => { d with
    indexSignature := if kind = .indexSignature then some id else d.indexSignature
    getSignature := if kind = .getSignature then some id else d.getSignature
    setSignature := if kind = .setSignature then some id else d.setSignature
    signatures :=
      if kind ∈ [.indexSignature, .getSignature, .setSignature] then d.signatures
      else d.signatures ++ [id] } := by
  funext d
  cases kind <;> rfl

theorem replacedSignature_eq (kind : Kind) (d : Declaration) :
    replacedSignature kind d = d.inSlotOf kind := by
  cases kind <;> rfl

/-- The signature that goes is the one that stood in the slot before. -/
theorem welcomes_addSignature (fresh : p.get? p.nextId = none) {name : String} {kind : Kind}
    (new : (Edit.addSignature owner name kind).newcomer? p = some n)
    (added : p.addSignature owner name kind = .ok (id, p')) : p.Welcomes n id p' := by
  obtain rfl := Option.some.inj new
  obtain ⟨d, p₁, isOwner, registered, rfl⟩ := addSignature_eq_ok added
  obtain ⟨o, found, body⟩ := owningDeclaration_eq_ok isOwner
  have goes_iff {x : Id} := goes_placeSignature_iff fresh found body registered (x := x)
  obtain ⟨rfl, -, -, rfl⟩ := register_eq_ok registered
  have slot : ((p.get? owner).bind Reflection.declaration?).bind (Declaration.inSlotOf kind) =
      d.inSlotOf kind := by
    rw [found, Option.bind_some, Reflection.declaration?, body, Option.bind_some]
  have takes := Body.takes_signature owner p.nextId kind d
  rw [modifyDeclaration_eq] at goes_iff
  simp only [placeSignature_eq, replacedSignature_eq] at goes_iff takes ⊢
  refine { isNext := rfl, owner := ?takes, leaves := ?leaves, ends := ?ends }
  case takes =>
    intro owner' parent
    obtain rfl := Option.some.inj parent
    rw [slot]
    exact ⟨o, found, body ▸ takes⟩
  case leaves =>
    intro x other
    rw [Leaves, slot]
    exact goes_iff other
  case ends =>
    rw [slot, modifyDeclaration_eq]
    rfl

/-- **An addition that succeeds receives its newcomer.** -/
theorem welcomes_of_ok (fresh : p.get? p.nextId = none)
    (added : e.addition? p = some (.ok (id, p'))) :
    ∃ n, e.newcomer? p = some n ∧ p.Welcomes n id p' := by
  cases e with
  | addDeclaration _ _ _ _ => exact ⟨_, rfl, welcomes_addDeclaration rfl (Option.some.inj added)⟩
  | addTypeLiteral _ => exact ⟨_, rfl, welcomes_addTypeLiteral rfl (Option.some.inj added)⟩
  | addSignature _ _ _ => exact ⟨_, rfl, welcomes_addSignature fresh rfl (Option.some.inj added)⟩
  | addParameter _ _ _ => exact ⟨_, rfl, welcomes_addParameter rfl (Option.some.inj added)⟩
  | addTypeParameter _ _ _ _ =>
      exact ⟨_, rfl, welcomes_addTypeParameter rfl (Option.some.inj added)⟩
  | _ => cases added

namespace Welcomes

variable (h : p.Welcomes n id p')
include h

/-- The name and the categories stay, the next id moves on, and the top level has got the new id if it
is to list it. -/
theorem exists_eq : ∃ registry symbols, p' =
    { p with
      nextId := p.nextId + 1
      registry
      symbols
      children := if n.isTop then p.children ++ [p.nextId] else p.children } := by
  obtain ⟨registry, received⟩ := exists_receive p n
  obtain ⟨registry', symbols, left⟩ := exists_unregister (p.receive n) n.replaced.toList
  have same := registerSymbol?_eq_ok h.ends
  rw [left, received] at same
  exact ⟨_, _, same⟩

theorem get?_eq (x : Id) :
    p'.get? x = ((p.receive n).unregister n.replaced.toList).get? x := by
  rw [registerSymbol?_eq_ok h.ends]
  rfl

variable (fresh : p.get? p.nextId = none)
include fresh

/-- What was registered has another id. -/
theorem notNew (found : p.get? x = some r) : x ≠ id := by
  rintro rfl
  rw [h.isNext, fresh] at found
  cases found

omit fresh in
/-- The new id leaves only if its owner does, or if what leaves held it before it was given out. -/
theorem stays_new (owners : ∀ owner, n.reflection.parent = some owner → ¬p.Leaves n owner)
    (unnamed : ¬p.Leaves n id) : ¬(p.receive n).Goes n.replaced.toList id := by
  -- induction needs that nothing which leaves is the new id
  suffices others : ∀ x, (p.receive n).Goes n.replaced.toList x → x ≠ id from
    fun goes => others id goes rfl
  intro x goes
  induction goes with
  | work mem =>
      rintro rfl
      exact unnamed (.work mem)
  | @along owner x before taken ih =>
      rintro rfl
      have leaves := (h.leaves owner ih).1 before
      obtain ⟨o, found, owned⟩ := taken
      rw [get?_receive, if_neg (h.isNext ▸ ih)] at found
      obtain ⟨o', foundOwner, same⟩ := Option.map_eq_some_iff.1 found
      rw [if_neg fun parent => owners owner parent leaves] at same
      exact unnamed (.along leaves ⟨o', foundOwner, same ▸ owned⟩)

/-- The index loses what leaves, and a symbol that is given becomes the new id. -/
theorem mem_symbols (indexed : p.Indexes) (symbol : Symbol) (x : Id) :
    (symbol, x) ∈ p'.symbols ↔ n.symbol = some symbol ∧ x = id ∨
      n.symbol ≠ some symbol ∧ (symbol, x) ∈ p.symbols ∧ ¬p.Leaves n x := by
  have remains : (symbol, x) ∈ ((p.receive n).unregister n.replaced.toList).symbols ↔
      (symbol, x) ∈ p.symbols ∧ ¬p.Leaves n x := by
    obtain ⟨registry, received⟩ := exists_receive p n
    have before : (p.receive n).symbols = p.symbols := by rw [received]
    rw [mem_symbols_unregister, before]
    refine and_congr_right fun entry => not_congr ?_
    obtain ⟨r, found⟩ : ∃ r, p.get? x = some r := Registry.contains_iff.1 (indexed _ entry)
    have other := h.notNew fresh found
    have known : (p.receive n).contains x = true := by
      show ((p.receive n).get? x).isSome = true
      rw [get?_receive, if_neg (h.isNext ▸ other), found]
      rfl
    rw [h.leaves x other, and_iff_right known]
  rw [registerSymbol?_eq_ok h.ends]
  cases given : n.symbol with
  | none => simpa using remains
  | some s =>
      by_cases same : s = symbol
      · simp [same]
      · simp [same, Ne.symm same, remains]

/-- **The frame of an addition.** -/
theorem receives (indexed : p.Indexes) : p.Receives n id p' := by
  obtain ⟨registry, symbols, same⟩ := h.exists_eq
  refine
    { name := by rw [same]
      categories := by rw [same]
      isNext := ⟨h.isNext, by rw [same, h.isNext]⟩
      free := h.isNext ▸ fresh
      children := by rw [same, h.isNext]
      owner := h.owner
      new := ?new
      gone := ?gone
      kept := ?kept
      symbols := h.mem_symbols fresh indexed }
  case new =>
    intro owners unnamed
    have notOwner : n.reflection.parent ≠ some id := by
      intro parent
      obtain ⟨o, found, -⟩ := h.owner id parent
      exact h.notNew fresh found rfl
    rw [h.get?_eq, (get?_unregister _ _ _).2 (h.stays_new owners unnamed), get?_receive,
      if_pos h.isNext, Option.map_some, if_neg notOwner]
  case gone =>
    intro x other leaves
    rw [h.get?_eq, (get?_unregister _ _ _).1 ((h.leaves x other).2 leaves)]
  case kept =>
    intro x other stays
    have stays' : ¬(p.receive n).Goes n.replaced.toList x := fun goes =>
      stays ((h.leaves x other).1 goes)
    rw [h.get?_eq, (get?_unregister _ _ _).2 stays', get?_receive, if_neg (h.isNext ▸ other),
      h.isNext]

end Welcomes

/-! ### What a project keeps -/

/-- What a project keeps, whatever is done to it: its ids are below the next one, which is not beyond
the last one, and its index leads to registered reflections. -/
structure IsIndexed (p : Project) : Prop where
  numbered : Stage.IsNumbered { project := p, literals := [] }
  symbols : p.Indexes

/-- Nothing is registered under the next id. -/
theorem IsIndexed.fresh (h : p.IsIndexed) : p.get? p.nextId = none := by
  refine Option.eq_none_iff_forall_ne_some.2 fun r found => ?_
  exact Int.lt_irrefl _ (h.numbered.below _ (Registry.contains_iff.2 ⟨r, found⟩))

theorem IsIndexed.of_isSound {literals : List Id} (sound : p.IsSound literals work) : p.IsIndexed where
  numbered := Stage.isNumbered_of_isSound sound
  symbols := sound.symbols

theorem Welcomes.indexes (h : p.Welcomes n id p') (indexed : p.Indexes) : p'.Indexes := by
  have received : (p.receive n).Indexes := by
    obtain ⟨registry, same⟩ := exists_receive p n
    intro entry mem
    have before : (p.receive n).symbols = p.symbols := by rw [same]
    obtain ⟨r, found⟩ := Registry.contains_iff.1 (indexed entry (before ▸ mem))
    show ((p.receive n).get? entry.2).isSome = true
    rw [get?_receive, Option.isSome_map]
    split
    · rfl
    · exact Option.isSome_iff_exists.2 ⟨r, found⟩
  exact (received.unregister _).registerSymbol? h.ends

theorem Indexes.remove {s : Reflection} (h : p.Indexes) (removed : p.remove id = .ok (s, p')) :
    p'.Indexes := by
  unfold Project.remove at removed
  split at removed
  · cases removed
  · next r found =>
    dsimp only at removed
    split at removed
    · cases removed
    · obtain ⟨-, rfl⟩ := Prod.mk.inj (Except.ok.inj removed)
      refine Indexes.unregister (fun entry mem => ?_) [id]
      have before : entry ∈ p.symbols := symbols_detach p id r.parent ▸ mem
      exact (contains_detach p id r.parent entry.2).trans (h entry before)

/-- An edit keeps the project indexed. -/
theorem IsIndexed.apply {literals : List Id} (h : p.IsIndexed) (e : Edit) :
    (Stage.apply { project := p, literals } e).project.IsIndexed := by
  have before : Stage.IsNumbered { project := p, literals } :=
    ⟨h.numbered.bounded, h.numbered.below⟩
  have after := before.advance (Stage.advances_apply { project := p, literals } e)
  refine ⟨⟨after.bounded, after.below⟩, ?_⟩
  have welcomes {id : Id} {p' : Project} (added : e.addition? p = some (.ok (id, p'))) :
      p'.Indexes := by
    obtain ⟨n, -, welcomed⟩ := welcomes_of_ok h.fresh added
    exact welcomed.indexes h.symbols
  unfold Stage.apply
  split
  · next s' done =>
    cases Stage.edited_of_edit done with
    | addDeclaration added => exact welcomes (congrArg some added)
    | addTypeLiteral added => exact welcomes (congrArg some added)
    | addSignature added => exact welcomes (congrArg some added)
    | addParameter added => exact welcomes (congrArg some added)
    | addTypeParameter added => exact welcomes (congrArg some added)
    | registerSymbol named => exact h.symbols.registerSymbol named
    | remove removed => exact h.symbols.remove removed
    | assignType =>
        intro entry mem
        exact (contains_assignType _ _ _ _).trans (h.symbols entry mem)
  · exact h.symbols

end Project

/-! ### Projects that arise -/

/-- The state that a computation leaves, whether it succeeds or fails. -/
def stateAfter {σ α : Type} (x : EStateM Error σ α) (s : σ) : σ :=
  match x.run s with
  | .ok _ s' => s'
  | .error _ s' => s'

/-- Registering what a state admits keeps the project indexed. -/
theorem Project.IsIndexed.fill {s : Decoding} {parts : List Part} (h : s.project.IsIndexed)
    (admits : s.Admits parts) : (s.fill (placements parts)).project.IsIndexed where
  numbered := by
    constructor
    · refine Decoding.nextId_fill_le h.numbered.bounded fun q mem => ?_
      have valid : q.IsValid := admits.valid _ (mem_placements.1 mem)
      exact Int.add_le_of_le_sub_right valid.bounded
    · intro id known
      rcases Decoding.contains_fill.1 known with before | new
      · exact Int.lt_of_lt_of_le (h.numbered.below id before) (Decoding.le_nextId_fill s _)
      · obtain ⟨q, mem, rfl⟩ := List.mem_map.1 new
        exact Int.lt_of_add_one_le (Decoding.lt_nextId_fill mem)
  symbols entry mem := by
    rw [Decoding.symbols_fill] at mem
    exact Decoding.contains_fill.2 (.inl (h.symbols entry mem))

/-- A decoder leaves an indexed project, be it that it fails. -/
theorem Project.IsIndexed.decoder {α : Type} {d : Decoder α} {v : α} {parts : List Part}
    {s : Decoding} (h : s.project.IsIndexed) (reads : Decoder.Reads d v parts)
    (stops : Decoder.Stops d parts) : (stateAfter d s).project.IsIndexed := by
  unfold stateAfter
  cases done : d.run s with
  | ok a s' =>
      obtain ⟨admits, -, rfl⟩ := (reads s a s').1 done
      exact h.fill admits
  | error e s' =>
      obtain ⟨pre, part, post, -, admits, -, left⟩ := stops s e s' done
      show s'.project.IsIndexed
      rw [left]
      exact h.fill admits

/-- The projects that any public use leads to: a new or a decoded one, edited in place, with or without
success, its reflections changed at will or by settling their references, its name and categories set,
and further types, references and reflections decoded into it, with or without success. -/
inductive Project.Arises : Project → Prop
  | new (name : String) : Arises { name }
  | decoded (root : WireReflection) (p : Project) (decoded : Project.ofWire root = .ok p) : Arises p
  | edited {p : Project} (before : Arises p) (e : Edit) : Arises (stateAfter e.perform p)
  | changed {p : Project} (before : Arises p) (f : Id → Reflection → Reflection) :
      Arises { p with registry := p.registry.mapValues f }
  | labelled {p : Project} (before : Arises p) (name : String) (categories : List Category) :
      Arises { p with name, categories }
  | typeRead {p : Project} (before : Arises p) (t : WireType) (omissions : List Omission) :
      Arises (stateAfter t.decode { project := p, omissions }).project
  | referenceRead {p : Project} (before : Arises p) (t : WireType) (omissions : List Omission) :
      Arises (stateAfter t.decodeReference { project := p, omissions }).project
  | reflectionRead {p : Project} (before : Arises p) (role : Role) (parent : Option Id)
      (r : WireReflection) (omissions : List Omission) :
      Arises (stateAfter (r.decode role parent) { project := p, omissions }).project

/-- An edit in place leaves what the edit of a stage leaves. -/
theorem Stage.stateAfter_perform {s : Stage} (fresh : s.project.get? s.project.nextId = none)
    (e : Edit) : stateAfter e.perform s.project = (s.apply e).project := by
  have does := does_perform fresh e
  unfold Update.Does at does
  rw [stateAfter, does, outcome, apply]
  cases s.edit e with
  | ok s' => rfl
  | error err => rfl

/-- **Every project that arises is indexed.** -/
theorem Project.Arises.isIndexed {p : Project} (h : p.Arises) : p.IsIndexed := by
  induction h with
  | new name => exact .of_isSound (isSound_new name)
  | decoded root p decoded =>
      obtain ⟨valid, rfl⟩ := ofWire_eq_ok_iff.1 decoded
      exact .of_isSound (isSound_project valid)
  | @edited p _ e ih =>
      rw [Stage.stateAfter_perform (s := { project := p, literals := [] }) ih.fresh]
      exact ih.apply e
  | @changed p _ f ih =>
      have known (x : Id) : (p.registry.mapValues f).contains x = p.registry.contains x :=
        Registry.contains_mapValues _ _ _
      refine ⟨⟨ih.numbered.bounded, fun x mem => ?_⟩, fun entry mem => ?_⟩
      · exact ih.numbered.below x ((known x).symm.trans mem)
      · exact (known entry.2).trans (ih.symbols entry mem)
  | labelled _ _ _ ih => exact ⟨⟨ih.numbered.bounded, ih.numbered.below⟩, ih.symbols⟩
  | typeRead _ t omissions ih => exact ih.decoder t.decode_reads t.decode_stops
  | referenceRead _ t omissions ih => exact ih.decoder t.decodeReference_reads t.decodeReference_stops
  | reflectionRead _ role parent r omissions ih =>
      exact ih.decoder (r.decode_reads role parent) (r.decode_stops role parent)

/-! ### All or nothing -/

/-- An edit that gives out an id is an addition that succeeds. -/
theorem Stage.addition_of_outcome {s : Stage} {e : Edit} {id : Id} {p' : Project}
    (done : s.outcome e = .ok (some id, p')) : e.addition? s.project = some (.ok (id, p')) := by
  cases edited : s.edit e with
  | error err =>
      rw [outcome, edited] at done
      cases done
  | ok s' =>
      rw [outcome, edited] at done
      obtain ⟨given, same⟩ := Prod.mk.inj (Except.ok.inj done)
      obtain ⟨answer, answered, succeeds⟩ := Option.bind_eq_some_iff.1 given
      obtain ⟨x, addition, rfl⟩ := Option.map_eq_some_iff.1 answered
      cases x with
      | error err => cases succeeds
      | ok result =>
          have left := project_apply_of_ok addition
          rw [apply, edited] at left
          obtain rfl := Option.some.inj succeeds
          rw [addition, ← same, left]

/-- **All or nothing.** On every project that arises, an edit in place does what its operation on
projects does. If it fails, the project is as it was; if it gives out an id, the project has received
the newcomer under that id and is otherwise as it was, but for what leaves with a replaced signature. -/
theorem atomic_of_arises {p : Project} (h : p.Arises) (e : Edit) :
    (∀ literals, e.perform.Does p (Stage.outcome { project := p, literals } e)) ∧
    (∀ err p', e.perform.run p = .error err p' → p' = p) ∧
    ∀ id p', e.perform.run p = .ok (some id) p' →
      ∃ n, e.newcomer? p = some n ∧ p.Receives n id p' := by
  have indexed := h.isIndexed
  have does (literals : List Id) :=
    Stage.does_perform (s := { project := p, literals }) indexed.fresh e
  refine ⟨does, fun err p' failed => ((does []).of_error failed).2, fun id p' succeeded => ?_⟩
  have added := Stage.addition_of_outcome ((does []).of_ok succeeded)
  obtain ⟨n, new, welcomed⟩ := Project.welcomes_of_ok indexed.fresh added
  exact ⟨n, new, welcomed.receives indexed.fresh indexed.symbols⟩

/-- A class with a getter that has a type parameter. -/
def sizedBox : WireReflection :=
  let getter := WireReflection.mk { id := 2, name := "size", kind := 0x80000 } none none none none
    none (some [.ofHeader { id := 3, name := "T", kind := 0x20000 }]) none none none none none none
    none none false
  .mk { id := 1, name := "Box", kind := 0x80 } none none none (some getter) none none none none none
    none none none none none false

/-- The class in a project, with a symbol for the getter. -/
def sizedProject : Project :=
  { (libraryOf [sizedBox]).project with symbols := [(8, 2)] }

theorem arises_sizedProject : sizedProject.Arises := by
  have decoded : (libraryOf [sizedBox]).project.Arises := .decoded (libraryOf [sizedBox]) _ rfl
  exact decoded.edited (.registerSymbol 8 2)

/-- A parameter of the class is refused, and nothing has changed. Another getter gets the next id, and
the first one is gone with its type parameter and its symbol. -/
theorem atomic_sizedProject :
    (∃ p', (Edit.addParameter 1 "x" none).perform.run sizedProject =
      .error (.invalidParent 1 .parameter) p' ∧ p' = sizedProject) ∧
    ∃ n p', (Edit.addSignature 1 "size" .getSignature).perform.run sizedProject = .ok (some 4) p' ∧
      sizedProject.Receives n 4 p' ∧
      p'.get? 2 = none ∧ p'.get? 3 = none ∧ (8, 2) ∉ p'.symbols := by
  constructor
  · obtain ⟨-, unchanged, -⟩ := atomic_of_arises arises_sizedProject (.addParameter 1 "x" none)
    exact ⟨_, rfl, unchanged (.invalidParent 1 .parameter) _ rfl⟩
  · obtain ⟨-, -, received⟩ :=
      atomic_of_arises arises_sizedProject (.addSignature 1 "size" .getSignature)
    obtain ⟨n, new, receives⟩ := received 4 _ rfl
    obtain rfl := Option.some.inj new
    have getter : sizedProject.Goes [2] 2 := .work List.mem_cons_self
    have parameter : sizedProject.Goes [2] 3 := .along getter ⟨_, rfl, List.mem_cons_self⟩
    refine ⟨_, _, rfl, receives, receives.gone 2 (by decide) getter,
      receives.gone 3 (by decide) parameter, fun indexed => ?_⟩
    rcases (receives.symbols 8 2).1 indexed with ⟨given, -⟩ | ⟨-, -, stays⟩
    · cases given
    · exact stays getter

end ApiGraph
