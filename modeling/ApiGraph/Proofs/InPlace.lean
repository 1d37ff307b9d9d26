import ApiGraph.Proofs.Allocation

/-!
# ApiGraph.Proofs.InPlace

Growing a project in place. Here an edit writes as it goes, in the order of its steps, and what it has
written when it fails stays. Some edits check again after their first write: the owner, before it gets
the new id, and the new reflection, before a symbol becomes it. Where nothing is registered under the
next id, these checks cannot fail, so an edit does all that its operation on projects does, or nothing.

* `Update`, `Update.check` — changing a project in place.
* `Edit.perform` — the edits in place.
* `Update.Does` — an update does what an operation says, with `Does.check` and `Does.write` for the
  steps.
* `Stage.does_perform` — every edit does what the edit of a stage does.
-/

namespace ApiGraph

/-- Changing a project in place; what an error finds there stays. -/
abbrev Update := EStateM Error Project

namespace Update

variable {α β : Type}

/-! ### The steps -/

/-- Asks the project, and goes on if it does not refuse. -/
def check (ask : Project → Except Error α) : Update α := do
  match ask (← get) with
  | .ok a => return a
  | .error e => throw e

/-- The reflection registered under an id. -/
def find (id : Id) : Update Reflection :=
  check fun p => (p.get? id).elim (.error (.unknownReflection id)) .ok

/-- Remembers that a symbol became a registered reflection. -/
def registerSymbol (symbol : Symbol) (id : Id) : Update Unit := do
  if !(← get).contains id then
    throw (.unknownReflection id)
  modify fun p => { p with symbols := (symbol, id) :: p.symbols.filter (·.1 != symbol) }

/-- Registers a symbol, if there is one. -/
def registerSymbol? (symbol : Option Symbol) (id : Id) : Update Unit :=
  match symbol with
  | none => return ()
  | some symbol => registerSymbol symbol id

/-- Gives out the next id. -/
def allocate : Update Id := do
  let id := (← get).nextId
  if maxId ≤ id then
    throw (.idSpaceExhausted id)
  modify fun p => { p with nextId := id + 1 }
  return id

/-- Registers a reflection under a new id. -/
def insert (r : Reflection) : Update Id := do
  if !r.body.role.accepts r.kind then
    throw (.kindMismatch r.kind r.body.role)
  let id ← allocate
  modify fun p => { p with registry := p.registry.insert id r }
  return id

/-! ### The edits -/

/-- Adds a declaration below `parent`, or at the top level. -/
def addDeclaration (parent : Option Id) (name : String) (kind : Kind) (symbol : Option Symbol) :
    Update Id := do
  if let some owner := parent then
    let _ ← check (·.owningDeclaration owner .declaration)
  let id ← insert { name, kind, parent, body := .declaration {} }
  match parent with
  | some owner =>
    let _ ← check (·.owningDeclaration owner .declaration)
    modify (·.modifyDeclaration owner fun d => { d with children := d.children ++ [id] })
  | none => modify fun p => { p with children := p.children ++ [id] }
  registerSymbol? symbol id
  return id

/-- Adds an anonymous declaration, to be owned by the reflection type that names it. -/
def addTypeLiteral (symbol : Option Symbol) : Update Id := do
  let id ← insert
    { name := Project.typeLiteralName, kind := .typeLiteral, body := .declaration {} }
  registerSymbol? symbol id
  return id

/-- Adds a signature to a declaration. The declaration is looked up again for the slot, and whatever
stood there goes last. -/
def addSignature (parent : Id) (name : String) (kind : Kind) : Update Id := do
  let _ ← check (·.owningDeclaration parent .signature)
  let id ← insert { name, kind, parent := some parent, body := .signature {} }
  let d ← check (·.owningDeclaration parent .signature)
  modify (·.modifyDeclaration parent (Project.placeSignature kind id))
  modify (·.unregister (Project.replacedSignature kind d).toList)
  return id

/-- Adds a parameter to a signature. -/
def addParameter (signature : Id) (name : String) (type : Option TypeExpr) : Update Id := do
  let _ ← check (·.owningSignature signature .parameter)
  let id ← insert
    { name, kind := .parameter, parent := some signature, body := .parameter { type } }
  let _ ← check (·.owningSignature signature .parameter)
  modify (·.modifySignature signature fun s => { s with parameters := s.parameters ++ [id] })
  return id

/-- Adds a type parameter to a declaration or signature. -/
def addTypeParameter (owner : Id) (name : String) (constraint default : Option TypeExpr) :
    Update Id := do
  let r ← find owner
  if (Project.placeTypeParameter? 0 r.body).isNone then
    throw (.invalidParent owner .typeParameter)
  let id ← insert
    { name, kind := .typeParameter, parent := some owner,
      body := .typeParameter { constraint, default } }
  modify (·.modify owner fun r =>
    { r with body := (Project.placeTypeParameter? id r.body).getD r.body })
  return id

/-- Unregisters a reflection and everything it owns. It is looked up again after the parent, the top
level and the project's categories have lost it. -/
def remove (id : Id) : Update Reflection := do
  let r ← find id
  modify (·.detach id r.parent)
  modify fun p => { p with categories := p.categories.map (Category.without id) }
  let removed ← find id
  modify (·.unregister [id])
  return removed

end Update

/-- An edit in place. An addition answers with the id that it gives out. -/
def Edit.perform : Edit → Update (Option Id)
  | .addDeclaration parent name kind symbol =>
    return some (← Update.addDeclaration parent name kind symbol)
  | .addTypeLiteral symbol => return some (← Update.addTypeLiteral symbol)
  | .addSignature parent name kind => return some (← Update.addSignature parent name kind)
  | .addParameter signature name type => return some (← Update.addParameter signature name type)
  | .addTypeParameter owner name constraint default =>
    return some (← Update.addTypeParameter owner name constraint default)
  | .registerSymbol symbol id => do
    Update.registerSymbol symbol id
    return none
  | .remove id => do
    let _ ← Update.remove id
    return none
  | .assignType id type => do
    modify (·.assignType id type)
    return none

namespace Update

variable {α β : Type} {u : Update α} {f : α → Update β} {p p₁ p' : Project} {id owner : Id}
  {r : Reflection} {role : Role} {x : Except Error (α × Project)}
  {g : α × Project → Except Error (β × Project)}

/-! ### Steps -/

/-- The update does what an operation says: all of it, or nothing if that fails. -/
def Does (u : Update α) (p : Project) (x : Except Error (α × Project)) : Prop :=
  u.run p = match x with
    | .ok (a, p') => .ok a p'
    | .error e => .error e p

theorem Does.of_ok {a : α} (h : u.Does p x) (ran : u.run p = .ok a p') : x = .ok (a, p') := by
  unfold Does at h
  rw [ran] at h
  cases x with
  | ok result =>
      obtain ⟨rfl, rfl⟩ := EStateM.Result.ok.inj h
      rfl
  | error e => cases h

theorem Does.of_error {e : Error} (h : u.Does p x) (ran : u.run p = .error e p') :
    x = .error e ∧ p' = p := by
  unfold Does at h
  rw [ran] at h
  cases x with
  | ok result => cases h
  | error e' =>
      obtain ⟨rfl, rfl⟩ := EStateM.Result.error.inj h
      exact ⟨rfl, rfl⟩

/-- A check in front writes nothing. -/
theorem Does.check {ask : Project → Except Error α} {g : α → Except Error (β × Project)}
    (rest : ∀ a, ask p = .ok a → (f a).Does p (g a)) : (check ask >>= f).Does p (ask p >>= g) := by
  unfold Does Update.check
  cases asked : ask p with
  | ok a =>
      simp only [EStateM.run_bind, EStateM.run_get, asked]
      exact rest a asked
  | error e =>
      simp only [EStateM.run_bind, EStateM.run_get, asked]
      rfl

/-- What follows a write must go through. -/
theorem Does.write (first : u.Does p x) (rest : ∀ a p₁, x = .ok (a, p₁) →
      ∃ b p', (f a).run p₁ = .ok b p' ∧ g (a, p₁) = .ok (b, p')) :
    (u >>= f).Does p (x >>= g) := by
  unfold Does at first ⊢
  cases x with
  | ok result =>
      obtain ⟨a, p₁⟩ := result
      obtain ⟨b, p', wrote, done⟩ := rest a p₁ rfl
      rw [EStateM.run_bind, first]
      show (f a).run p₁ = match g (a, p₁) with
        | .ok (b, p') => .ok b p'
        | .error e => .error e p
      rw [wrote, done]
  | error e =>
      rw [EStateM.run_bind, first]
      rfl

/-- A check that is known to succeed is passed over. -/
theorem run_check {ask : Project → Except Error α} {a : α} (asked : ask p = .ok a) :
    (check ask >>= f).run p = (f a).run p := by
  simp [check, asked, EStateM.run_bind, EStateM.run_get]

theorem run_find (found : p.get? id = some r) {f : Reflection → Update β} :
    (find id >>= f).run p = (f r).run p :=
  run_check (by rw [found]; rfl)

/-- A reflection that is asked for at the start is registered, or nothing happens. -/
theorem Does.find {f : Reflection → Update α}
    (missing : p.get? id = none → x = .error (.unknownReflection id))
    (rest : ∀ r, p.get? id = some r → (f r).Does p x) : (find id >>= f).Does p x := by
  cases found : p.get? id with
  | none =>
      rw [missing found]
      simp only [Does, Update.find, Update.check, EStateM.run_bind, EStateM.run_get, found]
      rfl
  | some r => exact (run_find found).trans (rest r found)

theorem does_registerSymbol (p : Project) (symbol : Symbol) (id : Id) :
    (registerSymbol symbol id).Does p ((p.registerSymbol symbol id).map ((), ·)) := by
  unfold Does registerSymbol Project.registerSymbol
  cases known : p.contains id <;> simp only [EStateM.run_bind, EStateM.run_get, known] <;> rfl

theorem does_allocate (p : Project) : allocate.Does p p.allocate := by
  unfold Does allocate Project.allocate
  by_cases left : p.nextId < maxId
  · simp only [EStateM.run_bind, EStateM.run_get, left, Int.not_le.2 left, if_true, if_false]
    rfl
  · simp only [EStateM.run_bind, EStateM.run_get, left, Int.not_lt.1 left, if_true, if_false]
    rfl

theorem does_insert (p : Project) (r : Reflection) : (insert r).Does p (p.register r) := by
  unfold insert Project.register
  cases fits : r.body.role.accepts r.kind with
  | false => rfl
  | true => exact .write (does_allocate p) fun id p₁ _ => ⟨_, _, rfl, rfl⟩

/-- A registered reflection may be remembered under a symbol at the end. -/
theorem run_registerSymbol? (symbol : Option Symbol) (known : p.contains id = true) :
    ∃ p', (do registerSymbol? symbol id; return id : Update Id).run p = .ok id p' ∧
      (do return (id, ← p.registerSymbol? symbol id) : Except Error _) = .ok (id, p') := by
  cases symbol with
  | none => exact ⟨p, rfl, rfl⟩
  | some symbol =>
      have named : p.registerSymbol symbol id =
          .ok { p with symbols := (symbol, id) :: p.symbols.filter (·.1 != symbol) } := if_pos known
      have wrote := does_registerSymbol p symbol id
      unfold Does at wrote
      rw [named] at wrote
      refine ⟨_, ?_, by rw [Project.registerSymbol?, named]; rfl⟩
      rw [EStateM.run_bind, registerSymbol?, wrote]
      rfl

/-! ### The edits -/

/-- An owner that was checked before the new reflection was registered passes the check again. -/
theorem owning_of_register {view : Reflection → Option α} {a : α} (fresh : p.get? p.nextId = none)
    (registered : p.register r = .ok (id, p₁)) (isOwner : p.owning view owner role = .ok a) :
    p₁.owning view owner role = .ok a := by
  unfold Project.owning at isOwner ⊢
  cases found : p.get? owner with
  | none =>
      rw [found] at isOwner
      cases isOwner
  | some o =>
      rw [found] at isOwner
      rw [Project.get?_of_register fresh registered found]
      exact isOwner

section

variable (fresh : p.get? p.nextId = none)
include fresh

theorem does_addDeclaration (parent : Option Id) (name : String) (kind : Kind)
    (symbol : Option Symbol) : (addDeclaration parent name kind symbol).Does p
      (p.addDeclaration parent name kind symbol) := by
  cases parent with
  | none =>
      refine Does.write (does_insert p _) fun id p₁ registered => ?_
      have known : p₁.contains id = true := Project.contains_of_register registered
      obtain ⟨p', wrote, named⟩ :=
        run_registerSymbol? (p := { p₁ with children := p₁.children ++ [id] }) symbol known
      exact ⟨id, p', wrote, named⟩
  | some owner =>
      refine Does.check fun d isOwner => ?_
      refine Does.write (does_insert p _) fun id p₁ registered => ?_
      have again : p₁.owningDeclaration owner .declaration = .ok d :=
        owning_of_register fresh registered isOwner
      let listed := p₁.modifyDeclaration owner fun d => { d with children := d.children ++ [id] }
      have known : listed.contains id = true :=
        (Registry.contains_modify _ _ _ _).trans (Project.contains_of_register registered)
      obtain ⟨p', wrote, named⟩ := run_registerSymbol? symbol known
      exact ⟨id, p', (run_check again).trans wrote, named⟩

omit fresh in
theorem does_addTypeLiteral (symbol : Option Symbol) :
    (addTypeLiteral symbol).Does p (p.addTypeLiteral symbol) := by
  refine Does.write (does_insert p _) fun id p₁ registered => ?_
  obtain ⟨p', wrote, named⟩ := run_registerSymbol? symbol (Project.contains_of_register registered)
  exact ⟨id, p', wrote, named⟩

/-- The declaration that is looked up again has the same slots, so the same signature goes. -/
theorem does_addSignature (parent : Id) (name : String) (kind : Kind) :
    (addSignature parent name kind).Does p (p.addSignature parent name kind) := by
  refine Does.check fun d isOwner => ?_
  refine Does.write (does_insert p _) fun id p₁ registered => ?_
  have again : p₁.owningDeclaration parent .signature = .ok d :=
    owning_of_register fresh registered isOwner
  exact ⟨id, _, run_check again, rfl⟩

theorem does_addParameter (signature : Id) (name : String) (type : Option TypeExpr) :
    (addParameter signature name type).Does p (p.addParameter signature name type) := by
  refine Does.check fun s isOwner => ?_
  refine Does.write (does_insert p _) fun id p₁ registered => ?_
  have again : p₁.owningSignature signature .parameter = .ok s :=
    owning_of_register fresh registered isOwner
  exact ⟨id, _, run_check again, rfl⟩

omit fresh in
theorem does_addTypeParameter (owner : Id) (name : String) (constraint default : Option TypeExpr) :
    (addTypeParameter owner name constraint default).Does p
      (p.addTypeParameter owner name constraint default) := by
  unfold addTypeParameter Project.addTypeParameter
  refine Does.find (fun missing => by rw [missing]; rfl) fun o found => ?_
  rw [found]
  dsimp only
  split
  · rfl
  · exact Does.write (does_insert p _) fun id p₁ _ => ⟨id, _, rfl, rfl⟩

omit fresh in
/-- The reflection is still registered when everything but itself has lost it. -/
theorem does_remove (id : Id) : (remove id).Does p (p.remove id) := by
  refine Does.find (fun missing => by rw [Project.remove, missing]) fun r found => ?_
  let detached := p.detach id r.parent
  let lost : Project :=
    { detached with categories := detached.categories.map (Category.without id) }
  have known : lost.contains id = true :=
    (Project.contains_detach p id r.parent id).trans (Registry.contains_iff.2 ⟨r, found⟩)
  obtain ⟨s, still⟩ : ∃ s, lost.get? id = some s := Registry.contains_iff.1 known
  have removed : p.remove id = .ok (s, lost.unregister [id]) := by
    rw [Project.remove, found]
    dsimp only
    rw [still]
  rw [removed]
  exact run_find still

end

end Update

/-! ### Edits -/

namespace Stage

variable {s : Stage} {e : Edit} {id : Id} {p' : Project}

/-- What an edit answers at a stage, and the project after it. -/
def outcome (s : Stage) (e : Edit) : Except Error (Option Id × Project) :=
  (s.edit e).map fun s' => (s.given? e, s'.project)

/-- An addition that answers as its operation does. -/
theorem does_addition {u : Update Id} {x : Except Error (Id × Project)}
    (addition : e.addition? s.project = some x) (does : u.Does s.project x) :
    (do return some (← u) : Update (Option Id)).Does s.project (s.outcome e) := by
  obtain ⟨literals, edits⟩ := exists_edit_eq addition
  unfold Update.Does at does ⊢
  rw [EStateM.run_bind, does, outcome, edits, given?, answer?, addition]
  cases x with
  | ok result => rfl
  | error err => rfl

/-- **An edit in place does what its operation says, or nothing.** -/
theorem does_perform (fresh : s.project.get? s.project.nextId = none) (e : Edit) :
    e.perform.Does s.project (s.outcome e) := by
  cases e with
  | addDeclaration parent name kind symbol =>
      exact does_addition rfl (Update.does_addDeclaration fresh parent name kind symbol)
  | addTypeLiteral symbol => exact does_addition rfl (Update.does_addTypeLiteral symbol)
  | addSignature parent name kind =>
      exact does_addition rfl (Update.does_addSignature fresh parent name kind)
  | addParameter signature name type =>
      exact does_addition rfl (Update.does_addParameter fresh signature name type)
  | addTypeParameter owner name constraint default =>
      exact does_addition rfl (Update.does_addTypeParameter owner name constraint default)
  | registerSymbol symbol id =>
      have does := Update.does_registerSymbol s.project symbol id
      unfold Update.Does at does ⊢
      rw [Edit.perform, EStateM.run_bind, does, outcome, edit]
      cases s.project.registerSymbol symbol id with
      | ok p' => rfl
      | error err => rfl
  | remove id =>
      have does := Update.does_remove (p := s.project) id
      unfold Update.Does at does ⊢
      rw [Edit.perform, EStateM.run_bind, does, outcome, edit]
      cases s.project.remove id with
      | ok result => rfl
      | error err => rfl
  | assignType id type => rfl

end Stage

end ApiGraph
