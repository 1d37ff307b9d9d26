import ApiGraph.Project.Basic

/-!
# ApiGraph.Project.Edit

Growing a project. Ids are given out in ascending order and never again. Every addition checks the
owner first, then the kind, then whether an id is left; a failed addition returns no project, so
nothing has changed.

* `Project.addDeclaration`, `addTypeLiteral`, `addSignature`, `addParameter`, `addTypeParameter`.
* `Project.unregister` — drops reflections with all they own, on any graph.
* `Project.remove` — unregisters a reflection and detaches it from its owner.
* `Project.assignType` — another main type for a reflection.
-/

namespace ApiGraph.Project

/-! ### Registering -/

/-- Gives out the next id. -/
def allocate (p : Project) : Except Error (Id × Project) :=
  if p.nextId < maxId then
    .ok (p.nextId, { p with nextId := p.nextId + 1 })
  else
    .error (.idSpaceExhausted p.nextId)

/-- Registers a reflection under a new id. -/
def register (p : Project) (r : Reflection) : Except Error (Id × Project) := do
  if !r.body.role.accepts r.kind then
    throw (.kindMismatch r.kind r.body.role)
  let (id, p) ← p.allocate
  return (id, { p with registry := p.registry.insert id r })

/-- Registers a reflection that brings its id along. -/
def registerAs (p : Project) (id : Id) (r : Reflection) : Except Error Project := do
  if id ≤ 0 then
    throw (.reservedId id)
  if p.contains id then
    throw (.duplicateId id)
  if !r.body.role.accepts r.kind then
    throw (.kindMismatch r.kind r.body.role)
  if maxId ≤ id then
    throw (.idSpaceExhausted id)
  return { p with nextId := max p.nextId (id + 1), registry := p.registry.insert id r }

/-- The declaration that is to own a `child`. -/
def owningDeclaration (p : Project) (id : Id) (child : Role) : Except Error Declaration :=
  match p.get? id with
  | none => .error (.unknownReflection id)
  | some r => r.declaration?.elim (.error (.invalidParent id child)) .ok

/-- The signature that is to own a `child`. -/
def owningSignature (p : Project) (id : Id) (child : Role) : Except Error Signature :=
  match p.get? id with
  | none => .error (.unknownReflection id)
  | some r => r.signature?.elim (.error (.invalidParent id child)) .ok

/-- Replaces the declaration registered under an id, if there is one. -/
def modifyDeclaration (p : Project) (id : Id) (f : Declaration → Declaration) : Project :=
  p.modify id fun r =>
    match r.body with
    | .declaration d => { r with body := .declaration (f d) }
    | _ => r

/-- Replaces the signature registered under an id, if there is one. -/
def modifySignature (p : Project) (id : Id) (f : Signature → Signature) : Project :=
  p.modify id fun r =>
    match r.body with
    | .signature s => { r with body := .signature (f s) }
    | _ => r

/-- Registers a symbol, if there is one, for a reflection that was just added. -/
def registerSymbol? (p : Project) (symbol : Option Symbol) (id : Id) : Except Error Project :=
  match symbol with
  | none => .ok p
  | some symbol => p.registerSymbol symbol id

/-! ### Unregistering -/

/-- Drops one reflection, and the symbols that became it. -/
def drop (p : Project) (id : Id) : Project :=
  { p with registry := p.registry.erase id, symbols := p.symbols.filter (·.2 != id) }

/-- Drops the registered ones among `work` and everything they own. Each step drops a reflection or
shortens the work, so the ownership graph may be any graph. -/
def unregister (p : Project) : (work : List Id) → Project
  | [] => p
  | id :: rest =>
    match _found : p.get? id with
    | none => unregister p rest
    | some r => unregister (p.drop id) (r.owned ++ rest)
termination_by work => (p.size, work.length)
decreasing_by
  · exact Prod.Lex.right _ (Nat.lt_succ_self _)
  · exact Prod.Lex.left _ _ (Registry.size_erase_lt _found)

/-- Detaches a reflection from its registered parent, or from the top level if it has none. -/
def detach (p : Project) (id : Id) (parent : Option Id) : Project :=
  match parent.filter p.contains with
  | some owner => p.modify owner (Reflection.detach id)
  | none => { p with children := without id p.children }

/-- Unregisters a reflection and everything it owns; its parent, the top level and the project's
categories no longer list it. Returns the reflection as it was when it went. -/
def remove (p : Project) (id : Id) : Except Error (Reflection × Project) :=
  match p.get? id with
  | none => .error (.unknownReflection id)
  | some r =>
    let p := p.detach id r.parent
    let p := { p with categories := p.categories.map (Category.without id) }
    match p.get? id with
    | none => .error (.unknownReflection id)
    | some removed => .ok (removed, p.unregister [id])

/-! ### Adding -/

/-- Adds a declaration below `parent`, or at the top level. -/
def addDeclaration (p : Project) (parent : Option Id) (name : String) (kind : Kind)
    (symbol : Option Symbol) : Except Error (Id × Project) := do
  if let some owner := parent then
    let _ ← p.owningDeclaration owner .declaration
  let (id, p) ← p.register { name, kind, parent, body := .declaration {} }
  let p := match parent with
    | some owner => p.modifyDeclaration owner fun d => { d with children := d.children ++ [id] }
    | none => { p with children := p.children ++ [id] }
  return (id, ← p.registerSymbol? symbol id)

/-- The name of anonymous declarations. -/
def typeLiteralName : String := "__type"

/-- Adds an anonymous declaration, to be owned by the reflection type that names it. -/
def addTypeLiteral (p : Project) (symbol : Option Symbol) : Except Error (Id × Project) := do
  let (id, p) ← p.register { name := typeLiteralName, kind := .typeLiteral, body := .declaration {} }
  return (id, ← p.registerSymbol? symbol id)

/-- The slot of a declaration that a signature of this kind takes: it holds one signature only. -/
def replacedSignature (kind : Kind) (d : Declaration) : Option Id :=
  match kind with
  | .indexSignature => d.indexSignature
  | .getSignature => d.getSignature
  | .setSignature => d.setSignature
  | _ => none

/-- The declaration with a further signature, in the slot of its kind or at the end of the list. -/
def placeSignature (kind : Kind) (id : Id) (d : Declaration) : Declaration :=
  match kind with
  | .indexSignature => { d with indexSignature := some id }
  | .getSignature => { d with getSignature := some id }
  | .setSignature => { d with setSignature := some id }
  | _ => { d with signatures := d.signatures ++ [id] }

/-- Adds a signature to a declaration. An index, get or set signature takes the place of the one
before it, which goes with everything it owns. -/
def addSignature (p : Project) (parent : Id) (name : String) (kind : Kind) :
    Except Error (Id × Project) := do
  let owner ← p.owningDeclaration parent .signature
  let (id, p) ← p.register { name, kind, parent := some parent, body := .signature {} }
  let p := p.modifyDeclaration parent (placeSignature kind id)
  return (id, p.unregister (replacedSignature kind owner).toList)

/-- Adds a parameter to a signature. -/
def addParameter (p : Project) (signature : Id) (name : String) (type : Option TypeExpr) :
    Except Error (Id × Project) := do
  let _ ← p.owningSignature signature .parameter
  let (id, p) ← p.register
    { name, kind := .parameter, parent := some signature, body := .parameter { type } }
  return (id, p.modifySignature signature fun s => { s with parameters := s.parameters ++ [id] })

/-- The body with a further type parameter, if it may have any. -/
def placeTypeParameter? (id : Id) : Body → Option Body
  | .declaration d => some (.declaration { d with typeParameters := d.typeParameters ++ [id] })
  | .signature s => some (.signature { s with typeParameters := s.typeParameters ++ [id] })
  | _ => none

/-- Adds a type parameter to a declaration or signature. -/
def addTypeParameter (p : Project) (owner : Id) (name : String)
    (constraint default : Option TypeExpr) : Except Error (Id × Project) := do
  match p.get? owner with
  | none => throw (.unknownReflection owner)
  | some r =>
    if (placeTypeParameter? 0 r.body).isNone then
      throw (.invalidParent owner .typeParameter)
    let (id, p) ← p.register
      { name, kind := .typeParameter, parent := some owner,
        body := .typeParameter { constraint, default } }
    return (id, p.modify owner fun r =>
      { r with body := (placeTypeParameter? id r.body).getD r.body })

/-! ### Types -/

/-- Gives the reflection registered under an id, if there is one, another main type. -/
def assignType (p : Project) (id : Id) (type : Option TypeExpr) : Project :=
  p.modify id fun r => { r with body := r.body.withType type }

end ApiGraph.Project
