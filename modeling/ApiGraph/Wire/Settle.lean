import ApiGraph.TypeExpr.Declarations
import ApiGraph.Wire.Encode

/-!
# ApiGraph.Wire.Settle

What encoding settles. Writing a document resolves every reference on the way, and each settles
where it is held, up to the point where the document turns out to have no written form. What
settles does not change the document.

* `Project.settleType` — the types that are rendered.
* `Project.settleEncoded`, `Project.settleEncodedType` — what encoding reflections or a type
  settles.
-/

namespace ApiGraph

/-- A reflection type or list of ids goes on as long as everything embedded can be encoded; the
first that cannot is still begun. -/
def takeThrough {α : Type} (goesOn : α → Bool) : List α → List α
  | [] => []
  | a :: rest => if goesOn a then a :: takeThrough goesOn rest else [a]

/-- The lineage with its references settled while the pass goes on. -/
def Lineage.settleWhile (s : TypeExpr.Settling) (l : Lineage) : StateM Bool Lineage := do
  let settle (r : Option Reference) : StateM Bool (Option Reference) :=
    match r with
    | none => return none
    | some r => return some (← r.settleWhile s)
  let overwrites ← settle l.overwrites
  let inheritedFrom ← settle l.inheritedFrom
  return { overwrites, inheritedFrom, implementationOf := ← settle l.implementationOf }

/-- The lineage's reference types, in order. -/
def Lineage.declarations (l : Lineage) : List Id :=
  [l.overwrites, l.inheritedFrom, l.implementationOf].flatMap fun r =>
    r.elim [] fun r => TypeExpr.declarationsList r.arguments

namespace Body

/-- Everything that a reflection embeds in a document, in order. -/
def embedded : Body → List Id
  | .declaration d =>
    d.typeParameters ++ TypeExpr.declarationsOption d.type ++ d.lineage.declarations ++
      d.signatures ++ d.indexSignature.toList ++ d.getSignature.toList ++ d.setSignature.toList ++
      d.children
  | .signature s =>
    s.typeParameters ++ s.parameters ++ TypeExpr.declarationsOption s.type ++
      s.lineage.declarations
  | .parameter p => TypeExpr.declarationsOption p.type
  | .typeParameter p =>
    TypeExpr.declarationsOption p.constraint ++ TypeExpr.declarationsOption p.default

/-- The body with the references settled that encoding reaches. -/
def settleWhile (s : TypeExpr.Settling) (body : Body) : StateM Bool Body := do
  let pass (ids : List Id) : StateM Bool Unit := modify (· && !ids.any s.blocks)
  match body with
  | .declaration d =>
    pass d.typeParameters
    let type ← TypeExpr.settleOption s d.type
    return .declaration { d with type, lineage := ← d.lineage.settleWhile s }
  | .signature sig =>
    pass (sig.typeParameters ++ sig.parameters)
    let type ← TypeExpr.settleOption s sig.type
    return .signature { sig with type, lineage := ← sig.lineage.settleWhile s }
  | .parameter p => return .parameter { p with type := ← TypeExpr.settleOption s p.type }
  | .typeParameter p =>
    let constraint ← TypeExpr.settleOption s p.constraint
    return .typeParameter { constraint, default := ← TypeExpr.settleOption s p.default }

end Body

namespace Project

/-- Settles the main type of a registered reflection. -/
def settleType (p : Project) (id : Id) : Project :=
  p.modify id fun r => { r with body := r.body.withType (r.type.map (·.settle p.lookup)) }

/-- Whether a reflection has a written form. -/
def encodes (p : Project) (id : Id) : Bool :=
  match p.reflectionToWire {} id with
  | .ok _ => true
  | .error _ => false

/-- The reflections that encoding begins with, from `id` at most `levels` levels down. -/
def reached (p : Project) : (levels : Nat) → Id → List Id
  | 0, _ => []
  | levels + 1, id =>
    match p.get? id with
    | none => []
    | some r => id :: (takeThrough p.encodes r.body.embedded).flatMap (reached p levels)

/-- What a pass over a type needs to know when it encodes. -/
def settling (p : Project) : TypeExpr.Settling :=
  { lookup := p.lookup, blocks := fun id => !p.encodes id }

/-- The project after encoding the reflections `ids` in turn. -/
def settleEncoded (p : Project) (ids : List Id) : Project :=
  let reached := (takeThrough p.encodes ids).flatMap (p.reached (p.size + 1))
  { p with registry := p.registry.mapValues fun id r =>
      if id ∈ reached then { r with body := (r.body.settleWhile p.settling true).1 } else r }

/-- A type after encoding it. -/
def settleEncodedType (p : Project) (t : TypeExpr) : TypeExpr :=
  (t.settleWhile p.settling true).1

end Project

end ApiGraph
