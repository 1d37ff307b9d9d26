import ApiGraph.Flags
import ApiGraph.TypeExpr.Basic

/-!
# ApiGraph.Reflection

Reflections, the named nodes of the graph. They know each other by id only: lists and slots of ids
say what a reflection owns, the parent says by whom it is owned, and references never own.

* `Reflection` and its four bodies.
* `Reflection.owned` — every id that goes when the reflection goes.
* `Reflection.slots` — the owned ids in the order of a traversal.
* `Reflection.detach` — the reflection without one of the ids it owns.
-/

namespace ApiGraph

/-- A titled group of reflections. -/
structure Category where
  title : String
  children : List Id := []
deriving DecidableEq, Inhabited, Repr

/-- The members of other types that a member is related to. -/
structure Lineage where
  overwrites : Option Reference := none
  inheritedFrom : Option Reference := none
  implementationOf : Option Reference := none
deriving Inhabited

/-- Classes, interfaces, functions, variables, type literals and the like. -/
structure Declaration where
  children : List Id := []
  /-- Call and constructor signatures. -/
  signatures : List Id := []
  indexSignature : Option Id := none
  getSignature : Option Id := none
  setSignature : Option Id := none
  typeParameters : List Id := []
  type : Option TypeExpr := none
  defaultValue : Option String := none
  lineage : Lineage := {}
  categories : List Category := []
  /-- Whether the declaration is documented on a page of its own. -/
  hasOwnDocument : Bool := false
deriving Inhabited

/-- A call, constructor, index or accessor signature. -/
structure Signature where
  parameters : List Id := []
  typeParameters : List Id := []
  /-- The return type. -/
  type : Option TypeExpr := none
  lineage : Lineage := {}
deriving Inhabited

/-- A parameter of a signature. -/
structure Parameter where
  type : Option TypeExpr := none
  defaultValue : Option String := none
deriving Inhabited

/-- A type parameter of a declaration or signature. -/
structure TypeParameter where
  constraint : Option TypeExpr := none
  default : Option TypeExpr := none
deriving Inhabited

/-- What a reflection holds in its role. -/
inductive Body
  | declaration (declaration : Declaration)
  | signature (signature : Signature)
  | parameter (parameter : Parameter)
  | typeParameter (parameter : TypeParameter)
deriving Inhabited

namespace Body

/-- The role of a body. -/
def role : Body → Role
  | .declaration _ => .declaration
  | .signature _ => .signature
  | .parameter _ => .parameter
  | .typeParameter _ => .typeParameter

/-- The main type: the declared or returned type, or the constraint of a type parameter. -/
def type : Body → Option TypeExpr
  | .declaration d => d.type
  | .signature s => s.type
  | .parameter p => p.type
  | .typeParameter p => p.constraint

/-- The body with another main type. -/
def withType (type : Option TypeExpr) : Body → Body
  | .declaration d => .declaration { d with type }
  | .signature s => .signature { s with type }
  | .parameter p => .parameter { p with type }
  | .typeParameter p => .typeParameter { p with constraint := type }

end Body

/-- A node of the graph. It has no field for its id: the id is the key that it is registered under. A
project in which the id that a reflection gives for itself has been overwritten, and is another one than
its key, is not modelled. -/
structure Reflection where
  name : String
  kind : Kind
  /-- The owner; none at the top level and for anonymous declarations. -/
  parent : Option Id := none
  flags : Flags := {}
  body : Body
deriving Inhabited

/-- The place that an owned reflection takes in its owner. -/
inductive Slot
  | children
  | signatures
  | indexSignature
  | getSignature
  | setSignature
  | typeParameter
  | typeLiteral
  | parameters
deriving DecidableEq, Inhabited, Repr

/-- The name of a slot. -/
def Slot.name : Slot → String
  | .children => "Children"
  | .signatures => "Signatures"
  | .indexSignature => "IndexSignature"
  | .getSignature => "GetSignature"
  | .setSignature => "SetSignature"
  | .typeParameter => "TypeParameter"
  | .typeLiteral => "TypeLiteral"
  | .parameters => "Parameters"

namespace Reflection

/-- The declaration among the bodies. -/
def declaration? (r : Reflection) : Option Declaration :=
  match r.body with
  | .declaration d => some d
  | _ => none

/-- The signature among the bodies. -/
def signature? (r : Reflection) : Option Signature :=
  match r.body with
  | .signature s => some s
  | _ => none

/-- The main type. -/
def type (r : Reflection) : Option TypeExpr :=
  r.body.type

/-- The type literal that the main type is, if it is one. -/
def typeLiteral? (r : Reflection) : Option Id :=
  r.type.bind TypeExpr.declaration?

/-- The ids of everything that the reflection owns. -/
def owned (r : Reflection) : List Id :=
  r.typeLiteral?.toList ++
    match r.body with
    | .declaration d =>
      d.typeParameters ++ d.signatures ++ d.indexSignature.toList ++ d.getSignature.toList ++
        d.setSignature.toList ++ d.children
    | .signature s => s.typeParameters ++ s.parameters
    | .parameter _ | .typeParameter _ => []

/-- The ids that a traversal visits, in its order, each with its slot. -/
def slots (r : Reflection) : List (Id × Slot) :=
  let inSlot (slot : Slot) (ids : List Id) : List (Id × Slot) := ids.map (·, slot)
  match r.body with
  | .declaration d =>
    inSlot .typeParameter d.typeParameters ++ inSlot .typeLiteral r.typeLiteral?.toList ++
      inSlot .signatures d.signatures ++ inSlot .indexSignature d.indexSignature.toList ++
      inSlot .getSignature d.getSignature.toList ++ inSlot .setSignature d.setSignature.toList ++
      inSlot .children d.children
  | .signature s =>
    inSlot .typeLiteral r.typeLiteral?.toList ++ inSlot .typeParameter s.typeParameters ++
      inSlot .parameters s.parameters
  | .parameter _ => inSlot .typeLiteral r.typeLiteral?.toList
  | .typeParameter _ => []

end Reflection

/-! ### Detaching -/

/-- A list of ids without `id`. -/
def without (id : Id) (ids : List Id) : List Id :=
  ids.filter (· != id)

/-- A slot that no longer holds `id`. -/
def vacate (id : Id) (slot : Option Id) : Option Id :=
  if slot = some id then none else slot

/-- The category without `id`. -/
def Category.without (id : Id) (c : Category) : Category :=
  { c with children := ApiGraph.without id c.children }

/-- The body without `id` in any of its lists, slots and categories. -/
def Body.detach (id : Id) : Body → Body
  | .declaration d => .declaration
    { d with
      children := without id d.children
      signatures := without id d.signatures
      typeParameters := without id d.typeParameters
      indexSignature := vacate id d.indexSignature
      getSignature := vacate id d.getSignature
      setSignature := vacate id d.setSignature
      categories := d.categories.map (Category.without id) }
  | .signature s => .signature
    { s with
      parameters := without id s.parameters
      typeParameters := without id s.typeParameters }
  | body => body

/-- The reflection without `id` in any of its lists, slots and categories. -/
def Reflection.detach (id : Id) (r : Reflection) : Reflection :=
  { r with body := r.body.detach id }

end ApiGraph
