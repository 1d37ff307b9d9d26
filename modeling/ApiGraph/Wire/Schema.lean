import ApiGraph.Json.Basic
import ApiGraph.Reflection

/-!
# ApiGraph.Wire.Schema

The trees that documents hold: types and reflections with everything they own in place, instead of
ids. A part that a document leaves out is `none`; an empty collection and a missing one are told
apart.

* `WireLiteral`, `WireCategory`, `WireHeader` — the flat parts.
* `WireType`, `WireReflection` — the trees.
-/

namespace ApiGraph

/-- The value of a literal type in a document. -/
inductive WireLiteral
  | null
  | bool (value : Bool)
  | number (value : Numeral)
  | string (value : String)
  | bigInt (magnitude : String) (negative : Bool)
deriving DecidableEq, Inhabited, Repr

/-- A category in a document. -/
structure WireCategory where
  title : String
  children : Option (List Id) := none
deriving DecidableEq, Inhabited, Repr

/-- What every reflection in a document begins with. -/
structure WireHeader where
  id : Id
  name : String
  /-- The bits of the kind. -/
  kind : Nat
  /-- The kind for readers; it is not read back. -/
  kindString : Option String := none
  flags : Flags := {}
deriving DecidableEq, Inhabited, Repr

mutual
/-- A type in a document. -/
inductive WireType
  | array (elementType : WireType)
  | conditional (checkType extendsType trueType falseType : WireType)
  | indexedAccess (indexType objectType : WireType)
  | inferred (name : String)
  | intersection (types : List WireType)
  | intrinsic (name : String)
  | literal (value : WireLiteral)
  | mapped (parameter : String) (parameterType templateType : WireType)
      (readonlyModifier optionalModifier : Option Modifier) (nameType : Option WireType)
  | optional (elementType : WireType)
  | predicate (name : String) (asserts : Bool) (targetType : Option WireType)
  | query (queryType : WireType)
  | reference (id : Option Id) (typeArguments : Option (List WireType)) (name : String)
      (qualifiedName package : Option String)
  | reflection (declaration : WireReflection)
  | rest (elementType : WireType)
  | templateLiteral (head : String) (tail : List (WireType × String))
  | tuple (elements : Option (List WireType))
  | namedTupleMember (name : String) (isOptional : Bool) (element : WireType)
  | typeOperator (target : WireType) (operator : Operator)
  | union (types : List WireType)
  | unknown (name : String)

/-- A reflection of any role in a document, the project itself included. Which parts count depends
on the role. -/
inductive WireReflection
  | mk (header : WireHeader)
      (children signatures : Option (List WireReflection))
      (indexSignature getSignature setSignature : Option WireReflection)
      (typeParameters parameters : Option (List WireReflection))
      (type default : Option WireType) (defaultValue : Option String)
      (overwrites inheritedFrom implementationOf : Option WireType)
      (categories : Option (List WireCategory)) (hasOwnDocument : Bool)
end

instance : Inhabited WireType := ⟨.unknown ""⟩

/-- The form of a type in a document. -/
def WireType.form : WireType → TypeExpr.Form
  | .array _ => .array
  | .conditional .. => .conditional
  | .indexedAccess .. => .indexedAccess
  | .inferred _ => .inferred
  | .intersection _ => .intersection
  | .intrinsic _ => .intrinsic
  | .literal _ => .literal
  | .mapped .. => .mapped
  | .optional _ => .optional
  | .predicate .. => .predicate
  | .query _ => .query
  | .reference .. => .reference
  | .reflection _ => .reflection
  | .rest _ => .rest
  | .templateLiteral .. => .templateLiteral
  | .tuple _ => .tuple
  | .namedTupleMember .. => .namedTupleMember
  | .typeOperator .. => .typeOperator
  | .union _ => .union
  | .unknown _ => .unknown

namespace WireReflection

/-- A reflection with its header only. -/
def ofHeader (header : WireHeader) : WireReflection :=
  .mk header none none none none none none none none none none none none none none false

instance : Inhabited WireReflection := ⟨ofHeader default⟩

/-- What the reflection begins with. -/
def header : WireReflection → WireHeader
  | .mk header .. => header

end WireReflection

/-- A collection, unless it is empty. -/
def nonEmpty? {α : Type} (items : List α) : Option (List α) :=
  if items.isEmpty then none else some items

end ApiGraph
