import ApiGraph.Error
import ApiGraph.Literal
import ApiGraph.Package

/-!
# ApiGraph.TypeExpr.Basic

Type expressions as value trees. The only thing outside the tree is a declaration that a reflection
type names by its id.

* `Target`, `Link`, `Reference` — a name in a type, and what it stands for.
* `TypeExpr` — the twenty forms.
* `TypeExpr.unionOf` — unions in normal form: `true | false` is `boolean`.
-/

namespace ApiGraph

/-- The handle by which the producer of a graph knows a symbol. -/
abbrev Symbol := Nat

/-- The written form of a symbol. -/
def Symbol.text (symbol : Symbol) : String :=
  "symbol#" ++ toString symbol

/-- What a reference points at. -/
inductive Target
  /-- A symbol of the producer, which may turn out to be a reflection. -/
  | symbol (symbol : Symbol)
  /-- A reflection, registered or not. -/
  | reflection (id : Id)
deriving DecidableEq, Inhabited, Repr

/-- The id of references that never resolve. -/
def brokenId : Id := -1

/-- A name with what it stands for, here and in another package. -/
structure Link where
  name : String
  target : Target
  external : Option ExternalName := none
deriving DecidableEq, Inhabited, Repr

/-- What the producer of a graph says about a symbol. -/
structure SymbolFacts where
  name : String
  /-- The file that declares the symbol, if it is known. -/
  file : Option String
  qualifiedName : String
deriving Inhabited

/-- A link to a symbol, under its own name or another one. -/
def Link.ofSymbol (symbol : Symbol) (name : Option String) (facts : SymbolFacts) : Link where
  name := name.getD facts.name
  target := .symbol symbol
  external := facts.file.bind (ExternalName.ofDeclaration? · facts.qualifiedName)

/-- Adds or takes away a modifier in a mapped type. -/
inductive Modifier
  | add
  | remove
deriving DecidableEq, Inhabited, Repr

/-- The sign of a modifier. -/
def Modifier.sign : Modifier → String
  | .add => "+"
  | .remove => "-"

/-- The operators on types. -/
inductive Operator
  | keyof
  | unique
  | readonly
deriving DecidableEq, Inhabited, Repr

/-- The keyword of an operator. -/
def Operator.name : Operator → String
  | .keyof => "keyof"
  | .unique => "unique"
  | .readonly => "readonly"

/-- A type expression. -/
inductive TypeExpr
  | array (element : TypeExpr)
  | conditional (check bound whenTrue whenFalse : TypeExpr)
  | indexedAccess (object index : TypeExpr)
  | inferred (name : String)
  | intersection (members : List TypeExpr)
  | intrinsic (name : String)
  | literal (value : Literal)
  | mapped (parameter : String) (parameterType template : TypeExpr)
      (readonlyModifier optionalModifier : Option Modifier) (nameType : Option TypeExpr)
  | optional (element : TypeExpr)
  | predicate (name : String) (asserts : Bool) (target : Option TypeExpr)
  /-- The type of the value that a reference names. -/
  | query (link : Link) (arguments : List TypeExpr)
  | reference (link : Link) (arguments : List TypeExpr)
  /-- An anonymous declaration of the project. -/
  | reflection (declaration : Id)
  | rest (element : TypeExpr)
  | templateLiteral (head : String) (tail : List (TypeExpr × String))
  | tuple (elements : List TypeExpr)
  | namedTupleMember (name : String) (isOptional : Bool) (element : TypeExpr)
  | typeOperator (operator : Operator) (target : TypeExpr)
  | union (members : List TypeExpr)
  /-- Text that is shown as it is. -/
  | unknown (name : String)
deriving Inhabited

/-- A reference on its own, outside a type: a link with type arguments. -/
structure Reference where
  link : Link
  arguments : List TypeExpr := []
deriving Inhabited

/-- A reference as a type. -/
def Reference.toType (r : Reference) : TypeExpr :=
  .reference r.link r.arguments

/-- The type of the value that a reference names. -/
def Reference.toQuery (r : Reference) : TypeExpr :=
  .query r.link r.arguments

namespace TypeExpr

/-- The form of a type expression. -/
def form : TypeExpr → Form
  | .array _ => .array
  | .conditional .. => .conditional
  | .indexedAccess .. => .indexedAccess
  | .inferred _ => .inferred
  | .intersection _ => .intersection
  | .intrinsic _ => .intrinsic
  | .literal _ => .literal
  | .mapped .. => .mapped
  | .optional _ => .optional
  | .predicate .. => .predicate
  | .query .. => .query
  | .reference .. => .reference
  | .reflection _ => .reflection
  | .rest _ => .rest
  | .templateLiteral .. => .templateLiteral
  | .tuple _ => .tuple
  | .namedTupleMember .. => .namedTupleMember
  | .typeOperator .. => .typeOperator
  | .union _ => .union
  | .unknown _ => .unknown

/-- How tightly a type expression holds together. -/
def bindingPower (t : TypeExpr) : Int :=
  t.form.bindingPower

/-- The reference that a reference type is, or that a query asks for. -/
def reference? : TypeExpr → Option Reference
  | .reference link arguments => some { link, arguments }
  | .query link arguments => some { link, arguments }
  | _ => none

/-- The declaration that a reflection type names. -/
def declaration? : TypeExpr → Option Id
  | .reflection id => some id
  | _ => none

/-! ### Unions -/

/-- Whether a type is the literal type of a boolean value. -/
def isBool (value : Bool) : TypeExpr → Bool
  | .literal l => l == .bool value
  | _ => false

/-- Members of a union with the first `true` and the first `false` merged: `boolean` takes the
place of the one that came first. Without one of the two nothing changes. -/
def mergeBools (members : List TypeExpr) : List TypeExpr :=
  match members.findIdx? (isBool true), members.findIdx? (isBool false) with
  | some i, some j => (members.eraseIdx (max i j)).set (min i j) (.intrinsic "boolean")
  | _, _ => members

/-- The union of types. -/
def unionOf (members : List TypeExpr) : TypeExpr :=
  .union (mergeBools members)

end TypeExpr

end ApiGraph
