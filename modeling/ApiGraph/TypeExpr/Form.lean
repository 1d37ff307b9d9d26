/-!
# ApiGraph.TypeExpr.Form

The twenty forms of type expressions, with the names that documents use and the binding powers that
decide on parentheses.
-/

namespace ApiGraph.TypeExpr

/-- The form of a type expression. -/
inductive Form
  | array
  | conditional
  | indexedAccess
  | inferred
  | intersection
  | intrinsic
  | literal
  | mapped
  | optional
  | predicate
  | query
  | reference
  | reflection
  | rest
  | templateLiteral
  | tuple
  | namedTupleMember
  | typeOperator
  | union
  | unknown
deriving DecidableEq, Inhabited, Repr

namespace Form

/-- Every form, in order. -/
def all : List Form :=
  [.array, .conditional, .indexedAccess, .inferred, .intersection, .intrinsic, .literal, .mapped,
    .optional, .predicate, .query, .reference, .reflection, .rest, .templateLiteral, .tuple,
    .namedTupleMember, .typeOperator, .union, .unknown]

/-- The name of a form in documents. -/
def name : Form → String
  | .array => "array"
  | .conditional => "conditional"
  | .indexedAccess => "indexedAccess"
  | .inferred => "inferred"
  | .intersection => "intersection"
  | .intrinsic => "intrinsic"
  | .literal => "literal"
  | .mapped => "mapped"
  | .optional => "optional"
  | .predicate => "predicate"
  | .query => "query"
  | .reference => "reference"
  | .reflection => "reflection"
  | .rest => "rest"
  | .templateLiteral => "template-literal"
  | .tuple => "tuple"
  | .namedTupleMember => "named-tuple-member"
  | .typeOperator => "typeOperator"
  | .union => "union"
  | .unknown => "unknown"

/-- The form with the given name. -/
def ofName? (name : String) : Option Form :=
  all.find? (·.name == name)

/-- How tightly a form holds together: a form is put between parentheses where a greater power is
asked for. The text of an unknown type is opaque, so it binds least of all. -/
def bindingPower : Form → Int
  | .conditional => 70
  | .union => 100
  | .intersection => 120
  | .query | .typeOperator => 900
  | .unknown => -1
  | _ => 999

/-- The power asked for where a conditional type checks. -/
def checkPower : Int := 150

end Form

end ApiGraph.TypeExpr
