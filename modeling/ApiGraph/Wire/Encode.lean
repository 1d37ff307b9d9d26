import ApiGraph.Config
import ApiGraph.Json.Writer
import ApiGraph.Project.Basic
import ApiGraph.Wire.Layout

/-!
# ApiGraph.Wire.Encode

From projects to documents. Everything that a reflection owns, and every declaration that its types
name, is put in place of its id; a reference carries an id only if it resolves. Empty collections
are left out.

* `TypeExpr.toWire` — a type, given how declarations are embedded.
* `Project.reflectionToWire`, `Project.toWire` — reflections and whole projects.
* `Project.toJson`, `Project.toText` — down to JSON trees and text.
-/

namespace ApiGraph

/-- The greatest integer below which a double holds every integer exactly. -/
def maxSafeInteger : Nat := twoPow 53 - 1

/-- A number in a document: an integer where a double is sure to hold it, and null if not finite. -/
def Binary64.toWire (x : Binary64) : WireLiteral :=
  if !x.isFinite then .null
  else
    match x.toInt? with
    | some n => if n.natAbs ≤ maxSafeInteger then .number (.integer n) else .number (.double x)
    | none => .number (.double x)

/-- A literal in a document. -/
def Literal.toWire : Literal → WireLiteral
  | .null => .null
  | .bool b => .bool b
  | .number x => x.toWire
  | .string s => .string s
  | .bigInt n => .bigInt n.magnitude n.negative

/-- A reference in a document, given its type arguments there. -/
def Link.toWire (p : Project) (link : Link) (arguments : List WireType) : WireType :=
  .reference (p.resolve? link.target) (nonEmpty? arguments) link.name
    (link.external.map (·.qualifiedName)) (link.external.map (·.package))

namespace TypeExpr

mutual
/-- A type in a document, with each declaration that it names embedded by `embed`. -/
def toWire (p : Project) (embed : Id → Except Error WireReflection) :
    TypeExpr → Except Error WireType
  | .array element => return .array (← toWire p embed element)
  | .conditional check bound whenTrue whenFalse => do
    let check ← toWire p embed check
    let bound ← toWire p embed bound
    let whenTrue ← toWire p embed whenTrue
    return .conditional check bound whenTrue (← toWire p embed whenFalse)
  | .indexedAccess object index => do
    let index ← toWire p embed index
    return .indexedAccess index (← toWire p embed object)
  | .inferred name => return .inferred name
  | .intersection members => return .intersection (← toWireList p embed members)
  | .intrinsic name => return .intrinsic name
  | .literal value => return .literal value.toWire
  | .mapped parameter parameterType template readonlyModifier optionalModifier nameType => do
    let parameterType ← toWire p embed parameterType
    let template ← toWire p embed template
    let nameType ← toWireOption p embed nameType
    return .mapped parameter parameterType template readonlyModifier optionalModifier nameType
  | .optional element => return .optional (← toWire p embed element)
  | .predicate name asserts target =>
    return .predicate name asserts (← toWireOption p embed target)
  | .query link arguments => return .query (link.toWire p (← toWireList p embed arguments))
  | .reference link arguments => return link.toWire p (← toWireList p embed arguments)
  | .reflection id => return .reflection (← embed id)
  | .rest element => return .rest (← toWire p embed element)
  | .templateLiteral head tail => return .templateLiteral head (← toWireSpans p embed tail)
  | .tuple elements => return .tuple (nonEmpty? (← toWireList p embed elements))
  | .namedTupleMember name isOptional element =>
    return .namedTupleMember name isOptional (← toWire p embed element)
  | .typeOperator operator target => return .typeOperator (← toWire p embed target) operator
  | .union members => return .union (← toWireList p embed members)
  | .unknown name => return .unknown name

/-- Types in a document. -/
def toWireList (p : Project) (embed : Id → Except Error WireReflection) :
    List TypeExpr → Except Error (List WireType)
  | [] => return []
  | t :: ts => do
    let t ← toWire p embed t
    return t :: (← toWireList p embed ts)

/-- A type that may be missing, in a document. -/
def toWireOption (p : Project) (embed : Id → Except Error WireReflection) :
    Option TypeExpr → Except Error (Option WireType)
  | none => return none
  | some t => return some (← toWire p embed t)

/-- The spans of a template literal in a document. -/
def toWireSpans (p : Project) (embed : Id → Except Error WireReflection) :
    List (TypeExpr × String) → Except Error (List (WireType × String))
  | [] => return []
  | (t, text) :: spans => do
    let t ← toWire p embed t
    return (t, text) :: (← toWireSpans p embed spans)
end

end TypeExpr

/-- A reference that may be missing, in a document. -/
def Reference.toWireOption (p : Project) (embed : Id → Except Error WireReflection) :
    Option Reference → Except Error (Option WireType)
  | none => return none
  | some r => return some (r.link.toWire p (← TypeExpr.toWireList p embed r.arguments))

/-- The categories of a document. -/
def Category.listToWire (categories : List Category) : Option (List WireCategory) :=
  nonEmpty? (categories.map fun c => { title := c.title, children := nonEmpty? c.children })

namespace Project

/-- What a reflection begins with in a document. -/
def headerToWire (config : Config) (id : Id) (name : String) (kind : Kind) (flags : Flags) :
    WireHeader :=
  { id, name, kind := kind.bits,
    kindString := if config.kindStrings then some kind.title else none,
    flags }

/-- The reflections registered under the ids of a list, in a document. -/
def embedList (embed : Id → Except Error WireReflection) (ids : List Id) :
    Except Error (Option (List WireReflection)) := do
  return nonEmpty? (← ids.mapM embed)

/-- The reflection in a slot, in a document. -/
def embedSlot (embed : Id → Except Error WireReflection) :
    Option Id → Except Error (Option WireReflection)
  | none => return none
  | some id => return some (← embed id)

/-- A reflection in a document, with everything that it owns embedded by `embed`. -/
def bodyToWire (p : Project) (embed : Id → Except Error WireReflection) (header : WireHeader) :
    Body → Except Error WireReflection
  | .declaration d => do
    let typeParameters ← embedList embed d.typeParameters
    let type ← TypeExpr.toWireOption p embed d.type
    let overwrites ← Reference.toWireOption p embed d.lineage.overwrites
    let inheritedFrom ← Reference.toWireOption p embed d.lineage.inheritedFrom
    let implementationOf ← Reference.toWireOption p embed d.lineage.implementationOf
    let signatures ← embedList embed d.signatures
    let indexSignature ← embedSlot embed d.indexSignature
    let getSignature ← embedSlot embed d.getSignature
    let setSignature ← embedSlot embed d.setSignature
    let children ← embedList embed d.children
    return .mk header children signatures indexSignature getSignature setSignature typeParameters
      none type none d.defaultValue overwrites inheritedFrom implementationOf
      (Category.listToWire d.categories) d.hasOwnDocument
  | .signature s => do
    let typeParameters ← embedList embed s.typeParameters
    let parameters ← embedList embed s.parameters
    let type ← TypeExpr.toWireOption p embed s.type
    let overwrites ← Reference.toWireOption p embed s.lineage.overwrites
    let inheritedFrom ← Reference.toWireOption p embed s.lineage.inheritedFrom
    let implementationOf ← Reference.toWireOption p embed s.lineage.implementationOf
    return .mk header none none none none none typeParameters parameters type none none overwrites
      inheritedFrom implementationOf none false
  | .parameter q => do
    let type ← TypeExpr.toWireOption p embed q.type
    return .mk header none none none none none none none type none q.defaultValue none none none
      none false
  | .typeParameter q => do
    let constraint ← TypeExpr.toWireOption p embed q.constraint
    let default ← TypeExpr.toWireOption p embed q.default
    return .mk header none none none none none none none constraint default none none none none
      none false

/-- The reflection registered under an id, in a document that nests at most `levels` reflections. -/
def nestedToWire (p : Project) (config : Config) : (levels : Nat) → Id → Except Error WireReflection
  | 0, id => .error (.endlessOwnership id)
  | levels + 1, id =>
    match p.get? id with
    | none => .error (.unknownReflection id)
    | some r =>
      p.bodyToWire (p.nestedToWire config levels) (headerToWire config id r.name r.kind r.flags)
        r.body

/-- The reflection registered under an id, in a document. Where nothing owns itself, no path is
longer than the registry. -/
def reflectionToWire (p : Project) (config : Config) (id : Id) : Except Error WireReflection :=
  p.nestedToWire config (p.size + 1) id

/-- A type in a document. -/
def typeToWire (p : Project) (config : Config) (t : TypeExpr) : Except Error WireType :=
  t.toWire p (p.reflectionToWire config)

/-- A whole project as a document: a reflection with id 0 that owns the top level. -/
def toWire (p : Project) (config : Config) : Except Error WireReflection := do
  let children ← embedList (p.reflectionToWire config) p.children
  return .mk (headerToWire config 0 p.name .project {}) children none none none none none none
    none none none none none none (Category.listToWire p.categories) false

/-- A whole project as a JSON tree. -/
def toJson (p : Project) (config : Config) : Except Error Json :=
  (p.toWire config).map (·.toJson)

/-- A whole project as JSON text. -/
def toText (p : Project) (config : Config) : Except Error String :=
  (p.toJson config).map fun json => if config.pretty then json.pretty else json.compact

end Project

end ApiGraph
