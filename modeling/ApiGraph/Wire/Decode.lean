import ApiGraph.Project.Edit
import ApiGraph.Wire.Schema

/-!
# ApiGraph.Wire.Decode

From documents to projects. Reflections keep the ids they bring along, so references by id resolve
in the new project without further ado. A reflection is registered after everything it owns; one
that fails leaves what was registered before it.

* `Decoder` — decoding into a project that is being filled.
* `WireType.decode`, `WireReflection.decode` — types and reflections in a role.
* `Project.ofWire` — whole projects.
-/

namespace ApiGraph

/-- A category member that is left out, since nothing is registered under its id. -/
structure Omission where
  child : Id
  title : String
deriving DecidableEq, Inhabited, Repr

/-- A project that is being filled, and the category members left out on the way. -/
structure Decoding where
  project : Project
  omissions : List Omission := []
deriving Inhabited

/-- Decoding fills a project; what an error finds there stays. -/
abbrev Decoder := EStateM Error Decoding

namespace Decoder

/-- Registers a reflection under the id that it brings along. -/
def register (header : WireHeader) (parent : Option Id) (body : Body) : Decoder Id := do
  match Kind.ofBits? header.kind with
  | none => throw (.unknownKind header.kind)
  | some kind =>
    let state ← get
    match state.project.registerAs header.id
      { name := header.name, kind, parent, flags := header.flags, body } with
    | .error e => throw e
    | .ok project =>
      set { state with project }
      return header.id

/-- A category with the members that are registered by now. -/
def category (c : WireCategory) : Decoder Category := do
  let state ← get
  let (kept, lost) := (c.children.getD []).partition state.project.contains
  set { state with
    omissions := state.omissions ++ lost.map fun child => (⟨child, c.title⟩ : Omission) }
  return { title := c.title, children := kept }

/-- Categories with the members that are registered by now. -/
def categories (cs : Option (List WireCategory)) : Decoder (List Category) :=
  (cs.getD []).mapM category

/-- A big integer. -/
def bigInt (negative : Bool) (magnitude : String) : Decoder Literal :=
  match BigInt.ofParts negative magnitude with
  | .ok n => return .bigInt n
  | .error e => throw e

end Decoder

/-- The double that a JSON number stands for. -/
def Numeral.toBinary64 : Numeral → Binary64
  | .integer n => .ofInt n
  | .double x => x

/-- The literal that a document holds. -/
def WireLiteral.decode : WireLiteral → Decoder Literal
  | .null => return .null
  | .bool b => return .bool b
  | .number n => return .number n.toBinary64
  | .string s => return .string s
  | .bigInt magnitude negative => Decoder.bigInt negative magnitude

/-- The link of a reference in a document. It is external only if both names are given, and without
an id it is broken. -/
def WireType.link (id : Option Id) (name : String) (qualifiedName package : Option String) : Link :=
  { name
    target := .reflection (id.getD brokenId)
    external := match qualifiedName, package with
      | some qualifiedName, some package => some { qualifiedName, package }
      | _, _ => none }

mutual
/-- The type that a document holds; declarations embedded in it are registered. -/
def WireType.decode : WireType → Decoder TypeExpr
  | .array elementType => return .array (← elementType.decode)
  | .conditional checkType extendsType trueType falseType => do
    let check ← checkType.decode
    let bound ← extendsType.decode
    let whenTrue ← trueType.decode
    return .conditional check bound whenTrue (← falseType.decode)
  | .indexedAccess indexType objectType => do
    let object ← objectType.decode
    return .indexedAccess object (← indexType.decode)
  | .inferred name => return .inferred name
  | .intersection types => return .intersection (← decodeTypes types)
  | .intrinsic name => return .intrinsic name
  | .literal value => return .literal (← value.decode)
  | .mapped parameter parameterType templateType readonlyModifier optionalModifier nameType => do
    let parameterType ← parameterType.decode
    let template ← templateType.decode
    let nameType ← decodeType? nameType
    return .mapped parameter parameterType template readonlyModifier optionalModifier nameType
  | .optional elementType => return .optional (← elementType.decode)
  | .predicate name asserts targetType =>
    return .predicate name asserts (← decodeType? targetType)
  | .query queryType => return (← queryType.decodeReference).toQuery
  | .reference id typeArguments name qualifiedName package => do
    let arguments ← decodeTypes? typeArguments
    return .reference (WireType.link id name qualifiedName package) arguments
  | .reflection declaration =>
    return .reflection (← declaration.decode .declaration none)
  | .rest elementType => return .rest (← elementType.decode)
  | .templateLiteral head tail => return .templateLiteral head (← decodeSpans tail)
  | .tuple elements => return .tuple (← decodeTypes? elements)
  | .namedTupleMember name isOptional element =>
    return .namedTupleMember name isOptional (← element.decode)
  | .typeOperator target operator => return .typeOperator operator (← target.decode)
  | .union types => return .unionOf (← decodeTypes types)
  | .unknown name => return .unknown name

/-- The reference that a document holds; a type of another form is an error. -/
def WireType.decodeReference : WireType → Decoder Reference
  | .reference id typeArguments name qualifiedName package => do
    let arguments ← decodeTypes? typeArguments
    return { link := WireType.link id name qualifiedName package, arguments }
  | other => throw (.unexpectedType other.form)

/-- The types that a document holds. -/
def decodeTypes : List WireType → Decoder (List TypeExpr)
  | [] => return []
  | t :: ts => do
    let t ← t.decode
    return t :: (← decodeTypes ts)

/-- Types that may be missing; then there are none. -/
def decodeTypes? : Option (List WireType) → Decoder (List TypeExpr)
  | none => return []
  | some ts => decodeTypes ts

/-- A type that may be missing. -/
def decodeType? : Option WireType → Decoder (Option TypeExpr)
  | none => return none
  | some t => return some (← t.decode)

/-- A reference that may be missing. -/
def decodeReference? : Option WireType → Decoder (Option Reference)
  | none => return none
  | some t => return some (← t.decodeReference)

/-- The spans of a template literal. -/
def decodeSpans : List (WireType × String) → Decoder (List (TypeExpr × String))
  | [] => return []
  | (t, text) :: spans => do
    let t ← t.decode
    return (t, text) :: (← decodeSpans spans)

/-- Registers a reflection of a document in the given role, after everything that it owns there.
Parts that do not belong to the role are not looked at. -/
def WireReflection.decode (role : Role) (parent : Option Id) : WireReflection → Decoder Id
  | .mk header children signatures indexSignature getSignature setSignature typeParameters
      parameters type default defaultValue overwrites inheritedFrom implementationOf categories
      hasOwnDocument => do
    let owner := some header.id
    match role with
    | .declaration =>
      let typeParameters ← decodeReflections? .typeParameter owner typeParameters
      let type ← decodeType? type
      let overwrites ← decodeReference? overwrites
      let inheritedFrom ← decodeReference? inheritedFrom
      let implementationOf ← decodeReference? implementationOf
      let signatures ← decodeReflections? .signature owner signatures
      let indexSignature ← decodeReflection? .signature owner indexSignature
      let getSignature ← decodeReflection? .signature owner getSignature
      let setSignature ← decodeReflection? .signature owner setSignature
      let children ← decodeReflections? .declaration owner children
      let categories ← Decoder.categories categories
      Decoder.register header parent (.declaration
        { children, signatures, indexSignature, getSignature, setSignature, typeParameters, type,
          defaultValue, lineage := { overwrites, inheritedFrom, implementationOf }, categories,
          hasOwnDocument })
    | .signature =>
      let typeParameters ← decodeReflections? .typeParameter owner typeParameters
      let parameters ← decodeReflections? .parameter owner parameters
      let type ← decodeType? type
      let overwrites ← decodeReference? overwrites
      let inheritedFrom ← decodeReference? inheritedFrom
      let implementationOf ← decodeReference? implementationOf
      Decoder.register header parent (.signature
        { parameters, typeParameters, type,
          lineage := { overwrites, inheritedFrom, implementationOf } })
    | .parameter =>
      let type ← decodeType? type
      Decoder.register header parent (.parameter { type, defaultValue })
    | .typeParameter =>
      let constraint ← decodeType? type
      let default ← decodeType? default
      Decoder.register header parent (.typeParameter { constraint, default })

/-- Registers the reflections of a list in turn. -/
def decodeReflections (role : Role) (parent : Option Id) : List WireReflection → Decoder (List Id)
  | [] => return []
  | r :: rs => do
    let id ← r.decode role parent
    return id :: (← decodeReflections role parent rs)

/-- Registers reflections that may be missing. -/
def decodeReflections? (role : Role) (parent : Option Id) :
    Option (List WireReflection) → Decoder (List Id)
  | none => return []
  | some rs => decodeReflections role parent rs

/-- Registers a reflection that may be missing. -/
def decodeReflection? (role : Role) (parent : Option Id) :
    Option WireReflection → Decoder (Option Id)
  | none => return none
  | some r => return some (← r.decode role parent)
end

/-- Fills the project at hand with what the root of a document owns. Of the root itself the kind,
the name, the children and the categories count. -/
def WireReflection.decodeRoot : WireReflection → Decoder Project
  | .mk header children _ _ _ _ _ _ _ _ _ _ _ _ categories _ =>
    match Kind.ofBits? header.kind with
    | none => throw (.unknownKind header.kind)
    | some .project => do
      let children ← decodeReflections? .declaration none children
      let categories ← Decoder.categories categories
      return { (← get).project with children, categories }
    | some kind => throw (.notAProject kind)

/-- Decodes a document into a new project. -/
def WireReflection.decodeProject (root : WireReflection) :
    EStateM.Result Error Decoding Project :=
  root.decodeRoot.run { project := { name := root.header.name } }

/-- The project that a document holds. -/
def Project.ofWire (root : WireReflection) : Except Error Project :=
  match root.decodeProject with
  | .ok project _ => .ok project
  | .error e _ => .error e

/-- The category members that decoding a document leaves out, up to its end or the first error. -/
def WireReflection.omissions (root : WireReflection) : List Omission :=
  match root.decodeProject with
  | .ok _ state => state.omissions
  | .error _ state => state.omissions

end ApiGraph
