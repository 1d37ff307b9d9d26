import ApiGraph.Wire.Decode

/-!
# ApiGraph.Proofs.Parts

What a document says, without a project to say it to. Reading a type is a plain function of the
type; everything that reading looks at on the way is listed as the **parts** of the document, in the
order in which they are met. A reflection stands after everything that it owns, so the reflections
among the parts come in the order in which they are registered.

* `WireType.read` — the type that a document means; an embedded declaration is named by its id.
* `Part`, `WireType.parts`, `WireReflection.parts`, `WireReflection.rootParts` — the parts.
* `Part.IsValid` — what reading asks of one part on its own.
* `WireReflection.body` — what a reflection of a document holds in its role.
-/

namespace ApiGraph

/-! ### Reading types -/

/-- The value that a literal means. -/
def WireLiteral.read : WireLiteral → Literal
  | .null => .null
  | .bool b => .bool b
  | .number n => .number n.toBinary64
  | .string s => .string s
  | .bigInt magnitude negative =>
    .bigInt ((BigInt.ofParts negative magnitude).toOption.getD default)

mutual
/-- The type that a document means. -/
def WireType.read : WireType → TypeExpr
  | .array elementType => .array elementType.read
  | .conditional checkType extendsType trueType falseType =>
    .conditional checkType.read extendsType.read trueType.read falseType.read
  | .indexedAccess indexType objectType => .indexedAccess objectType.read indexType.read
  | .inferred name => .inferred name
  | .intersection types => .intersection (readTypes types)
  | .intrinsic name => .intrinsic name
  | .literal value => .literal value.read
  | .mapped parameter parameterType templateType readonlyModifier optionalModifier nameType =>
    .mapped parameter parameterType.read templateType.read readonlyModifier optionalModifier
      (readType? nameType)
  | .optional elementType => .optional elementType.read
  | .predicate name asserts targetType => .predicate name asserts (readType? targetType)
  | .query queryType => queryType.readReference.toQuery
  | .reference id typeArguments name qualifiedName package =>
    .reference (WireType.link id name qualifiedName package) (readTypes? typeArguments)
  | .reflection declaration => .reflection declaration.header.id
  | .rest elementType => .rest elementType.read
  | .templateLiteral head tail => .templateLiteral head (readSpans tail)
  | .tuple elements => .tuple (readTypes? elements)
  | .namedTupleMember name isOptional element => .namedTupleMember name isOptional element.read
  | .typeOperator target operator => .typeOperator operator target.read
  | .union types => .unionOf (readTypes types)
  | .unknown name => .unknown name

/-- The reference that a document means; a type of another form means none. -/
def WireType.readReference : WireType → Reference
  | .reference id typeArguments name qualifiedName package =>
    { link := WireType.link id name qualifiedName package, arguments := readTypes? typeArguments }
  | _ => default

/-- The types that a document means. -/
def readTypes : List WireType → List TypeExpr
  | [] => []
  | t :: ts => t.read :: readTypes ts

/-- Types that may be missing. -/
def readTypes? : Option (List WireType) → List TypeExpr
  | none => []
  | some ts => readTypes ts

/-- A type that may be missing. -/
def readType? : Option WireType → Option TypeExpr
  | none => none
  | some t => some t.read

/-- The spans of a template literal. -/
def readSpans : List (WireType × String) → List (TypeExpr × String)
  | [] => []
  | (t, text) :: spans => (t.read, text) :: readSpans spans
end

/-- A reference that may be missing. -/
def readReference? : Option WireType → Option Reference
  | none => none
  | some t => some t.readReference

/-- The references of a lineage. -/
def readLineage (overwrites inheritedFrom implementationOf : Option WireType) : Lineage where
  overwrites := readReference? overwrites
  inheritedFrom := readReference? inheritedFrom
  implementationOf := readReference? implementationOf

/-! ### Parts -/

/-- A reflection of a document in the role that its place gives it, below its owner. -/
structure Placement where
  role : Role
  owner : Option Id
  object : WireReflection

/-- The id that a reflection brings along. -/
def Placement.id (q : Placement) : Id :=
  q.object.header.id

/-- What reading looks at. -/
inductive Part
  /-- A type, at any depth. -/
  | type (type : WireType)
  /-- A type in a place where only a reference may stand. -/
  | link (type : WireType)
  /-- A reflection. -/
  | object (placement : Placement)

mutual
/-- The parts of a type, in the order in which they are read. -/
def WireType.parts : WireType → List Part
  | t@(.array elementType) => .type t :: elementType.parts
  | t@(.conditional checkType extendsType trueType falseType) =>
    .type t :: (checkType.parts ++ (extendsType.parts ++ (trueType.parts ++ falseType.parts)))
  | t@(.indexedAccess indexType objectType) => .type t :: (objectType.parts ++ indexType.parts)
  | t@(.inferred _) => [.type t]
  | t@(.intersection types) => .type t :: partsOfTypes types
  | t@(.intrinsic _) => [.type t]
  | t@(.literal _) => [.type t]
  | t@(.mapped _ parameterType templateType _ _ nameType) =>
    .type t :: (parameterType.parts ++ (templateType.parts ++ partsOfType? nameType))
  | t@(.optional elementType) => .type t :: elementType.parts
  | t@(.predicate _ _ targetType) => .type t :: partsOfType? targetType
  | t@(.query queryType) => .type t :: .link queryType :: queryType.parts
  | t@(.reference _ typeArguments _ _ _) => .type t :: partsOfTypes? typeArguments
  | t@(.reflection declaration) => .type t :: declaration.parts .declaration none
  | t@(.rest elementType) => .type t :: elementType.parts
  | t@(.templateLiteral _ tail) => .type t :: partsOfSpans tail
  | t@(.tuple elements) => .type t :: partsOfTypes? elements
  | t@(.namedTupleMember _ _ element) => .type t :: element.parts
  | t@(.typeOperator target _) => .type t :: target.parts
  | t@(.union types) => .type t :: partsOfTypes types
  | t@(.unknown _) => [.type t]

/-- The parts of each type in turn. -/
def partsOfTypes : List WireType → List Part
  | [] => []
  | t :: ts => t.parts ++ partsOfTypes ts

/-- The parts of types that may be missing. -/
def partsOfTypes? : Option (List WireType) → List Part
  | none => []
  | some ts => partsOfTypes ts

/-- The parts of a type that may be missing. -/
def partsOfType? : Option WireType → List Part
  | none => []
  | some t => t.parts

/-- The parts of a reference that may be missing. -/
def partsOfLink? : Option WireType → List Part
  | none => []
  | some t => .link t :: t.parts

/-- The parts of each span's type in turn. -/
def partsOfSpans : List (WireType × String) → List Part
  | [] => []
  | (t, _) :: spans => t.parts ++ partsOfSpans spans

/-- The parts of a reflection in the given role. What does not belong to the role is not a part. -/
def WireReflection.parts (role : Role) (owner : Option Id) : WireReflection → List Part
  | r@(.mk header children signatures indexSignature getSignature setSignature typeParameters
      parameters type default _ overwrites inheritedFrom implementationOf _ _) =>
    let self := some header.id
    (match role with
    | .declaration =>
      partsOfReflections? .typeParameter self typeParameters ++ (partsOfType? type ++
        (partsOfLink? overwrites ++ (partsOfLink? inheritedFrom ++
        (partsOfLink? implementationOf ++ (partsOfReflections? .signature self signatures ++
        (partsOfReflection? .signature self indexSignature ++
        (partsOfReflection? .signature self getSignature ++
        (partsOfReflection? .signature self setSignature ++
        partsOfReflections? .declaration self children))))))))
    | .signature =>
      partsOfReflections? .typeParameter self typeParameters ++
        (partsOfReflections? .parameter self parameters ++ (partsOfType? type ++
        (partsOfLink? overwrites ++ (partsOfLink? inheritedFrom ++
        partsOfLink? implementationOf))))
    | .parameter => partsOfType? type
    | .typeParameter => partsOfType? type ++ partsOfType? default) ++
    [.object { role, owner, object := r }]

/-- The parts of each reflection in turn. -/
def partsOfReflections (role : Role) (owner : Option Id) : List WireReflection → List Part
  | [] => []
  | r :: rs => r.parts role owner ++ partsOfReflections role owner rs

/-- The parts of reflections that may be missing. -/
def partsOfReflections? (role : Role) (owner : Option Id) :
    Option (List WireReflection) → List Part
  | none => []
  | some rs => partsOfReflections role owner rs

/-- The parts of a reflection that may be missing. -/
def partsOfReflection? (role : Role) (owner : Option Id) : Option WireReflection → List Part
  | none => []
  | some r => r.parts role owner
end

namespace WireReflection

/-- The children of the root. -/
def rootReflections : WireReflection → Option (List WireReflection)
  | .mk _ children _ _ _ _ _ _ _ _ _ _ _ _ _ _ => children

/-- The categories of the root. -/
def rootCategories : WireReflection → Option (List WireCategory)
  | .mk _ _ _ _ _ _ _ _ _ _ _ _ _ _ categories _ => categories

/-- The parts of a whole document: of the root itself only the children are read. -/
def rootParts (root : WireReflection) : List Part :=
  partsOfReflections? .declaration none root.rootReflections

end WireReflection

/-- The reflection that a part is, if it is one. -/
def Part.object? : Part → Option Placement
  | .object q => some q
  | _ => none

/-- The reflections among parts. -/
def placements (parts : List Part) : List Placement :=
  parts.filterMap Part.object?

@[simp] theorem placements_nil : placements [] = [] := rfl

@[simp] theorem placements_append (a b : List Part) :
    placements (a ++ b) = placements a ++ placements b :=
  List.filterMap_append

@[simp] theorem placements_type (t : WireType) (a : List Part) :
    placements (.type t :: a) = placements a := rfl

@[simp] theorem placements_link (t : WireType) (a : List Part) :
    placements (.link t :: a) = placements a := rfl

@[simp] theorem placements_object (q : Placement) (a : List Part) :
    placements (.object q :: a) = q :: placements a := rfl

theorem mem_placements {q : Placement} {parts : List Part} :
    q ∈ placements parts ↔ .object q ∈ parts := by
  constructor
  · intro h
    obtain ⟨part, mem, same⟩ := List.mem_filterMap.1 h
    cases part with
    | object q' => cases same; exact mem
    | _ => cases same
  · exact fun h => List.mem_filterMap.2 ⟨_, h, rfl⟩

/-! ### What reading asks for -/

/-- The digits of a big integer are one or more ASCII digits. -/
def WireLiteral.IsValid : WireLiteral → Prop
  | .bigInt magnitude _ => Digits.isNumber magnitude.toList = true
  | _ => True

/-- The kind of a reflection is known and fits its role, and its id leaves room for a next one. -/
structure Placement.IsValid (q : Placement) : Prop where
  kind : ∃ kind, Kind.ofBits? q.object.header.kind = some kind ∧ q.role.accepts kind = true
  positive : 1 ≤ q.id
  bounded : q.id ≤ maxId - 1

/-- What reading asks of a part on its own. -/
def Part.IsValid : Part → Prop
  | .type (.literal value) => value.IsValid
  | .type _ => True
  | .link t => t.form = .reference
  | .object q => q.IsValid

/-! ### Reading reflections -/

/-- The members of categories that are known. -/
def readCategories (known : Id → Bool) (cs : Option (List WireCategory)) : List Category :=
  (cs.getD []).map fun c => { title := c.title, children := (c.children.getD []).filter known }

/-- The ids of reflections that may be missing. -/
def idsOf (rs : Option (List WireReflection)) : List Id :=
  (rs.getD []).map (·.header.id)

/-- The id of a reflection that may be missing. -/
def idOf? (r : Option WireReflection) : Option Id :=
  r.map (·.header.id)

/-- What a reflection holds in its role, with the category members that are known. -/
def WireReflection.body (known : Id → Bool) (role : Role) : WireReflection → Body
  | .mk _ children signatures indexSignature getSignature setSignature typeParameters
      parameters type default defaultValue overwrites inheritedFrom implementationOf categories
      hasOwnDocument =>
    match role with
    | .declaration => .declaration
      { children := idsOf children
        signatures := idsOf signatures
        indexSignature := idOf? indexSignature
        getSignature := idOf? getSignature
        setSignature := idOf? setSignature
        typeParameters := idsOf typeParameters
        type := readType? type
        defaultValue
        lineage := readLineage overwrites inheritedFrom implementationOf
        categories := readCategories known categories
        hasOwnDocument }
    | .signature => .signature
      { parameters := idsOf parameters
        typeParameters := idsOf typeParameters
        type := readType? type
        lineage := readLineage overwrites inheritedFrom implementationOf }
    | .parameter => .parameter { type := readType? type, defaultValue }
    | .typeParameter => .typeParameter { constraint := readType? type, default := readType? default }

@[simp] theorem WireReflection.role_body (known : Id → Bool) (role : Role) (r : WireReflection) :
    (r.body known role).role = role := by
  cases r
  cases role <;> rfl

/-- The reflection that a placement stands for. -/
def Placement.reflection (known : Id → Bool) (q : Placement) : Reflection where
  name := q.object.header.name
  kind := (Kind.ofBits? q.object.header.kind).getD default
  parent := q.owner
  flags := q.object.header.flags
  body := q.object.body known q.role

end ApiGraph
