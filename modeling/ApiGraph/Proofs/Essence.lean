import ApiGraph.Proofs.Registered

/-!
# ApiGraph.Proofs.Essence

What a document says beyond what it holds. The **essence** of a document is what is left when everything
is taken out that its places have no use for: the kind in words, the parts that do not belong to the role
of a reflection, collections without items, and one name of an external target without the other. Two
documents with the same essence cannot be told apart by decoding them, whatever was taken out of them.

* `WireType.essence`, `WireReflection.essence`, `WireReflection.rootEssence` — what is left.
* `WireType.decode_essence`, `WireReflection.decode_essence` — decoding needs no more than that.
* `ofWire_eq_of_sameEssence` — documents with the same essence mean the same.
-/

namespace ApiGraph

/-! ### What is left of the flat parts -/

/-- A collection that may be missing, unless it is empty. -/
def itemsEssence {α : Type} (items : Option (List α)) : Option (List α) :=
  items.bind nonEmpty?

/-- A category, of which the members may be missing. -/
def WireCategory.essence (c : WireCategory) : WireCategory :=
  { c with children := itemsEssence c.children }

/-- Categories that may be missing. -/
def categoriesEssence (categories : Option (List WireCategory)) : Option (List WireCategory) :=
  itemsEssence (categories.map (·.map WireCategory.essence))

/-- What a reflection begins with, without its kind in words. -/
def WireHeader.essence (header : WireHeader) : WireHeader :=
  { header with kindString := none }

/-- One of the two names of an external target, if the other one is given too. -/
def nameEssence (other name : Option String) : Option String :=
  if other.isSome then name else none

/-! ### What is left of the trees -/

mutual
/-- A type without what decoding it has no use for. -/
def WireType.essence : WireType → WireType
  | .array elementType => .array elementType.essence
  | .conditional checkType extendsType trueType falseType =>
    .conditional checkType.essence extendsType.essence trueType.essence falseType.essence
  | .indexedAccess indexType objectType => .indexedAccess indexType.essence objectType.essence
  | .inferred name => .inferred name
  | .intersection types => .intersection (essenceTypes types)
  | .intrinsic name => .intrinsic name
  | .literal value => .literal value
  | .mapped parameter parameterType templateType readonlyModifier optionalModifier nameType =>
    .mapped parameter parameterType.essence templateType.essence readonlyModifier optionalModifier
      (essenceType? nameType)
  | .optional elementType => .optional elementType.essence
  | .predicate name asserts targetType => .predicate name asserts (essenceType? targetType)
  | .query queryType => .query queryType.essence
  | .reference id typeArguments name qualifiedName package =>
    .reference id (essenceTypes? typeArguments) name (nameEssence package qualifiedName)
      (nameEssence qualifiedName package)
  | .reflection declaration => .reflection (declaration.essence .declaration)
  | .rest elementType => .rest elementType.essence
  | .templateLiteral head tail => .templateLiteral head (essenceSpans tail)
  | .tuple elements => .tuple (essenceTypes? elements)
  | .namedTupleMember name isOptional element => .namedTupleMember name isOptional element.essence
  | .typeOperator target operator => .typeOperator target.essence operator
  | .union types => .union (essenceTypes types)
  | .unknown name => .unknown name

/-- The essence of each type. -/
def essenceTypes : List WireType → List WireType
  | [] => []
  | t :: ts => t.essence :: essenceTypes ts

/-- The essence of types that may be missing. -/
def essenceTypes? : Option (List WireType) → Option (List WireType)
  | none => none
  | some ts => nonEmpty? (essenceTypes ts)

/-- The essence of a type that may be missing. -/
def essenceType? : Option WireType → Option WireType
  | none => none
  | some t => some t.essence

/-- The essence of each span's type. -/
def essenceSpans : List (WireType × String) → List (WireType × String)
  | [] => []
  | (t, text) :: spans => (t.essence, text) :: essenceSpans spans

/-- A reflection without what decoding it in a role has no use for: parts of other roles go, whatever
they hold. -/
def WireReflection.essence (role : Role) : WireReflection → WireReflection
  | .mk header children signatures indexSignature getSignature setSignature typeParameters
      parameters type default defaultValue overwrites inheritedFrom implementationOf categories
      hasOwnDocument =>
    match role with
    | .declaration =>
      .mk header.essence (essenceReflections? .declaration children)
        (essenceReflections? .signature signatures) (essenceReflection? .signature indexSignature)
        (essenceReflection? .signature getSignature) (essenceReflection? .signature setSignature)
        (essenceReflections? .typeParameter typeParameters) none (essenceType? type) none
        defaultValue (essenceType? overwrites) (essenceType? inheritedFrom)
        (essenceType? implementationOf) (categoriesEssence categories) hasOwnDocument
    | .signature =>
      .mk header.essence none none none none none
        (essenceReflections? .typeParameter typeParameters)
        (essenceReflections? .parameter parameters) (essenceType? type) none none
        (essenceType? overwrites) (essenceType? inheritedFrom) (essenceType? implementationOf) none
        false
    | .parameter =>
      .mk header.essence none none none none none none none (essenceType? type) none defaultValue
        none none none none false
    | .typeParameter =>
      .mk header.essence none none none none none none none (essenceType? type)
        (essenceType? default) none none none none none false

/-- The essence of each reflection. -/
def essenceReflections (role : Role) : List WireReflection → List WireReflection
  | [] => []
  | r :: rs => r.essence role :: essenceReflections role rs

/-- The essence of reflections that may be missing. -/
def essenceReflections? (role : Role) :
    Option (List WireReflection) → Option (List WireReflection)
  | none => none
  | some rs => nonEmpty? (essenceReflections role rs)

/-- The essence of a reflection that may be missing. -/
def essenceReflection? (role : Role) : Option WireReflection → Option WireReflection
  | none => none
  | some r => some (r.essence role)
end

namespace WireReflection

/-- A whole document without what decoding it has no use for: of the root there remain the name, the
kind, the children and the categories. -/
def rootEssence : WireReflection → WireReflection
  | .mk header children _ _ _ _ _ _ _ _ _ _ _ _ categories _ =>
    .mk { id := 0, name := header.name, kind := header.kind }
      (essenceReflections? .declaration children) none none none none none none none none none none
      none none (categoriesEssence categories) false

/-- Two documents that differ only in what decoding has no use for. -/
def SameEssence (root root' : WireReflection) : Prop :=
  root.rootEssence = root'.rootEssence

end WireReflection

/-! ### Decoding the flat parts -/

theorem nonEmpty?_getD {α : Type} (items : List α) : (nonEmpty? items).getD [] = items := by
  cases items <;> rfl

theorem itemsEssence_getD {α : Type} (items : Option (List α)) :
    (itemsEssence items).getD [] = items.getD [] := by
  cases items with
  | none => rfl
  | some items => exact nonEmpty?_getD items

namespace Decoder

theorem category_essence (c : WireCategory) : category c.essence = category c := by
  unfold category WireCategory.essence
  rw [itemsEssence_getD]

theorem categories_essence (cs : Option (List WireCategory)) :
    categories (categoriesEssence cs) = categories cs := by
  unfold categories categoriesEssence
  rw [itemsEssence_getD]
  cases cs with
  | none => rfl
  | some cs =>
      show (cs.map WireCategory.essence).mapM category = cs.mapM category
      rw [List.mapM_map]
      exact congrArg (cs.mapM ·) (funext category_essence)

/-- The kind in words is not registered. -/
theorem register_essence (header : WireHeader) : register header.essence = register header := rfl

end Decoder

/-- A link has an external target only if both names are given. -/
theorem WireType.link_essence (id : Option Id) (name : String)
    (qualifiedName package : Option String) :
    WireType.link id name (nameEssence package qualifiedName) (nameEssence qualifiedName package) =
      WireType.link id name qualifiedName package := by
  cases qualifiedName <;> cases package <;> rfl

/-! ### Decoding the trees -/

mutual
/-- A type is decoded like its essence. -/
theorem WireType.decode_essence : ∀ t : WireType, t.essence.decode = t.decode
  | .array element => by simp only [WireType.essence, WireType.decode, element.decode_essence]
  | .conditional check bound whenTrue whenFalse => by
      simp only [WireType.essence, WireType.decode, check.decode_essence, bound.decode_essence,
        whenTrue.decode_essence, whenFalse.decode_essence]
  | .indexedAccess index object => by
      simp only [WireType.essence, WireType.decode, index.decode_essence, object.decode_essence]
  | .inferred _ | .intrinsic _ | .literal _ | .unknown _ => rfl
  | .intersection types => by
      simp only [WireType.essence, WireType.decode, decodeTypes_essence types]
  | .mapped _ parameterType template _ _ nameType => by
      simp only [WireType.essence, WireType.decode, parameterType.decode_essence,
        template.decode_essence, decodeType?_essence nameType]
  | .optional element => by simp only [WireType.essence, WireType.decode, element.decode_essence]
  | .predicate _ _ target => by
      simp only [WireType.essence, WireType.decode, decodeType?_essence target]
  | .query queried => by
      simp only [WireType.essence, WireType.decode, queried.decodeReference_essence]
  | .reference _ arguments _ _ _ => by
      simp only [WireType.essence, WireType.decode, decodeTypes?_essence arguments,
        WireType.link_essence]
  | .reflection declaration => by
      simp only [WireType.essence, WireType.decode, declaration.decode_essence .declaration none]
  | .rest element => by simp only [WireType.essence, WireType.decode, element.decode_essence]
  | .templateLiteral _ tail => by
      simp only [WireType.essence, WireType.decode, decodeSpans_essence tail]
  | .tuple elements => by
      simp only [WireType.essence, WireType.decode, decodeTypes?_essence elements]
  | .namedTupleMember _ _ element => by
      simp only [WireType.essence, WireType.decode, element.decode_essence]
  | .typeOperator target _ => by
      simp only [WireType.essence, WireType.decode, target.decode_essence]
  | .union types => by simp only [WireType.essence, WireType.decode, decodeTypes_essence types]

/-- In the place of a reference, a type of another form is refused for its form alone. -/
theorem WireType.decodeReference_essence :
    ∀ t : WireType, t.essence.decodeReference = t.decodeReference
  | .reference _ arguments _ _ _ => by
      simp only [WireType.essence, WireType.decodeReference, decodeTypes?_essence arguments,
        WireType.link_essence]
  | .array _ | .conditional .. | .indexedAccess .. | .inferred _ | .intersection _ | .intrinsic _
  | .literal _ | .mapped .. | .optional _ | .predicate .. | .query _ | .reflection _ | .rest _
  | .templateLiteral .. | .tuple _ | .namedTupleMember .. | .typeOperator .. | .union _
  | .unknown _ => rfl

theorem decodeTypes_essence : ∀ ts, decodeTypes (essenceTypes ts) = decodeTypes ts
  | [] => rfl
  | t :: ts => by simp only [essenceTypes, decodeTypes, t.decode_essence, decodeTypes_essence ts]

theorem decodeTypes?_essence : ∀ ts, decodeTypes? (essenceTypes? ts) = decodeTypes? ts
  | none => rfl
  | some [] => rfl
  | some (t :: ts) => decodeTypes_essence (t :: ts)

theorem decodeType?_essence : ∀ t, decodeType? (essenceType? t) = decodeType? t
  | none => rfl
  | some t => by simp only [essenceType?, decodeType?, t.decode_essence]

theorem decodeReference?_essence : ∀ t, decodeReference? (essenceType? t) = decodeReference? t
  | none => rfl
  | some t => by simp only [essenceType?, decodeReference?, t.decodeReference_essence]

theorem decodeSpans_essence : ∀ spans, decodeSpans (essenceSpans spans) = decodeSpans spans
  | [] => rfl
  | (t, _) :: spans => by
      simp only [essenceSpans, decodeSpans, t.decode_essence, decodeSpans_essence spans]

/-- A reflection is decoded like its essence in the role. -/
theorem WireReflection.decode_essence (role : Role) (owner : Option Id) :
    ∀ r : WireReflection, (r.essence role).decode role owner = r.decode role owner
  | .mk header children signatures indexSignature getSignature setSignature typeParameters
      parameters type default defaultValue overwrites inheritedFrom implementationOf categories
      hasOwnDocument => by
      have sameId : header.essence.id = header.id := rfl
      cases role with
      | declaration =>
          simp only [WireReflection.essence, WireReflection.decode, sameId,
            Decoder.register_essence, Decoder.categories_essence,
            decodeReflections?_essence .typeParameter (some header.id) typeParameters,
            decodeType?_essence type, decodeReference?_essence overwrites,
            decodeReference?_essence inheritedFrom, decodeReference?_essence implementationOf,
            decodeReflections?_essence .signature (some header.id) signatures,
            decodeReflection?_essence .signature (some header.id) indexSignature,
            decodeReflection?_essence .signature (some header.id) getSignature,
            decodeReflection?_essence .signature (some header.id) setSignature,
            decodeReflections?_essence .declaration (some header.id) children]
      | signature =>
          simp only [WireReflection.essence, WireReflection.decode, sameId, Decoder.register_essence,
            decodeReflections?_essence .typeParameter (some header.id) typeParameters,
            decodeReflections?_essence .parameter (some header.id) parameters,
            decodeType?_essence type, decodeReference?_essence overwrites,
            decodeReference?_essence inheritedFrom, decodeReference?_essence implementationOf]
      | parameter =>
          simp only [WireReflection.essence, WireReflection.decode, Decoder.register_essence,
            decodeType?_essence type]
      | typeParameter =>
          simp only [WireReflection.essence, WireReflection.decode, Decoder.register_essence,
            decodeType?_essence type, decodeType?_essence default]

theorem decodeReflections_essence (role : Role) (owner : Option Id) :
    ∀ rs, decodeReflections role owner (essenceReflections role rs) =
      decodeReflections role owner rs
  | [] => rfl
  | r :: rs => by
      simp only [essenceReflections, decodeReflections, r.decode_essence role owner,
        decodeReflections_essence role owner rs]

theorem decodeReflections?_essence (role : Role) (owner : Option Id) :
    ∀ rs, decodeReflections? role owner (essenceReflections? role rs) =
      decodeReflections? role owner rs
  | none => rfl
  | some [] => rfl
  | some (r :: rs) => decodeReflections_essence role owner (r :: rs)

theorem decodeReflection?_essence (role : Role) (owner : Option Id) :
    ∀ r, decodeReflection? role owner (essenceReflection? role r) = decodeReflection? role owner r
  | none => rfl
  | some r => by simp only [essenceReflection?, decodeReflection?, r.decode_essence role owner]
end

/-! ### Whole documents -/

namespace WireReflection

/-- A document is decoded like its essence, with the same members left out on the way. -/
theorem decodeProject_rootEssence (root : WireReflection) :
    root.rootEssence.decodeProject = root.decodeProject := by
  obtain ⟨header, children, _, _, _, _, _, _, _, _, _, _, _, _, categories, _⟩ := root
  simp only [decodeProject, rootEssence, decodeRoot, WireReflection.header,
    decodeReflections?_essence .declaration none children, Decoder.categories_essence]

end WireReflection

/-- **Decoding depends on the essence only.** Two documents that differ in nothing but what their places
have no use for are both refused, for the same reason, or both decoded, to the same project: also if
what one of them holds there would be refused itself, or has ids that are registered elsewhere. -/
theorem ofWire_eq_of_sameEssence (root root' : WireReflection) (same : root.SameEssence root') :
    Project.ofWire root = Project.ofWire root' := by
  have decoded : root.decodeProject = root'.decodeProject := by
    rw [← root.decodeProject_rootEssence, ← root'.decodeProject_rootEssence, same]
  unfold Project.ofWire
  rw [decoded]

/-- A document of one variable, whose type is a reference to the variable itself. -/
def plainDocument : WireReflection :=
  .mk { id := 0, name := "library", kind := 0 }
    (some [.mk { id := 1, name := "setting", kind := 0x20 } none none none none none none none
      (some (.reference (some 1) none "Setting" none none)) none none none none none none false])
    none none none none none none none none none none none none none false

/-- The document with everything that there is no use for: empty collections, half a name, and below the
variable a parameter with the variable's id and a kind that there is not. -/
def noisyDocument : WireReflection :=
  let parameter := WireReflection.ofHeader { id := 1, name := "setting", kind := 3 }
  .mk { id := 7, name := "library", kind := 0, kindString := some "Library", flags.isConst := true }
    (some [.mk { id := 1, name := "setting", kind := 0x20, kindString := some "Constant" } (some [])
      none none none none (some []) (some [parameter])
      (some (.reference (some 1) (some []) "Setting" (some "settings.Setting") none))
      (some (.query (.tuple none))) none none none none (some []) false])
    (some [parameter]) none none none none none (some (.reflection parameter)) none none none none none
    (some []) true

/-- Both are the same project. -/
theorem ofWire_noisyDocument : plainDocument.SameEssence noisyDocument ∧
    Project.ofWire noisyDocument = Project.ofWire plainDocument ∧
    ∃ p, Project.ofWire noisyDocument = .ok p := by
  have same : plainDocument.SameEssence noisyDocument := rfl
  have decoded := ofWire_eq_of_sameEssence plainDocument noisyDocument same
  exact ⟨same, decoded.symm, plainDocument.project, decoded.symm⟩

end ApiGraph
