import ApiGraph.Wire.Schema

/-!
# ApiGraph.Wire.Layout

Documents as JSON: the names and order of the fields, and which fields are left out. A field is
left out when its part is missing, when no flag is set, and when `hasOwnDocument` is false; the
discriminator `type` stands first in a type.

* `WireType.toJson`, `WireReflection.toJson` — the JSON tree.
-/

namespace ApiGraph

namespace Wire

/-- The fields that are present. -/
def present (fields : List (String × Option Json)) : Json :=
  .object (fields.filterMap fun (name, value) => value.map (name, ·))

/-- A field that is always there. -/
def field (name : String) (value : Json) : String × Option Json :=
  (name, some value)

/-- An id as a number. -/
def idJson (id : Id) : Json :=
  .number (.integer id)

/-- The set flags, if there are any. -/
def flagsJson? (flags : Flags) : Option Json :=
  if flags.isEmpty then none
  else some (.object (flags.set.map fun name => (name, .bool true)))

/-- A category. -/
def categoryJson (c : WireCategory) : Json :=
  present [field "title" (.string c.title),
    ("children", c.children.map fun ids => .array (ids.map idJson))]

/-- The value of a literal. -/
def literalJson : WireLiteral → Json
  | .null => .null
  | .bool b => .bool b
  | .number n => .number n
  | .string s => .string s
  | .bigInt magnitude negative =>
    .object [("value", .string magnitude), ("negative", .bool negative)]

/-- A type: its discriminator, then its fields. -/
def typed (form : TypeExpr.Form) (fields : List (String × Option Json)) : Json :=
  present (field "type" (.string form.name) :: fields)

/-- The sign of a modifier. -/
def modifierJson (m : Modifier) : Json :=
  .string m.sign

end Wire

open Wire

mutual
/-- The JSON tree of a type. -/
def WireType.toJson : WireType → Json
  | .array elementType => typed .array [field "elementType" elementType.toJson]
  | .conditional checkType extendsType trueType falseType =>
    typed .conditional [field "checkType" checkType.toJson,
      field "extendsType" extendsType.toJson, field "trueType" trueType.toJson,
      field "falseType" falseType.toJson]
  | .indexedAccess indexType objectType =>
    typed .indexedAccess [field "indexType" indexType.toJson,
      field "objectType" objectType.toJson]
  | .inferred name => typed .inferred [field "name" (.string name)]
  | .intersection types => typed .intersection [field "types" (.array (typesJson types))]
  | .intrinsic name => typed .intrinsic [field "name" (.string name)]
  | .literal value => typed .literal [field "value" (literalJson value)]
  | .mapped parameter parameterType templateType readonlyModifier optionalModifier nameType =>
    typed .mapped [field "parameter" (.string parameter),
      field "parameterType" parameterType.toJson, field "templateType" templateType.toJson,
      ("readonlyModifier", readonlyModifier.map modifierJson),
      ("optionalModifier", optionalModifier.map modifierJson),
      ("nameType", typeJson? nameType)]
  | .optional elementType => typed .optional [field "elementType" elementType.toJson]
  | .predicate name asserts targetType =>
    typed .predicate [field "name" (.string name), field "asserts" (.bool asserts),
      ("targetType", typeJson? targetType)]
  | .query queryType => typed .query [field "queryType" queryType.toJson]
  | .reference id typeArguments name qualifiedName package =>
    typed .reference [("id", id.map idJson), ("typeArguments", typesJson? typeArguments),
      field "name" (.string name), ("qualifiedName", qualifiedName.map .string),
      ("package", package.map .string)]
  | .reflection declaration => typed .reflection [field "declaration" declaration.toJson]
  | .rest elementType => typed .rest [field "elementType" elementType.toJson]
  | .templateLiteral head tail =>
    typed .templateLiteral [field "head" (.string head), field "tail" (.array (spansJson tail))]
  | .tuple elements => typed .tuple [("elements", typesJson? elements)]
  | .namedTupleMember name isOptional element =>
    typed .namedTupleMember [field "name" (.string name), field "isOptional" (.bool isOptional),
      field "element" element.toJson]
  | .typeOperator target operator =>
    typed .typeOperator [field "target" target.toJson, field "operator" (.string operator.name)]
  | .union types => typed .union [field "types" (.array (typesJson types))]
  | .unknown name => typed .unknown [field "name" (.string name)]

/-- The JSON trees of types. -/
def typesJson : List WireType → List Json
  | [] => []
  | t :: ts => t.toJson :: typesJson ts

/-- The JSON tree of types that may be missing. -/
def typesJson? : Option (List WireType) → Option Json
  | none => none
  | some types => some (.array (typesJson types))

/-- The JSON tree of a type that may be missing. -/
def typeJson? : Option WireType → Option Json
  | none => none
  | some t => some t.toJson

/-- The spans of a template literal, each a pair. -/
def spansJson : List (WireType × String) → List Json
  | [] => []
  | (t, text) :: spans => .array [t.toJson, .string text] :: spansJson spans

/-- The JSON tree of a reflection. -/
def WireReflection.toJson : WireReflection → Json
  | .mk header children signatures indexSignature getSignature setSignature typeParameters
      parameters type default defaultValue overwrites inheritedFrom implementationOf categories
      hasOwnDocument =>
    present [field "id" (idJson header.id), field "name" (.string header.name),
      field "kind" (.number (.integer header.kind)),
      ("kindString", header.kindString.map .string), ("flags", flagsJson? header.flags),
      ("children", reflectionsJson? children), ("signatures", reflectionsJson? signatures),
      ("indexSignature", reflectionJson? indexSignature),
      ("getSignature", reflectionJson? getSignature),
      ("setSignature", reflectionJson? setSignature),
      ("typeParameter", reflectionsJson? typeParameters),
      ("parameters", reflectionsJson? parameters),
      ("type", typeJson? type), ("default", typeJson? default),
      ("defaultValue", defaultValue.map .string),
      ("overwrites", typeJson? overwrites), ("inheritedFrom", typeJson? inheritedFrom),
      ("implementationOf", typeJson? implementationOf),
      ("categories", categories.map fun cs => .array (cs.map categoryJson)),
      ("hasOwnDocument", if hasOwnDocument then some (.bool true) else none)]

/-- The JSON trees of reflections. -/
def reflectionsJson : List WireReflection → List Json
  | [] => []
  | r :: rs => r.toJson :: reflectionsJson rs

/-- The JSON tree of reflections that may be missing. -/
def reflectionsJson? : Option (List WireReflection) → Option Json
  | none => none
  | some rs => some (.array (reflectionsJson rs))

/-- The JSON tree of a reflection that may be missing. -/
def reflectionJson? : Option WireReflection → Option Json
  | none => none
  | some r => some r.toJson
end

end ApiGraph
