import ApiGraph.Json.Record
import ApiGraph.Wire.Schema

/-!
# ApiGraph.Wire.Reader

Reading JSON trees as documents. Reading consumes `room`, the number of arrays and objects that may
still be nested, at each array and object; so a document that nests too deeply is refused, and the
readers end. Inside a type every part must have a value, while the unknown fields of reflections,
flags and categories are not looked at.

* `WireType.ofJson?`, `WireReflection.ofJson?`.
-/

namespace ApiGraph

namespace Wire

/-! ### Flat parts -/

/-- A modifier or operator: a name, or an object with that name as its only key and nothing in
it. -/
def keyword? {α : Type} (read : String → Option α) : Json → Option α
  | .string name => read name
  | .object [(name, .null)] => read name
  | .object [(name, .object [])] => read name
  | _ => none

/-- The modifier with the given sign. -/
def modifier? : Json → Option Modifier :=
  keyword? fun
    | "+" => some .add
    | "-" => some .remove
    | _ => none

/-- The operator with the given keyword. -/
def operator? : Json → Option Operator :=
  keyword? fun
    | "keyof" => some .keyof
    | "unique" => some .unique
    | "readonly" => some .readonly
    | _ => none

/-- The value of a literal. A big integer is an object with its sign and magnitude. -/
def literal? : Json → Option WireLiteral
  | .null => some .null
  | .bool b => some (.bool b)
  | .number n => some (.number n)
  | .string s => some (.string s)
  | .object members => do
    let r ← Record.ofMembers? ["value", "negative"] members
    return .bigInt (← r.required "value" Json.string?) (← r.required "negative" Json.bool?)
  | _ => none

/-- The flags of a reflection, each a boolean that may be missing. -/
def flags? (room : Nat) (json : Json) : Option Flags := do
  if room = 0 then none
  else
    let r ← json.record? Flags.names
    let values ← Flags.names.mapM fun name => r.withDefault name false Json.bool?
    return .ofNames fun name => ((Flags.names.zip values).lookup name).getD false

/-- A list of ids. -/
def ids? : (room : Nat) → Json → Option (List Id)
  | 0, _ => none
  | _ + 1, json => do (← json.items?).mapM Json.id?

/-- A category. -/
def category? : (room : Nat) → Json → Option WireCategory
  | 0, _ => none
  | room + 1, json => do
    let r ← json.record? ["title", "children"]
    return { title := ← r.required "title" Json.string?,
             children := ← r.optional "children" (ids? room) }

/-- A list of categories. -/
def categories? : (room : Nat) → Json → Option (List WireCategory)
  | 0, _ => none
  | room + 1, json => do (← json.items?).mapM (category? room)

/-! ### Types -/

/-- The fields of each form, in their order. -/
def fieldNames : TypeExpr.Form → List String
  | .array | .optional | .rest => ["elementType"]
  | .conditional => ["checkType", "extendsType", "trueType", "falseType"]
  | .indexedAccess => ["indexType", "objectType"]
  | .inferred | .intrinsic | .unknown => ["name"]
  | .intersection | .union => ["types"]
  | .literal => ["value"]
  | .mapped =>
    ["parameter", "parameterType", "templateType", "readonlyModifier", "optionalModifier",
      "nameType"]
  | .predicate => ["name", "asserts", "targetType"]
  | .query => ["queryType"]
  | .reference => ["id", "typeArguments", "name", "qualifiedName", "package"]
  | .reflection => ["declaration"]
  | .templateLiteral => ["head", "tail"]
  | .tuple => ["elements"]
  | .namedTupleMember => ["name", "isOptional", "element"]
  | .typeOperator => ["target", "operator"]

/-- The form that a discriminator names. Below the outermost type the position of the form in the
list of forms names it too. -/
def form? (inner : Bool) : Json → Option TypeExpr.Form
  | .string name => TypeExpr.Form.ofName? name
  | .number (.integer n) => if inner ∧ 0 ≤ n then TypeExpr.Form.all[n.toNat]? else none
  | _ => none

/-- The form of a type and the record of its fields. In an array the discriminator comes first. -/
def tagged? (inner : Bool) : Json → Option (TypeExpr.Form × Record)
  | .object members => do
    if Record.repeats ["type"] members then none
    else
      let form ← form? inner (← members.lookup "type")
      return (form, ← Record.ofMembers? (fieldNames form) members)
  | .array (tag :: items) => do
    let form ← form? inner tag
    return (form, ← Record.ofItems? (fieldNames form) items)
  | _ => none

/-- A pair of a type and a text. -/
def span? (type : Json → Option WireType) : Json → Option (WireType × String)
  | .array [json, .string text] => (type json).map (·, text)
  | _ => none

/-- A list of types. -/
def types? (type : Json → Option WireType) (json : Json) : Option (List WireType) := do
  (← json.items?).mapM type

/-- A list of spans. -/
def spans? (type : Json → Option WireType) (json : Json) : Option (List (WireType × String)) := do
  (← json.items?).mapM (span? type)

/-- A type of the given form from its fields, given how the types and reflections in it are read. -/
def readFields (type : Json → Option WireType) (reflection : Json → Option WireReflection)
    (r : Record) : TypeExpr.Form → Option WireType
  | .array => return .array (← r.required "elementType" type)
  | .conditional =>
    return .conditional (← r.required "checkType" type) (← r.required "extendsType" type)
      (← r.required "trueType" type) (← r.required "falseType" type)
  | .indexedAccess =>
    return .indexedAccess (← r.required "indexType" type) (← r.required "objectType" type)
  | .inferred => return .inferred (← r.required "name" Json.string?)
  | .intersection => return .intersection (← r.required "types" (types? type))
  | .intrinsic => return .intrinsic (← r.required "name" Json.string?)
  | .literal => return .literal (← r.required "value" literal?)
  | .mapped =>
    return .mapped (← r.required "parameter" Json.string?) (← r.required "parameterType" type)
      (← r.required "templateType" type) (← r.optional "readonlyModifier" modifier?)
      (← r.optional "optionalModifier" modifier?) (← r.optional "nameType" type)
  | .optional => return .optional (← r.required "elementType" type)
  | .predicate =>
    return .predicate (← r.required "name" Json.string?) (← r.required "asserts" Json.bool?)
      (← r.optional "targetType" type)
  | .query => return .query (← r.required "queryType" type)
  | .reference =>
    return .reference (← r.optional "id" Json.id?) (← r.optional "typeArguments" (types? type))
      (← r.required "name" Json.string?) (← r.optional "qualifiedName" Json.string?)
      (← r.optional "package" Json.string?)
  | .reflection => return .reflection (← r.required "declaration" reflection)
  | .rest => return .rest (← r.required "elementType" type)
  | .templateLiteral =>
    return .templateLiteral (← r.required "head" Json.string?)
      (← r.required "tail" (spans? type))
  | .tuple => return .tuple (← r.optional "elements" (types? type))
  | .namedTupleMember =>
    return .namedTupleMember (← r.required "name" Json.string?)
      (← r.required "isOptional" Json.bool?) (← r.required "element" type)
  | .typeOperator =>
    return .typeOperator (← r.required "target" type) (← r.required "operator" operator?)
  | .union => return .union (← r.required "types" (types? type))
  | .unknown => return .unknown (← r.required "name" Json.string?)

/-! ### Reflections -/

/-- The fields of reflections, in their order. -/
def reflectionFields : List String :=
  ["id", "name", "kind", "kindString", "flags", "children", "signatures", "indexSignature",
    "getSignature", "setSignature", "typeParameter", "parameters", "type", "default",
    "defaultValue", "overwrites", "inheritedFrom", "implementationOf", "categories",
    "hasOwnDocument"]

/-- What a reflection begins with. -/
def header? (room : Nat) (r : Record) : Option WireHeader := do
  return { id := ← r.required "id" Json.id?
           name := ← r.required "name" Json.string?
           kind := ← r.required "kind" Json.bits?
           kindString := ← r.optional "kindString" Json.string?
           flags := ← r.withDefault "flags" {} (flags? room) }

mutual
/-- A type in a tree whose parts all have values and that nests no deeper than `room`; `inner`
tells whether it lies inside another type. -/
def readType : (room : Nat) → (inner : Bool) → Json → Option WireType
  | 0, _, _ => none
  | room + 1, inner, json => do
    let (form, r) ← tagged? inner json
    readFields (readType room true) (readReflection room true) r form

/-- A reflection; `inner` tells whether it lies inside a type. -/
def readReflection : (room : Nat) → (inner : Bool) → Json → Option WireReflection
  | 0, _, _ => none
  | room + 1, inner, json => do
    let r ← json.record? reflectionFields
    let header ← header? room r
    let reflection := readReflection room inner
    let reflections := readReflections room inner
    let type (json : Json) : Option WireType :=
      if json.fits room then readType room inner json else none
    return .mk header (← r.optional "children" reflections) (← r.optional "signatures" reflections)
      (← r.optional "indexSignature" reflection) (← r.optional "getSignature" reflection)
      (← r.optional "setSignature" reflection) (← r.optional "typeParameter" reflections)
      (← r.optional "parameters" reflections) (← r.optional "type" type)
      (← r.optional "default" type) (← r.optional "defaultValue" Json.string?)
      (← r.optional "overwrites" type) (← r.optional "inheritedFrom" type)
      (← r.optional "implementationOf" type) (← r.optional "categories" (categories? room))
      (← r.withDefault "hasOwnDocument" false Json.bool?)

/-- A list of reflections. -/
def readReflections : (room : Nat) → (inner : Bool) → Json → Option (List WireReflection)
  | 0, _, _ => none
  | room + 1, inner, json => do (← json.items?).mapM (readReflection room inner)
end

end Wire

/-- The type that a JSON tree stands for, if it nests at most `room` arrays and objects. -/
def WireType.ofJson? (room : Nat) (json : Json) : Option WireType :=
  if json.fits room then Wire.readType room false json else none

/-- The reflection that a JSON tree stands for, if it nests at most `room` arrays and objects. -/
def WireReflection.ofJson? (room : Nat) (json : Json) : Option WireReflection :=
  Wire.readReflection room false json

end ApiGraph
