import ApiGraph.Project.Basic

/-!
# ApiGraph.TypeExpr.Render

Type expressions in source syntax. A part is put between parentheses where it holds together less
tightly than its place asks for. References appear under the name of the reflection they resolve
to, and a declaration named by a reflection type appears as `Function` or `Object`.
-/

namespace ApiGraph.TypeExpr

/-- The text of a part, between parentheses if `power` asks for more than the part has. -/
def enclose (power : Int) (part : TypeExpr) (text : List Char) : List Char :=
  if part.bindingPower < power then '(' :: (text ++ [')']) else text

/-- How a mapped type begins. -/
def readonlyText : Option Modifier → List Char
  | some .add => "readonly ".toList
  | some .remove => "-readonly ".toList
  | none => []

/-- How the key of a mapped type ends. -/
def optionalText : Option Modifier → List Char
  | some .add => ['?']
  | some .remove => ['-', '?']
  | none => []

/-- A name followed by type arguments, if there are any. -/
def withArguments (name : String) (arguments : List (List Char)) : List Char :=
  name.toList ++
    if arguments.isEmpty then [] else '<' :: (Text.join [',', ' '] arguments ++ ['>'])

/-- The quote around template literals. -/
def backquote : Char := Char.ofNat 96

mutual
/-- The source syntax of a type expression. -/
def chars (p : Project) : TypeExpr → List Char
  | .array element => enclose Form.array.bindingPower element (chars p element) ++ ['[', ']']
  | .conditional check bound whenTrue whenFalse =>
    enclose Form.checkPower check (chars p check) ++ " extends ".toList ++ chars p bound ++
      " ? ".toList ++ chars p whenTrue ++ " : ".toList ++ chars p whenFalse
  | .indexedAccess object index => chars p object ++ '[' :: (chars p index ++ [']'])
  | .inferred name => "infer ".toList ++ name.toList
  | .intersection members =>
    Text.join " & ".toList (parts p Form.intersection.bindingPower members)
  | .intrinsic name => name.toList
  | .literal value => value.chars
  | .mapped parameter parameterType template readonlyModifier optionalModifier nameType =>
    '{' :: ' ' :: (readonlyText readonlyModifier ++ '[' :: (parameter.toList ++ " in ".toList ++
      chars p parameterType ++ optionChars p " as ".toList nameType ++ ']' ::
      (optionalText optionalModifier ++ ':' :: ' ' :: (chars p template ++ [' ', '}']))))
  | .optional element => enclose Form.optional.bindingPower element (chars p element) ++ ['?']
  | .predicate name asserts target =>
    (if asserts then "asserts ".toList else []) ++ name.toList ++
      optionChars p " is ".toList target
  | .query link arguments =>
    "typeof ".toList ++
      withArguments (p.displayName link) (parts p Form.unknown.bindingPower arguments)
  | .reference link arguments =>
    withArguments (p.displayName link) (parts p Form.unknown.bindingPower arguments)
  | .reflection id => if p.isCallable id then "Function".toList else "Object".toList
  | .rest element => "...".toList ++ enclose Form.rest.bindingPower element (chars p element)
  | .templateLiteral head tail => backquote :: (head.toList ++ spans p tail ++ [backquote])
  | .tuple elements =>
    '[' :: (Text.join [',', ' '] (parts p Form.unknown.bindingPower elements) ++ [']'])
  | .namedTupleMember name isOptional element =>
    name.toList ++ (if isOptional then ['?'] else []) ++ ':' :: ' ' :: chars p element
  | .typeOperator operator target => operator.name.toList ++ ' ' :: chars p target
  | .union members => Text.join " | ".toList (parts p Form.union.bindingPower members)
  | .unknown name => name.toList

/-- The texts of parts in places that ask for `power`. No part has less than an unknown type, so
a place that asks for as little never has parentheses. -/
def parts (p : Project) (power : Int) : List TypeExpr → List (List Char)
  | [] => []
  | t :: ts => enclose power t (chars p t) :: parts p power ts

/-- The text of a part that may be missing, after `lead`. -/
def optionChars (p : Project) (lead : List Char) : Option TypeExpr → List Char
  | none => []
  | some t => lead ++ chars p t

/-- The text of the spans of a template literal. -/
def spans (p : Project) : List (TypeExpr × String) → List Char
  | [] => []
  | (t, text) :: ts => '$' :: '{' :: (chars p t ++ '}' :: (text.toList ++ spans p ts))
end

/-- The source syntax of a type expression. -/
def render (p : Project) (t : TypeExpr) : String :=
  String.ofList (chars p t)

end ApiGraph.TypeExpr
