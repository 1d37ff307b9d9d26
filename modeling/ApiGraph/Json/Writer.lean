import ApiGraph.Json.Numeral
import ApiGraph.Json.Quoted

/-!
# ApiGraph.Json.Writer

Writing JSON text: `Json.compact` without any blanks, `Json.pretty` with one item or member to a
line and two more blanks of indentation for each level. Empty arrays and objects stay on one line.
-/

namespace ApiGraph.Json

/-- A string between quotes, as text. -/
def quoted (s : String) : List Char :=
  Quoted.quote s.toList

mutual
/-- The text of a value without blanks. -/
def compactChars : Json → List Char
  | .null => ['n', 'u', 'l', 'l']
  | .bool true => ['t', 'r', 'u', 'e']
  | .bool false => ['f', 'a', 'l', 's', 'e']
  | .number n => n.text
  | .string s => quoted s
  | .array items => '[' :: compactItems items
  | .object members => '{' :: compactMembers members
  | .valueless => ['n', 'u', 'l', 'l']

/-- The items and the closing bracket. -/
def compactItems : List Json → List Char
  | [] => [']']
  | [item] => compactChars item ++ [']']
  | item :: rest => compactChars item ++ ',' :: compactItems rest

/-- The members and the closing brace. -/
def compactMembers : List (String × Json) → List Char
  | [] => ['}']
  | [(key, value)] => quoted key ++ ':' :: (compactChars value ++ ['}'])
  | (key, value) :: rest => quoted key ++ ':' :: (compactChars value ++ ',' :: compactMembers rest)
end

/-- A new line indented by `level` levels. -/
def newLine (level : Nat) : List Char :=
  '\n' :: List.replicate (2 * level) ' '

mutual
/-- The text of a value that stands at `level`, spread over lines. -/
def prettyChars (level : Nat) : Json → List Char
  | .array [] => ['[', ']']
  | .array (item :: rest) =>
    '[' :: (newLine (level + 1) ++ prettyChars (level + 1) item ++ prettyItems level rest)
  | .object [] => ['{', '}']
  | .object ((key, value) :: rest) =>
    '{' :: (newLine (level + 1) ++ quoted key ++ ':' :: ' ' :: prettyChars (level + 1) value ++
      prettyMembers level rest)
  | .null => ['n', 'u', 'l', 'l']
  | .bool true => ['t', 'r', 'u', 'e']
  | .bool false => ['f', 'a', 'l', 's', 'e']
  | .number n => n.text
  | .string s => quoted s
  | .valueless => ['n', 'u', 'l', 'l']

/-- The items after the first one, and the closing bracket. -/
def prettyItems (level : Nat) : List Json → List Char
  | [] => newLine level ++ [']']
  | item :: rest =>
    ',' :: (newLine (level + 1) ++ prettyChars (level + 1) item ++ prettyItems level rest)

/-- The members after the first one, and the closing brace. -/
def prettyMembers (level : Nat) : List (String × Json) → List Char
  | [] => newLine level ++ ['}']
  | (key, value) :: rest =>
    ',' :: (newLine (level + 1) ++ quoted key ++ ':' :: ' ' :: prettyChars (level + 1) value ++
      prettyMembers level rest)
end

/-- The text of a value without blanks. -/
def compact (json : Json) : String :=
  String.ofList json.compactChars

/-- The text of a value, one item or member to a line. -/
def pretty (json : Json) : String :=
  String.ofList (json.prettyChars 0)

end ApiGraph.Json
