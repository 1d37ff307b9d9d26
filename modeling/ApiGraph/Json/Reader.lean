import ApiGraph.Json.Numeral
import ApiGraph.Json.Quoted
import ApiGraph.Text

/-!
# ApiGraph.Json.Reader

Reading JSON text. `Json.ofText?` accepts exactly one value between blanks; what has the right form
and yet no value becomes `Json.valueless`. `Json.parse?` is strict on top of that: every part has a
value, and fewer than 128 arrays and objects are nested.
-/

namespace ApiGraph.Json

/-- The blanks between tokens. -/
def isBlank (c : Char) : Bool :=
  c == ' ' || c == '\n' || c == '\t' || c == '\r'

/-- Drops the blanks at the front. -/
def skipBlanks (cs : List Char) : List Char :=
  cs.dropWhile isBlank

/-- The string whose opening quote has been read: `none` inside if it has no value. -/
def readString? (cs : List Char) : Option (Option String × List Char) := do
  let (pieces, rest) ← Quoted.scanBody cs
  return ((Quoted.joinUnits pieces).map String.ofList, rest)

/-- A member whose key has a value. -/
def namedMember? (member : Option String × Json) : Option (String × Json) :=
  member.1.map (·, member.2)

mutual
/-- Reads the value at the front of a text. `fuel` bounds the number of nested steps; the length of
the text is enough. -/
def readValue : (fuel : Nat) → List Char → Option (Json × List Char)
  | 0, _ => none
  | fuel + 1, cs =>
    match skipBlanks cs with
    | '"' :: rest => do
      let (text, rest) ← readString? rest
      return (text.elim .valueless .string, rest)
    | '[' :: rest =>
      match skipBlanks rest with
      | ']' :: rest => some (.array [], rest)
      | _ => do
        let (items, rest) ← readItems fuel rest
        return (.array items, rest)
    | '{' :: rest =>
      match skipBlanks rest with
      | '}' :: rest => some (.object [], rest)
      | _ => do
        let (members, rest) ← readMembers fuel rest
        -- An object with a key that has no value has none either.
        return ((members.mapM namedMember?).elim .valueless .object, rest)
    | 'n' :: rest => (Text.after? ['u', 'l', 'l'] rest).map (.null, ·)
    | 't' :: rest => (Text.after? ['r', 'u', 'e'] rest).map (.bool true, ·)
    | 'f' :: rest => (Text.after? ['a', 'l', 's', 'e'] rest).map (.bool false, ·)
    | cs => do
      let (text, rest) ← NumeralText.scan? cs
      return (text.value?.elim .valueless .number, rest)

/-- Reads items up to the closing bracket. -/
def readItems : (fuel : Nat) → List Char → Option (List Json × List Char)
  | 0, _ => none
  | fuel + 1, cs => do
    let (item, rest) ← readValue fuel cs
    match skipBlanks rest with
    | ',' :: rest =>
      let (items, rest) ← readItems fuel rest
      return (item :: items, rest)
    | ']' :: rest => return ([item], rest)
    | _ => none

/-- Reads members up to the closing brace; a key is `none` if it has no value. -/
def readMembers : (fuel : Nat) → List Char → Option (List (Option String × Json) × List Char)
  | 0, _ => none
  | fuel + 1, cs =>
    match skipBlanks cs with
    | '"' :: rest => do
      let (key, rest) ← readString? rest
      match skipBlanks rest with
      | ':' :: rest =>
        let (value, rest) ← readValue fuel rest
        match skipBlanks rest with
        | ',' :: rest =>
          let (members, rest) ← readMembers fuel rest
          return ((key, value) :: members, rest)
        | '}' :: rest => return ([(key, value)], rest)
        | _ => none
      | _ => none
    | _ => none
end

/-- The one value that a text holds between blanks. -/
def ofText? (text : String) : Option Json := do
  let cs := text.toList
  let (json, rest) ← readValue (cs.length + 1) cs
  if (skipBlanks rest).isEmpty then some json else none

/-- How many arrays and objects a document may nest. -/
def maxDepth : Nat := 127

/-- The value of a text in which every part has a value and nesting is bounded; of a key that is
given twice the last member counts. -/
def parse? (text : String) : Option Json := do
  let json ← ofText? text
  if json.fits maxDepth then some json.lastWins else none

end ApiGraph.Json
