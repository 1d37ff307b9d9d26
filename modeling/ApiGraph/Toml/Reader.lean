import ApiGraph.Json.Quoted
import ApiGraph.Toml.Scalar

/-!
# ApiGraph.Toml.Reader

Reading TOML documents line by line into statements, and from there into tables.

* `Toml.parse?` — the top-level table of a document.
-/

namespace ApiGraph.Toml

/-! ### Characters -/

/-- The blanks within a line. -/
def isBlank (c : Char) : Bool :=
  c == ' ' || c == '\t'

/-- Drops the blanks at the front. -/
def skipBlanks (cs : List Char) : List Char :=
  cs.dropWhile isBlank

/-- Whether a character may stand in a comment or string: a tab, or no control character. -/
def isPlain (c : Char) : Bool :=
  c == '\t' || (32 ≤ c.toNat && c.toNat != 127)

/-- What follows a line break at the front. -/
def lineBreak? : List Char → Option (List Char)
  | '\n' :: rest => some rest
  | '\r' :: '\n' :: rest => some rest
  | _ => none

/-- Skips a comment at the front, up to the line break. -/
def skipComment? (cs : List Char) : Option (List Char) :=
  match cs with
  | '#' :: rest =>
    match rest.dropWhile isPlain with
    | [] => some []
    | rest => (lineBreak? rest).map fun _ => rest
  | cs => some cs

/-- What follows the end of a line: blanks, a comment and a line break, or the end of the text. -/
def lineEnd? (cs : List Char) : Option (List Char) := do
  match ← skipComment? (skipBlanks cs) with
  | [] => some []
  | rest => lineBreak? rest

/-- Skips blanks, comments and line breaks. -/
def skipLines? : (fuel : Nat) → List Char → Option (List Char)
  | 0, _ => none
  | fuel + 1, cs => do
    let rest ← skipComment? (skipBlanks cs)
    match lineBreak? rest with
    | some rest => skipLines? fuel rest
    | none => some rest

/-! ### Strings -/

/-- The character that hexadecimal digits denote, if it is one. -/
def codePoint? (cs : List Char) : Option Char := do
  let digits ← cs.mapM Json.Quoted.hexDigit?
  let n := digits.foldl (fun n d => n * 16 + d) 0
  if n.isValidChar then some (Char.ofNat n) else none

/-- Reads an escape whose backslash has been read. -/
def escape? : List Char → Option (Char × List Char)
  | 'u' :: rest => do
    if rest.length < 4 then none
    else return (← codePoint? (rest.take 4), rest.drop 4)
  | 'U' :: rest => do
    if rest.length < 8 then none
    else return (← codePoint? (rest.take 8), rest.drop 8)
  | '/' :: _ => none
  | c :: rest => do return (← Json.Quoted.shortEscape? c, rest)
  | [] => none

/-- Reads a string in double quotes whose opening quote has been read. -/
def basic? : (fuel : Nat) → List Char → Option (List Char × List Char)
  | 0, _ => none
  | fuel + 1, cs =>
    match cs with
    | '"' :: rest => some ([], rest)
    | '\\' :: rest => do
      let (c, rest) ← escape? rest
      let (text, rest) ← basic? fuel rest
      return (c :: text, rest)
    | c :: rest =>
      if isPlain c then do
        let (text, rest) ← basic? fuel rest
        return (c :: text, rest)
      else none
    | [] => none

/-- Drops blanks and line breaks. -/
def skipWhite : List Char → List Char
  | '\r' :: '\n' :: rest => skipWhite rest
  | c :: rest => if isBlank c || c == '\n' then skipWhite rest else c :: rest
  | [] => []

/-- Reads a string in three double quotes whose opening quotes have been read. A backslash at the
end of a line joins it to the next text. Up to two quotes may stand before the closing ones. -/
def basicLines? : (fuel : Nat) → List Char → Option (List Char × List Char)
  | 0, _ => none
  | fuel + 1, cs =>
    match cs with
    | '"' :: '"' :: '"' :: '"' :: '"' :: rest => some (['"', '"'], rest)
    | '"' :: '"' :: '"' :: '"' :: rest => some (['"'], rest)
    | '"' :: '"' :: '"' :: rest => some ([], rest)
    | '\\' :: rest =>
      match lineBreak? (skipBlanks rest) with
      | some rest => basicLines? fuel (skipWhite rest)
      | none => do
        let (c, rest) ← escape? rest
        let (text, rest) ← basicLines? fuel rest
        return (c :: text, rest)
    | '\r' :: '\n' :: rest => do
      let (text, rest) ← basicLines? fuel rest
      return ('\n' :: text, rest)
    | c :: rest =>
      if isPlain c || c == '\n' then do
        let (text, rest) ← basicLines? fuel rest
        return (c :: text, rest)
      else none
    | [] => none

/-- The single quote, which encloses literal strings. -/
def single : Char := Char.ofNat 39

/-- Reads a string in single quotes whose opening quote has been read. -/
def literal? : List Char → Option (List Char × List Char)
  | [] => none
  | c :: rest =>
    if c = single then some ([], rest)
    else if isPlain c then do
      let (text, rest) ← literal? rest
      return (c :: text, rest)
    else none

/-- How many single quotes a text starts with. -/
def singles (cs : List Char) : Nat :=
  (cs.takeWhile (· == single)).length

/-- Reads a string in three single quotes whose opening quotes have been read. -/
def literalLines? : (fuel : Nat) → List Char → Option (List Char × List Char)
  | 0, _ => none
  | fuel + 1, cs =>
    let quotes := singles cs
    if 3 ≤ quotes then
      some (List.replicate (min quotes 5 - 3) single, cs.drop (min quotes 5))
    else
      match cs with
      | '\r' :: '\n' :: rest => do
        let (text, rest) ← literalLines? fuel rest
        return ('\n' :: text, rest)
      | c :: rest =>
        if isPlain c || c == '\n' then do
          let (text, rest) ← literalLines? fuel rest
          return (c :: text, rest)
        else none
      | [] => none

/-- Drops the line break right after the opening quotes of a string over several lines. -/
def dropBreak (cs : List Char) : List Char :=
  (lineBreak? cs).getD cs

/-- Reads a string of any kind; `none` if the text starts with no quote. -/
def string? (cs : List Char) : Option (List Char × List Char) :=
  let fuel := cs.length + 1
  match cs with
  | '"' :: '"' :: '"' :: rest => basicLines? fuel (dropBreak rest)
  | '"' :: rest => basic? fuel rest
  | cs =>
    if 3 ≤ singles cs then literalLines? fuel (dropBreak (cs.drop 3))
    else if 1 ≤ singles cs then literal? (cs.drop 1)
    else none

/-! ### Keys -/

/-- Whether a character may stand in a key without quotes. -/
def isBare (c : Char) : Bool :=
  c.isAlphanum || c == '_' || c == '-'

/-- Reads one part of a key. -/
def simpleKey? (cs : List Char) : Option (String × List Char) := do
  match cs with
  | '"' :: rest =>
    let (text, rest) ← basic? (cs.length + 1) rest
    return (String.ofList text, rest)
  | c :: rest =>
    if c = single then do
      let (text, rest) ← literal? rest
      return (String.ofList text, rest)
    else
      let (text, rest) := cut (!isBare ·) cs
      if text.isEmpty then none else return (String.ofList text, rest)
  | [] => none

/-- How many parts a dotted key may have. -/
def maxParts : Nat := 79

/-- Reads a dotted key of at most `parts` parts: those before the last one, and the last one. -/
def key? : (parts : Nat) → List Char → Option ((List String × String) × List Char)
  | 0, _ => none
  | parts + 1, cs => do
    let (part, rest) ← simpleKey? (skipBlanks cs)
    match skipBlanks rest with
    | '.' :: rest =>
      let ((path, key), rest) ← key? parts rest
      return ((part :: path, key), rest)
    | rest => return (([], part), rest)

/-! ### Values -/

/-- Whether a character ends a token. -/
def endsToken (c : Char) : Bool :=
  isBlank c || c == ',' || c == ']' || c == '}' || c == '#' || c == '\n' || c == '\r' || c == '='

/-- Reads a number, truth value or time. A blank may stand between a date and a time. -/
def token? (cs : List Char) : Option (Toml × List Char) := do
  let (token, rest) := cut endsToken cs
  let (token, rest) :=
    match rest with
    | ' ' :: next :: _ =>
      if isDate token && next.isDigit then
        let (clock, after) := cut endsToken (rest.drop 1)
        (token ++ ' ' :: clock, after)
      else (token, rest)
    | _ => (token, rest)
  return (← scalar? token, rest)

/-- How deep arrays and tables may be nested in each other. -/
def maxNesting : Nat := 79

/-- Reads the items of an array up to the closing bracket, given how to read a value. -/
def items? (value? : List Char → Option (Toml × List Char)) :
    (fuel : Nat) → List Char → Option (List Toml × List Char)
  | 0, _ => none
  | fuel + 1, cs => do
    let cs ← skipLines? (cs.length + 1) cs
    match cs with
    | ']' :: rest => return ([], rest)
    | cs =>
      let (item, rest) ← value? cs
      let rest ← skipLines? (rest.length + 1) rest
      match rest with
      | ',' :: rest =>
        let (items, rest) ← items? value? fuel rest
        return (item :: items, rest)
      | ']' :: rest => return ([item], rest)
      | _ => none

/-- Reads a key with its value, given how to read a value. -/
def pair? (value? : List Char → Option (Toml × List Char)) (cs : List Char) :
    Option ((List String × String × Toml) × List Char) := do
  let ((path, key), rest) ← key? maxParts cs
  match rest with
  | '=' :: rest =>
    let (value, rest) ← value? (skipBlanks rest)
    return ((path, key, value), rest)
  | _ => none

/-- Reads the pairs of a table up to the closing brace, given how to read a value. -/
def pairs? (value? : List Char → Option (Toml × List Char)) :
    (fuel : Nat) → List Char → Option (List (List String × String × Toml) × List Char)
  | 0, _ => none
  | fuel + 1, cs => do
    let (pair, rest) ← pair? value? cs
    match skipBlanks rest with
    | ',' :: rest =>
      let (pairs, rest) ← pairs? value? fuel rest
      return (pair :: pairs, rest)
    | '}' :: rest => return ([pair], rest)
    | _ => none

/-- Reads a value in which at most `nesting` arrays and tables are nested. -/
def value? : (nesting : Nat) → List Char → Option (Toml × List Char)
  | nesting, cs =>
    match nesting, cs with
    | nesting + 1, '[' :: rest => do
      let (items, rest) ← items? (value? nesting) (rest.length + 1) rest
      return (.array items, rest)
    | nesting + 1, '{' :: rest =>
      match skipBlanks rest with
      | '}' :: rest => some (.inline [], rest)
      | _ => do
        let (pairs, rest) ← pairs? (value? nesting) (rest.length + 1) rest
        return (← inline? pairs, rest)
    | _, '"' :: _ => do
      let (text, rest) ← string? cs
      return (.string (String.ofList text), rest)
    | _, cs =>
      if 1 ≤ singles cs then do
        let (text, rest) ← string? cs
        return (.string (String.ofList text), rest)
      else token? cs

/-! ### Documents -/

/-- Reads a header up to its closing brackets. -/
def header? (closing : List Char) (cs : List Char) :
    Option ((List String × String) × List Char) := do
  let (name, rest) ← key? maxParts cs
  if rest.take closing.length = closing then return (name, rest.drop closing.length) else none

/-- Reads one statement. -/
def statement? (cs : List Char) : Option (TomlStatement × List Char) := do
  match cs with
  | '[' :: '[' :: rest =>
    let ((path, key), rest) ← header? [']', ']'] rest
    return (.element path key, rest)
  | '[' :: rest =>
    let ((path, key), rest) ← header? [']'] rest
    return (.header path key, rest)
  | cs =>
    let ((path, key, value), rest) ← pair? (value? maxNesting) cs
    return (.pair path key value, rest)

/-- Reads statements, each with the end of its line, up to the end of the text. -/
def statements? : (fuel : Nat) → List Char → Option (List TomlStatement)
  | 0, _ => none
  | fuel + 1, cs => do
    match ← skipLines? (cs.length + 1) cs with
    | [] => return []
    | cs =>
      let (statement, rest) ← statement? cs
      let rest ← lineEnd? rest
      return statement :: (← statements? fuel rest)

/-- The top-level table of a document. A byte order mark at the start does not count. -/
def parse? (text : String) : Option Entries := do
  let cs := text.toList
  let cs := if cs.head? = some (Char.ofNat 0xFEFF) then cs.drop 1 else cs
  document? (← statements? (cs.length + 1) cs)

end ApiGraph.Toml
