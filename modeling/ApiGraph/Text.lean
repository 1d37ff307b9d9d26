/-!
# ApiGraph.Text

Looking for a piece of text, on lists of characters.

* `after?` — what follows a word at the front.
* `afterFirst?` — what follows the first occurrence of a word.
* `findByte?`, `fromByte?` — the same in two steps, by way of an offset in bytes.
-/

namespace ApiGraph.Text

/-- What follows `word`, if the text starts with it. -/
def after? : (word : List Char) → List Char → Option (List Char)
  | [], cs => some cs
  | w :: word, c :: cs => if w = c then after? word cs else none
  | _ :: _, [] => none

/-- What follows the first occurrence of `word`. -/
def afterFirst? (word : List Char) : List Char → Option (List Char)
  | [] => after? word []
  | c :: cs =>
    match after? word (c :: cs) with
    | some rest => some rest
    | none => afterFirst? word cs

/-- The offset in UTF-8 of the first occurrence of `word`. -/
def findByte? (word : List Char) : List Char → Option Nat
  | [] => (after? word []).map fun _ => 0
  | c :: cs =>
    match after? word (c :: cs) with
    | some _ => some 0
    | none => (findByte? word cs).map (c.utf8Size + ·)

/-- What follows the first `offset` bytes of a text in UTF-8, unless they end inside a character or there
are not as many. -/
def fromByte? : (offset : Nat) → List Char → Option (List Char)
  | 0, cs => some cs
  | _ + 1, [] => none
  | offset + 1, c :: cs =>
    if c.utf8Size ≤ offset + 1 then fromByte? (offset + 1 - c.utf8Size) cs else none

/-- The texts joined, with `separator` between two of them. -/
def join (separator : List Char) : List (List Char) → List Char
  | [] => []
  | [text] => text
  | text :: rest => text ++ separator ++ join separator rest

end ApiGraph.Text
