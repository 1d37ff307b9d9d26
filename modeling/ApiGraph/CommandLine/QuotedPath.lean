import ApiGraph.Text.Extending
import ApiGraph.Text.Hidden
import ApiGraph.Text.Ignorable

/-!
# ApiGraph.CommandLine.QuotedPath

Paths between double quotes, as messages and the log show them. A character that could not be seen
on its own is written by its number, so two paths that differ look different.
-/

namespace ApiGraph.CommandLine

/-- A code point by its number, in hexadecimal digits between braces. -/
def numbered (c : Char) : List Char :=
  ['\\', 'u', '\x7b'] ++ Nat.toDigits 16 c.toNat ++ ['\x7d']

/-- Whether a character could not be seen on its own. -/
def isUnseen (c : Char) : Bool :=
  Text.isExtending c || Text.isHidden c || Text.isIgnorable c

/-- A character of a path between quotes. -/
def pathEscape (c : Char) : List Char :=
  if c = '"' ∨ c = '\\' then ['\\', c]
  else if c.toNat = 0 then ['\\', '0']
  else if c = '\n' then ['\\', 'n']
  else if c = '\r' then ['\\', 'r']
  else if c = '\t' then ['\\', 't']
  else if isUnseen c then numbered c
  else [c]

/-- A path between quotes. -/
def quotedPath (path : String) : String :=
  String.ofList ('"' :: (path.toList.flatMap pathEscape ++ ['"']))

end ApiGraph.CommandLine
