import ApiGraph.BigInt
import ApiGraph.Json.Writer
import ApiGraph.Number.EcmaScript

/-!
# ApiGraph.Literal

The values of literal types, and how they are written in source syntax.
-/

namespace ApiGraph

/-- The value of a literal type. -/
inductive Literal
  | null
  | bool (value : Bool)
  | number (value : Binary64)
  | string (value : String)
  | bigInt (value : BigInt)
deriving DecidableEq, Inhabited, Repr

namespace Literal

/-- Equality of values: numbers are compared as numbers. -/
def same : Literal → Literal → Bool
  | .null, .null => true
  | .bool a, .bool b => a == b
  | .number x, .number y => x.same y
  | .string s, .string t => s == t
  | .bigInt m, .bigInt n => m == n
  | _, _ => false

/-- The literal `true`. -/
def isTrue (l : Literal) : Bool := l == .bool true

/-- The literal `false`. -/
def isFalse (l : Literal) : Bool := l == .bool false

/-- Numbers in source syntax: one zero for both zeros, and the greater of two equally near decimals. -/
def style : NumberStyle where
  -- the shortest digits of a double always have a layout (`Binary64.fits_shortest`)
  layout s := (EcmaScript.layout? s.text).getD []
  tie := .up
  zero _ := ['0']

/-- The source syntax of a literal. A number that is not finite has none and is written as null. -/
def chars : Literal → List Char
  | .null => ['n', 'u', 'l', 'l']
  | .bool true => ['t', 'r', 'u', 'e']
  | .bool false => ['f', 'a', 'l', 's', 'e']
  | .number x => if x.isFinite then style.render x else ['n', 'u', 'l', 'l']
  | .string s => Json.quoted s
  | .bigInt n => n.chars ++ ['n']

/-- The source syntax of a literal, as a string. -/
def text (l : Literal) : String :=
  String.ofList l.chars

end Literal

end ApiGraph
