import ApiGraph.Number.Binary64

/-!
# ApiGraph.Json.Basic

The values of JSON documents. An object keeps its members in the order of the text, a key that is
given twice included: what that means is for the reader of the object to decide.

* `Numeral` — a number keeps the form it was written in, integer or double.
* `Json.fits` — every part has a value, and nesting is at most the given depth.
* `Json.lastWins` — each object keeps only the last member of each key.
* `Json.same` — equality up to the order of members.
-/

namespace ApiGraph

/-- A JSON number in the form it was written: an integer of at most 64 bits, or a double. -/
inductive Numeral
  | integer (value : Int)
  | double (value : Binary64)
deriving DecidableEq, Inhabited, Repr

/-- Equality within one form: the integer 1 is not the double 1.0. -/
def Numeral.same : Numeral → Numeral → Bool
  | .integer m, .integer n => m == n
  | .double x, .double y => x.same y
  | _, _ => false

/-- A JSON value. -/
inductive Json
  | null
  | bool (value : Bool)
  | number (value : Numeral)
  | string (value : String)
  | array (items : List Json)
  | object (members : List (String × Json))
  /-- A well-formed piece of text that denotes no value: a number beyond every double, or a string
  (or an object with a key) that holds half a surrogate pair. -/
  | valueless
deriving Inhabited

namespace Json

/-- The value of `key`, the last one if it is given more than once. -/
def member? (key : String) (members : List (String × Json)) : Option Json :=
  (members.reverse.find? (·.1 == key)).map (·.2)

/-! ### Depth -/

mutual
/-- How many arrays and objects are nested in each other at most. -/
def depth : Json → Nat
  | .array items => depthItems items + 1
  | .object members => depthMembers members + 1
  | _ => 0

/-- The greatest depth of the items. -/
def depthItems : List Json → Nat
  | [] => 0
  | item :: rest => max (depth item) (depthItems rest)

/-- The greatest depth of the members' values. -/
def depthMembers : List (String × Json) → Nat
  | [] => 0
  | (_, value) :: rest => max (depth value) (depthMembers rest)
end

mutual
/-- Whether every part denotes a value. -/
def hasValue : Json → Bool
  | .array items => hasValueItems items
  | .object members => hasValueMembers members
  | .valueless => false
  | _ => true

/-- Whether every item denotes a value. -/
def hasValueItems : List Json → Bool
  | [] => true
  | item :: rest => hasValue item && hasValueItems rest

/-- Whether every member's value denotes a value. -/
def hasValueMembers : List (String × Json) → Bool
  | [] => true
  | (_, value) :: rest => hasValue value && hasValueMembers rest
end

/-- Every part denotes a value, and at most `room` arrays and objects are nested. -/
def fits (room : Nat) (json : Json) : Bool :=
  json.hasValue && json.depth ≤ room

/-! ### Repeated keys -/

/-- Keeps the last member of each key. -/
def keepLast : List (String × Json) → List (String × Json)
  | [] => []
  | (key, value) :: rest =>
    if rest.any (·.1 == key) then keepLast rest else (key, value) :: keepLast rest

mutual
/-- Every object with only the last member of each key. -/
def lastWins : Json → Json
  | .array items => .array (lastWinsItems items)
  | .object members => .object (keepLast (lastWinsMembers members))
  | json => json

/-- `lastWins` on every item. -/
def lastWinsItems : List Json → List Json
  | [] => []
  | item :: rest => lastWins item :: lastWinsItems rest

/-- `lastWins` on every member's value. -/
def lastWinsMembers : List (String × Json) → List (String × Json)
  | [] => []
  | (key, value) :: rest => (key, lastWins value) :: lastWinsMembers rest
end

/-! ### Equality -/

mutual
/-- Equality of values without repeated keys, up to the order of members. -/
def same : Json → Json → Bool
  | .null, .null => true
  | .bool a, .bool b => a == b
  | .number m, .number n => m.same n
  | .string s, .string t => s == t
  | .array as, .array bs => sameItems as bs
  | .object as, .object bs => as.length == bs.length && sameMembers as bs
  | _, _ => false

/-- Equality item by item. -/
def sameItems : List Json → List Json → Bool
  | [], [] => true
  | a :: as, b :: bs => same a b && sameItems as bs
  | _, _ => false

/-- Whether every member on the left has an equal one on the right. -/
def sameMembers : List (String × Json) → List (String × Json) → Bool
  | [], _ => true
  | (key, a) :: rest, bs =>
    (match member? key bs with
      | some b => same a b
      | none => false) && sameMembers rest bs
end

end Json

end ApiGraph
