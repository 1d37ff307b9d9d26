import ApiGraph.Json.Basic

/-!
# ApiGraph.Json.Record

Reading records. A record is written as an object with its fields in any order, or as an array of
its fields in their fixed order, of which the last ones may be missing. A known field may be given
once only; unknown fields do not count.

* `Json.record?` — the fields of a record.
* `Record.required`, `Record.optional`, `Record.withDefault` — one field.
* `Json.id?`, `Json.bits?` — numbers of 32 bits.
-/

namespace ApiGraph

/-- The fields of a record that are there. -/
structure Record where
  get? : String → Option Json

namespace Record

/-- Whether some known field is given twice. -/
def repeats (names : List String) (members : List (String × Json)) : Bool :=
  names.any fun name => 1 < (members.filter (·.1 == name)).length

/-- The record of an object's members. -/
def ofMembers? (names : List String) (members : List (String × Json)) : Option Record :=
  if repeats names members then none
  else some ⟨fun name => if name ∈ names then members.lookup name else none⟩

/-- The record of an array's items, which take the names in order. -/
def ofItems? (names : List String) (items : List Json) : Option Record :=
  if names.length < items.length then none
  else some ⟨fun name => (names.zip items).lookup name⟩

/-- A field that must be there. -/
def required {α : Type} (r : Record) (name : String) (read : Json → Option α) : Option α :=
  (r.get? name).bind read

/-- A field that may be missing or null. -/
def optional {α : Type} (r : Record) (name : String) (read : Json → Option α) :
    Option (Option α) :=
  match r.get? name with
  | none => some none
  | some .null => some none
  | some json => (read json).map some

/-- A field that may be missing, but not null. -/
def withDefault {α : Type} (r : Record) (name : String) (fallback : α) (read : Json → Option α) :
    Option α :=
  match r.get? name with
  | none => some fallback
  | some json => read json

end Record

namespace Json

/-- Reads a record with the given fields. -/
def record? (names : List String) : Json → Option Record
  | .object members => Record.ofMembers? names members
  | .array items => Record.ofItems? names items
  | _ => none

/-- The text of a string. -/
def string? : Json → Option String
  | .string s => some s
  | _ => none

/-- The value of a boolean. -/
def bool? : Json → Option Bool
  | .bool b => some b
  | _ => none

/-- The items of an array. -/
def items? : Json → Option (List Json)
  | .array items => some items
  | _ => none

/-- An integer of 32 bits with a sign. -/
def id? : Json → Option Int
  | .number (.integer n) => if -2147483648 ≤ n ∧ n ≤ 2147483647 then some n else none
  | _ => none

/-- An integer of 32 bits without a sign. -/
def bits? : Json → Option Nat
  | .number (.integer n) => if 0 ≤ n ∧ n < 4294967296 then some n.toNat else none
  | _ => none

end Json

end ApiGraph
