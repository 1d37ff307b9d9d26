import ApiGraph.Kind
import ApiGraph.TypeExpr.Form

/-!
# ApiGraph.Error

What can go wrong, as causes, and the wording of each cause in `Error.message`.
-/

namespace ApiGraph

/-- The number of a reflection in its project. The project itself is 0, and -1 never resolves. -/
abbrev Id := Int

/-- The greatest number that an id can be written as. -/
def maxId : Id := 2147483647

/-- What can go wrong. -/
inductive Error
  /-- A document that is not of the documented shape. -/
  | malformedWire
  | unknownKind (bits : Nat)
  | kindMismatch (kind : Kind) (expected : Role)
  /-- A document of another kind where a whole project is read. -/
  | notAProject (kind : Kind)
  | duplicateId (id : Id)
  | reservedId (id : Id)
  | idSpaceExhausted (last : Id)
  /-- A type in a place where only a reference may stand. -/
  | unexpectedType (found : TypeExpr.Form)
  | unknownReflection (id : Id)
  | invalidParent (id : Id) (child : Role)
  | invalidBigInt (text : String)
  /-- A configuration file that is not of the documented shape. -/
  | config
  /-- A file that cannot be read or written. -/
  | io
  /-- A reflection that owns itself, directly or through others, has no written form. -/
  | endlessOwnership (id : Id)
deriving DecidableEq, Inhabited, Repr

/-- The text of an id. -/
def Id.text (id : Id) : String :=
  toString id

namespace Error

/-- The wording of an error. -/
def message : Error → String
  | .malformedWire => "Malformed wire input"
  | .unknownKind bits => "Unknown reflection kind: 0x" ++ String.ofList (Nat.toDigits 16 bits)
  | .kindMismatch kind expected =>
    "Kind " ++ kind.name ++ " is not valid for a " ++ expected.name ++ " reflection"
  | .notAProject kind => "Kind " ++ kind.name ++ " is not valid for a project reflection"
  | .duplicateId id => "Duplicate reflection id " ++ Id.text id ++ " in serialized project"
  | .reservedId id => "Reflection id " ++ Id.text id ++ " is reserved"
  | .idSpaceExhausted last => "No reflection id is left after " ++ Id.text last
  | .unexpectedType found => "Expected a reference type, found " ++ found.name
  | .unknownReflection id =>
    "Reflection " ++ Id.text id ++ " is not registered in this project"
  | .invalidParent id child => "Reflection " ++ Id.text id ++ " cannot own a " ++ child.name
  | .invalidBigInt text => "Invalid bigint literal: " ++ text
  | .config => "Config error"
  | .io => "IO error"
  | .endlessOwnership id => "Reflection " ++ Id.text id ++ " owns itself"

end Error

end ApiGraph
