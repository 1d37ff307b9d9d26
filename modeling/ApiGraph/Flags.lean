/-!
# ApiGraph.Flags

The modifiers of a reflection, each set or not.
-/

namespace ApiGraph

/-- The modifiers of a reflection. -/
structure Flags where
  isPrivate : Bool := false
  isProtected : Bool := false
  isPublic : Bool := false
  isStatic : Bool := false
  isExternal : Bool := false
  isOptional : Bool := false
  isRest : Bool := false
  isAbstract : Bool := false
  isConst : Bool := false
  isReadonly : Bool := false
deriving DecidableEq, Inhabited, Repr

namespace Flags

/-- The names of the modifiers, in order. -/
def names : List String :=
  ["isPrivate", "isProtected", "isPublic", "isStatic", "isExternal", "isOptional", "isRest",
    "isAbstract", "isConst", "isReadonly"]

/-- Each modifier with its name, in order. -/
def entries (f : Flags) : List (String × Bool) :=
  [("isPrivate", f.isPrivate), ("isProtected", f.isProtected), ("isPublic", f.isPublic),
    ("isStatic", f.isStatic), ("isExternal", f.isExternal), ("isOptional", f.isOptional),
    ("isRest", f.isRest), ("isAbstract", f.isAbstract), ("isConst", f.isConst),
    ("isReadonly", f.isReadonly)]

/-- The names of the modifiers that are set. -/
def set (f : Flags) : List String :=
  (f.entries.filter (·.2)).map (·.1)

/-- The modifiers that `holds` names. -/
def ofNames (holds : String → Bool) : Flags where
  isPrivate := holds "isPrivate"
  isProtected := holds "isProtected"
  isPublic := holds "isPublic"
  isStatic := holds "isStatic"
  isExternal := holds "isExternal"
  isOptional := holds "isOptional"
  isRest := holds "isRest"
  isAbstract := holds "isAbstract"
  isConst := holds "isConst"
  isReadonly := holds "isReadonly"

/-- Whether no modifier is set. -/
def isEmpty (f : Flags) : Bool :=
  f == {}

end Flags

end ApiGraph
