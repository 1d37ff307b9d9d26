import ApiGraph.Text

/-!
# ApiGraph.Package

Which package a symbol's declaration file belongs to. A file under a `node_modules/` directory is
part of the package named by the next path segment, or by the next two if the first is a scope.

* `SymbolLocation.parse` — a file name as a path with forward slashes and its package.
* `ExternalName` — the name of a symbol of another package.
* `withoutModule?`, `stripModuleName` — a fully qualified name without the quoted module in front.
-/

namespace ApiGraph

/-- Where a symbol is declared. -/
structure SymbolLocation where
  path : String
  package : Option String
deriving DecidableEq, Inhabited, Repr

namespace SymbolLocation

/-- The directory below which packages lie. -/
def boundary : List Char := "node_modules/".toList

/-- The first `n` segments of a path, with the slashes between them. -/
def segments : (n : Nat) → List Char → List Char
  | _, [] => []
  | n, c :: cs =>
    if c = '/' then
      match n with
      | 0 | 1 => []
      | n + 1 => c :: segments n cs
    else c :: segments n cs

/-- The package that a path with forward slashes lies in. -/
def packageOf? (path : List Char) : Option (List Char) := do
  let rest ← Text.afterFirst? boundary path
  let count := if rest.head? = some '@' then 2 else 1
  let package := segments count rest
  if package.isEmpty then none else some package

/-- Reads a file name; a backslash separates segments like a slash. -/
def parse (file : String) : SymbolLocation :=
  let path := file.toList.map fun c => if c = '\\' then '/' else c
  { path := String.ofList path, package := (packageOf? path).map String.ofList }

/-- Whether the symbol belongs to a package. -/
def isExternal (location : SymbolLocation) : Bool :=
  location.package.isSome

/-- The path, followed by the package if there is one. -/
def text (location : SymbolLocation) : String :=
  match location.package with
  | some package => location.path ++ " (" ++ package ++ ")"
  | none => location.path

end SymbolLocation

/-- A fully qualified name without the quoted module name in front of it. The name is cut behind its first
byte, where the search begins, and behind the two bytes that are found; a cut that does not fall between
two characters makes it `none`. -/
def withoutModule? (name : List Char) : Option (List Char) :=
  if name.head? = some '"' then do
    let inner ← Text.fromByte? 1 name
    match Text.findByte? ['"', '.'] inner with
    | some offset => Text.fromByte? (offset + 3) name
    | none => some name
  else some name

/-- A fully qualified name without the quoted module name in front of it, as a string. -/
def stripModuleName (name : String) : String :=
  -- the cuts always fall between two characters (`exists_withoutModule?`)
  String.ofList ((withoutModule? name.toList).getD name.toList)

/-- The name of a symbol that another package declares. -/
structure ExternalName where
  qualifiedName : String
  package : String
deriving DecidableEq, Inhabited, Repr

/-- The external name of a symbol declared in `file`, if the file lies in a package. -/
def ExternalName.ofDeclaration? (file qualifiedName : String) : Option ExternalName :=
  (SymbolLocation.parse file).package.map fun package =>
    { qualifiedName := stripModuleName qualifiedName, package }

end ApiGraph
