import ApiGraph.Project.Traverse
import ApiGraph.TypeExpr.Render

/-!
# ApiGraph.Project.Listing

A project in lines for readers.

* `Project.describe` — one reflection: kind, name, and for a signature its type parameters and
  return type.
* `Project.listing` — every reflection that the top level owns, one to a line, indented below its
  owner.
-/

namespace ApiGraph.Project

/-- The names of the registered type parameters among `ids`, between angle brackets. -/
def typeParameterNames (p : Project) (ids : List Id) : String :=
  match (ids.filterMap p.get?).map (·.name) with
  | [] => ""
  | names => "<" ++ String.intercalate ", " names ++ ">"

/-- The description of a reflection. -/
def describeReflection (p : Project) (r : Reflection) : String :=
  r.kind.name ++ " " ++ r.name ++
    match r.signature? with
    | some s => p.typeParameterNames s.typeParameters ++ s.type.elim "" fun t => ":" ++ t.render p
    | none => ""

/-- The description of the reflection registered under an id. -/
def describe (p : Project) (id : Id) : Option String :=
  (p.get? id).map p.describeReflection

/-- The line of a reflection: its description, and its main type unless it is a signature. -/
def line (p : Project) (depth : Nat) (r : Reflection) : String :=
  let type := if r.signature?.isSome then none else r.type
  String.ofList (List.replicate (2 * depth) ' ') ++ p.describeReflection r ++
    type.elim "" (fun t => ": " ++ t.render p) ++ "\n"

/-- The lines of a top-level declaration and everything it owns. -/
def listingOf (p : Project) (id : Id) : String :=
  match p.get? id with
  | none => ""
  | some r =>
    p.line 1 r ++ String.join ((p.descendants id).map fun v => p.line (v.depth + 2) v.reflection)

/-- The project's name and a line for each reflection below it. -/
def listing (p : Project) : String :=
  "Project " ++ p.name ++ "\n" ++ String.join (p.children.map p.listingOf)

end ApiGraph.Project
