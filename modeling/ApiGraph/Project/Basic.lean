import ApiGraph.Project.Registry
import ApiGraph.TypeExpr.Settle

/-!
# ApiGraph.Project.Basic

A project: the registry of its reflections, the index from the producer's symbols to reflections,
the top-level declarations and the project's own categories.

* `Project.get?`, `Project.lookup`, `Project.resolve?` — from ids, symbols and targets to
  registered reflections.
* `Project.displayName` — what a reference is called.
* `Project.registerSymbol` — an entry of the symbol index.
-/

namespace ApiGraph

/-- The graph of one run. -/
structure Project where
  name : String
  registry : Registry := .empty
  /-- Which reflection each symbol became; no symbol occurs twice. -/
  symbols : List (Symbol × Id) := []
  /-- The next id to be given out. -/
  nextId : Id := 1
  /-- The top-level declarations. -/
  children : List Id := []
  categories : List Category := []
deriving Inhabited

namespace Project

/-- The reflection registered under an id. -/
def get? (p : Project) (id : Id) : Option Reflection :=
  p.registry.get? id

/-- Whether a reflection is registered under an id. -/
def contains (p : Project) (id : Id) : Bool :=
  p.registry.contains id

/-- The number of registered reflections. -/
def size (p : Project) : Nat :=
  p.registry.size

/-- Replaces the reflection registered under an id, if there is one. -/
def modify (p : Project) (id : Id) (f : Reflection → Reflection) : Project :=
  { p with registry := p.registry.modify id f }

/-! ### References -/

/-- The registered reflection that a symbol became. -/
def lookup (p : Project) (symbol : Symbol) : Option Id :=
  (p.symbols.lookup symbol).filter p.contains

/-- The registered reflection that a target points at. -/
def resolve? (p : Project) (target : Target) : Option Id :=
  match target with
  | .symbol symbol => p.lookup symbol
  | .reflection id => if p.contains id then some id else none

/-- What a reference is called: by the name of its reflection, or by its own if there is none. -/
def displayName (p : Project) (link : Link) : String :=
  ((p.resolve? link.target).bind p.get?).elim link.name (·.name)

/-- Remembers that a symbol became a registered reflection. -/
def registerSymbol (p : Project) (symbol : Symbol) (id : Id) : Except Error Project :=
  if p.contains id then
    .ok { p with symbols := (symbol, id) :: p.symbols.filter (·.1 != symbol) }
  else
    .error (.unknownReflection id)

/-! ### Documentation -/

/-- Whether a declaration with a page of its own is registered under an id. -/
def hasOwnDocument (p : Project) (id : Id) : Bool :=
  ((p.get? id).bind Reflection.declaration?).any (·.hasOwnDocument)

/-- Whether a reflection type that names this declaration is a function: the declaration has
signatures and no children. -/
def isCallable (p : Project) (id : Id) : Bool :=
  ((p.get? id).bind Reflection.declaration?).any fun d =>
    d.children.isEmpty && !d.signatures.isEmpty

end Project

/-- Whether every member of a category has a page of its own. -/
def Category.allDocumented (c : Category) (p : Project) : Bool :=
  c.children.all p.hasOwnDocument

end ApiGraph
