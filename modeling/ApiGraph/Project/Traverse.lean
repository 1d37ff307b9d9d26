import ApiGraph.Project.Basic

/-!
# ApiGraph.Project.Traverse

Walks over what a reflection owns. A walk visits registered reflections only, and a visitor may end
it at any visit.

* `Project.steps` — one level.
* `Project.descendants` — all levels, each reflection before those it owns.
* `Visit.run` — the visits up to the first one that ends the walk.
* `Project.traverse`, `Project.traverseDescendants` — the walks of a visitor over one level and over
  all.
-/

namespace ApiGraph

/-- A step of a walk: the reflection that was reached, in which slot, and how deep. -/
structure Visit where
  id : Id
  reflection : Reflection
  slot : Slot
  depth : Nat := 0
deriving Inhabited

namespace Project

/-- The registered reflections that a reflection owns directly, in order. -/
def steps (p : Project) (id : Id) : List Visit :=
  match p.get? id with
  | none => []
  | some owner => owner.slots.filterMap fun (child, slot) =>
    (p.get? child).map fun reflection => { id := child, reflection, slot }

/-- What a reflection owns at most `levels` levels down, each before what it owns itself. -/
def descend (p : Project) : (levels depth : Nat) → Id → List Visit
  | 0, _, _ => []
  | levels + 1, depth, id =>
    (p.steps id).flatMap fun visit =>
      { visit with depth } :: descend p levels (depth + 1) visit.id

/-- Everything that a reflection owns, each before what it owns itself. Where nothing owns itself,
no path is longer than the registry. -/
def descendants (p : Project) (id : Id) : List Visit :=
  p.descend p.size 0 id

end Project

/-- What a visitor says after a visit, with its new state. -/
inductive Flow (σ : Type)
  | continue (state : σ)
  | break (state : σ)

namespace Flow

/-- The state of the visitor. -/
def state {σ : Type} : Flow σ → σ
  | .continue s => s
  | .break s => s

/-- Whether the visitor ended the walk. -/
def isBreak {σ : Type} : Flow σ → Bool
  | .continue _ => false
  | .break _ => true

/-- Goes on, unless the visitor ended the walk. -/
def andThen {σ : Type} (flow : Flow σ) (next : σ → Flow σ) : Flow σ :=
  match flow with
  | .continue s => next s
  | .break s => .break s

end Flow

/-- Shows the visits to a visitor one by one, up to the first one that ends the walk. -/
def Visit.run {σ : Type} (visit : σ → Visit → Flow σ) : List Visit → σ → Flow σ
  | [], s => .continue s
  | v :: rest, s =>
    match visit s v with
    | .continue s => run visit rest s
    | .break s => .break s

namespace Project

/-- Shows what a reflection owns directly to a visitor, unless a visit ends the walk. -/
def traverse {σ : Type} (p : Project) (visit : σ → Visit → Flow σ) (id : Id) (s : σ) : Flow σ :=
  Visit.run visit (p.steps id) s

/-- Shows what a reflection owns at most `levels` levels down to a visitor. Each level goes on with the
next one after every visit, and a visit that ends the walk ends it on all levels. -/
def traverseDown {σ : Type} (p : Project) (visit : σ → Visit → Flow σ) :
    (levels depth : Nat) → Id → σ → Flow σ
  | 0, _, _, s => .continue s
  | levels + 1, depth, id, s =>
    p.traverse (fun s v =>
      (visit s { v with depth }).andThen (traverseDown p visit levels (depth + 1) v.id)) id s

/-- Shows everything that a reflection owns to a visitor, unless a visit ends the walk. Where nothing
owns itself, no path is longer than the registry. -/
def traverseDescendants {σ : Type} (p : Project) (visit : σ → Visit → Flow σ) (id : Id) (s : σ) :
    Flow σ :=
  p.traverseDown visit p.size 0 id s

end Project

end ApiGraph
