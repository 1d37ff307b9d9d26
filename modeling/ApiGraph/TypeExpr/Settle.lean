import ApiGraph.TypeExpr.Basic

/-!
# ApiGraph.TypeExpr.Settle

**Settling** replaces the symbols that references point at by the reflections they turn out to be.
A target settles at most once: a reflection stays what it is, and a symbol without a reflection
waits. A pass over a type may end early, at a reflection type whose declaration cannot be reached;
what comes after it in the order of a document's parts is left alone.

* `Target.settle`, `Link.settle` — one reference.
* `TypeExpr.settleWhile` — a pass that may end early.
* `TypeExpr.settle` — the whole type.
-/

namespace ApiGraph

/-- What a target has become, given what each symbol turns out to be. -/
def Target.settle (lookup : Symbol → Option Id) : Target → Target
  | .symbol s => (lookup s).elim (.symbol s) .reflection
  | .reflection id => .reflection id

/-- The link with its target settled. -/
def Link.settle (lookup : Symbol → Option Id) (link : Link) : Link :=
  { link with target := link.target.settle lookup }

/-- The reference with its own target settled, and its arguments untouched. -/
def Reference.settleLink (lookup : Symbol → Option Id) (r : Reference) : Reference :=
  { r with link := r.link.settle lookup }

namespace TypeExpr

/-- What a pass needs to know: what symbols turn out to be, and which declarations end it. -/
structure Settling where
  lookup : Symbol → Option Id
  blocks : Id → Bool

/-- Settles a link while the pass goes on. -/
def settleLink (s : Settling) (link : Link) : StateM Bool Link := do
  if ← get then return link.settle s.lookup else return link

mutual
/-- Settles a type; the state tells whether the pass still goes on. -/
def settleWhile (s : Settling) : TypeExpr → StateM Bool TypeExpr
  | .array element => return .array (← settleWhile s element)
  | .conditional check bound whenTrue whenFalse => do
    let check ← settleWhile s check
    let bound ← settleWhile s bound
    let whenTrue ← settleWhile s whenTrue
    return .conditional check bound whenTrue (← settleWhile s whenFalse)
  | .indexedAccess object index => do
    let index ← settleWhile s index
    return .indexedAccess (← settleWhile s object) index
  | .inferred name => return .inferred name
  | .intersection members => return .intersection (← settleList s members)
  | .intrinsic name => return .intrinsic name
  | .literal value => return .literal value
  | .mapped parameter parameterType template readonlyModifier optionalModifier nameType => do
    let parameterType ← settleWhile s parameterType
    let template ← settleWhile s template
    let nameType ← settleOption s nameType
    return .mapped parameter parameterType template readonlyModifier optionalModifier nameType
  | .optional element => return .optional (← settleWhile s element)
  | .predicate name asserts target => return .predicate name asserts (← settleOption s target)
  | .query link arguments => do
    let link ← settleLink s link
    return .query link (← settleList s arguments)
  | .reference link arguments => do
    let link ← settleLink s link
    return .reference link (← settleList s arguments)
  | .reflection id => do
    modify (· && !s.blocks id)
    return .reflection id
  | .rest element => return .rest (← settleWhile s element)
  | .templateLiteral head tail => return .templateLiteral head (← settleSpans s tail)
  | .tuple elements => return .tuple (← settleList s elements)
  | .namedTupleMember name isOptional element =>
    return .namedTupleMember name isOptional (← settleWhile s element)
  | .typeOperator operator target => return .typeOperator operator (← settleWhile s target)
  | .union members => return .union (← settleList s members)
  | .unknown name => return .unknown name

/-- Settles each type in turn. -/
def settleList (s : Settling) : List TypeExpr → StateM Bool (List TypeExpr)
  | [] => return []
  | t :: ts => do
    let t ← settleWhile s t
    return t :: (← settleList s ts)

/-- Settles a type that may be missing. -/
def settleOption (s : Settling) : Option TypeExpr → StateM Bool (Option TypeExpr)
  | none => return none
  | some t => return some (← settleWhile s t)

/-- Settles each span's type in turn. -/
def settleSpans (s : Settling) : List (TypeExpr × String) → StateM Bool (List (TypeExpr × String))
  | [] => return []
  | (t, text) :: spans => do
    let t ← settleWhile s t
    return (t, text) :: (← settleSpans s spans)
end

/-- Settles every reference in a type. -/
def settle (lookup : Symbol → Option Id) (t : TypeExpr) : TypeExpr :=
  (settleWhile { lookup, blocks := fun _ => false } t true).1

end TypeExpr

/-- Settles a reference and its arguments while the pass goes on. -/
def Reference.settleWhile (s : TypeExpr.Settling) (r : Reference) : StateM Bool Reference := do
  let link ← TypeExpr.settleLink s r.link
  return { link, arguments := ← TypeExpr.settleList s r.arguments }

end ApiGraph
