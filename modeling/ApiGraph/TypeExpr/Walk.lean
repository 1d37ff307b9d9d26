import ApiGraph.TypeExpr.Basic

/-!
# ApiGraph.TypeExpr.Walk

The nodes of a type expression, each before the nodes below it. The reference inside a query is a
node of its own; the declaration that a reflection type names is outside the tree.

* `walk` — the nodes as a list.
* `Hooks`, `visit` — a walk that calls a hook at every node.
-/

namespace ApiGraph.TypeExpr

mutual
/-- The nodes of a type expression in the order in which a walk meets them. -/
def walk : TypeExpr → List TypeExpr
  | t@(.array element) => t :: walk element
  | t@(.conditional check bound whenTrue whenFalse) =>
    t :: (walk check ++ walk bound ++ walk whenTrue ++ walk whenFalse)
  | t@(.indexedAccess object index) => t :: (walk index ++ walk object)
  | t@(.intersection members) => t :: walkList members
  | t@(.mapped _ parameterType template _ _ nameType) =>
    t :: (walkOption nameType ++ walk parameterType ++ walk template)
  | t@(.optional element) => t :: walk element
  | t@(.predicate _ _ target) => t :: walkOption target
  | t@(.query link arguments) => t :: .reference link arguments :: walkList arguments
  | t@(.reference _ arguments) => t :: walkList arguments
  | t@(.rest element) => t :: walk element
  | t@(.templateLiteral _ tail) => t :: walkSpans tail
  | t@(.tuple elements) => t :: walkList elements
  | t@(.namedTupleMember _ _ element) => t :: walk element
  | t@(.typeOperator _ target) => t :: walk target
  | t@(.union members) => t :: walkList members
  | t@(.inferred _) => [t]
  | t@(.intrinsic _) => [t]
  | t@(.literal _) => [t]
  | t@(.reflection _) => [t]
  | t@(.unknown _) => [t]

/-- The nodes of each type in turn. -/
def walkList : List TypeExpr → List TypeExpr
  | [] => []
  | t :: ts => walk t ++ walkList ts

/-- The nodes of a type that may be missing. -/
def walkOption : Option TypeExpr → List TypeExpr
  | none => []
  | some t => walk t

/-- The nodes of each span's type in turn. -/
def walkSpans : List (TypeExpr × String) → List TypeExpr
  | [] => []
  | (t, _) :: spans => walk t ++ walkSpans spans
end

/-- What a walk calls: for each form of type a hook, which is shown the node and changes the state of
whoever walks. A hook can neither end the walk nor change the type. -/
abbrev Hooks (σ : Type) := Form → TypeExpr → σ → σ

section

variable {σ : Type} (hooks : Hooks σ)

mutual
/-- Calls the hook of a type, and walks the types below it one after the other. -/
def visit : TypeExpr → σ → σ
  | t@(.array element), s => hooks .array t s |> visit element
  | t@(.conditional check bound whenTrue whenFalse), s =>
    hooks .conditional t s |> visit check |> visit bound |> visit whenTrue |> visit whenFalse
  | t@(.indexedAccess object index), s => hooks .indexedAccess t s |> visit index |> visit object
  | t@(.inferred _), s => hooks .inferred t s
  | t@(.intersection members), s => hooks .intersection t s |> visitList members
  | t@(.intrinsic _), s => hooks .intrinsic t s
  | t@(.literal _), s => hooks .literal t s
  | t@(.mapped _ parameterType template _ _ nameType), s =>
    hooks .mapped t s |> visitOption nameType |> visit parameterType |> visit template
  | t@(.optional element), s => hooks .optional t s |> visit element
  | t@(.predicate _ _ target), s => hooks .predicate t s |> visitOption target
  | t@(.query link arguments), s =>
    hooks .query t s |> hooks .reference (.reference link arguments) |> visitList arguments
  | t@(.reference _ arguments), s => hooks .reference t s |> visitList arguments
  | t@(.reflection _), s => hooks .reflection t s
  | t@(.rest element), s => hooks .rest t s |> visit element
  | t@(.templateLiteral _ tail), s => hooks .templateLiteral t s |> visitSpans tail
  | t@(.tuple elements), s => hooks .tuple t s |> visitList elements
  | t@(.namedTupleMember _ _ element), s => hooks .namedTupleMember t s |> visit element
  | t@(.typeOperator _ target), s => hooks .typeOperator t s |> visit target
  | t@(.union members), s => hooks .union t s |> visitList members
  | t@(.unknown _), s => hooks .unknown t s

/-- Walks each type in turn. -/
def visitList : List TypeExpr → σ → σ
  | [], s => s
  | t :: ts, s => visit t s |> visitList ts

/-- Walks a type that may be missing. -/
def visitOption : Option TypeExpr → σ → σ
  | none, s => s
  | some t, s => visit t s

/-- Walks each span's type in turn. -/
def visitSpans : List (TypeExpr × String) → σ → σ
  | [], s => s
  | (t, _) :: spans, s => visit t s |> visitSpans spans
end

end

end ApiGraph.TypeExpr
