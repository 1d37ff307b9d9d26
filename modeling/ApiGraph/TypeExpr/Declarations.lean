import ApiGraph.TypeExpr.Basic

/-!
# ApiGraph.TypeExpr.Declarations

The declarations that a type names at any depth, in the order in which a document holds them.
-/

namespace ApiGraph.TypeExpr

mutual
/-- The declarations that the reflection types in a type name. -/
def declarations : TypeExpr → List Id
  | .array element => declarations element
  | .conditional check bound whenTrue whenFalse =>
    declarations check ++ declarations bound ++ declarations whenTrue ++ declarations whenFalse
  | .indexedAccess object index => declarations index ++ declarations object
  | .intersection members => declarationsList members
  | .mapped _ parameterType template _ _ nameType =>
    declarations parameterType ++ declarations template ++ declarationsOption nameType
  | .optional element => declarations element
  | .predicate _ _ target => declarationsOption target
  | .query _ arguments => declarationsList arguments
  | .reference _ arguments => declarationsList arguments
  | .reflection id => [id]
  | .rest element => declarations element
  | .templateLiteral _ tail => declarationsSpans tail
  | .tuple elements => declarationsList elements
  | .namedTupleMember _ _ element => declarations element
  | .typeOperator _ target => declarations target
  | .union members => declarationsList members
  | .inferred _ | .intrinsic _ | .literal _ | .unknown _ => []

/-- The declarations that each type in turn names. -/
def declarationsList : List TypeExpr → List Id
  | [] => []
  | t :: ts => declarations t ++ declarationsList ts

/-- The declarations that a type that may be missing names. -/
def declarationsOption : Option TypeExpr → List Id
  | none => []
  | some t => declarations t

/-- The declarations that each span's type in turn names. -/
def declarationsSpans : List (TypeExpr × String) → List Id
  | [] => []
  | (t, _) :: spans => declarations t ++ declarationsSpans spans
end

end ApiGraph.TypeExpr
