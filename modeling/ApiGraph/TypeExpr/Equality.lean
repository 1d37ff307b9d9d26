import ApiGraph.TypeExpr.Basic

/-!
# ApiGraph.TypeExpr.Equality

When two type expressions are equal: part by part, the targets of references included, with
number literals compared as numbers.
-/

namespace ApiGraph.TypeExpr

mutual
/-- Equality of type expressions. -/
def same : TypeExpr → TypeExpr → Bool
  | .array a, .array b => same a b
  | .conditional a b c d, .conditional a' b' c' d' =>
    same a a' && same b b' && same c c' && same d d'
  | .indexedAccess a b, .indexedAccess a' b' => same a a' && same b b'
  | .inferred a, .inferred b => a == b
  | .intersection as, .intersection bs => sameList as bs
  | .intrinsic a, .intrinsic b => a == b
  | .literal a, .literal b => a.same b
  | .mapped p a b r o n, .mapped p' a' b' r' o' n' =>
    p == p' && same a a' && same b b' && r == r' && o == o' && sameOption n n'
  | .optional a, .optional b => same a b
  | .predicate n a t, .predicate n' a' t' => n == n' && a == a' && sameOption t t'
  | .query l as, .query l' bs => l == l' && sameList as bs
  | .reference l as, .reference l' bs => l == l' && sameList as bs
  | .reflection a, .reflection b => a == b
  | .rest a, .rest b => same a b
  | .templateLiteral h as, .templateLiteral h' bs => h == h' && sameSpans as bs
  | .tuple as, .tuple bs => sameList as bs
  | .namedTupleMember n o a, .namedTupleMember n' o' b => n == n' && o == o' && same a b
  | .typeOperator o a, .typeOperator o' b => o == o' && same a b
  | .union as, .union bs => sameList as bs
  | .unknown a, .unknown b => a == b
  | _, _ => false

/-- Equality member by member. -/
def sameList : List TypeExpr → List TypeExpr → Bool
  | [], [] => true
  | a :: as, b :: bs => same a b && sameList as bs
  | _, _ => false

/-- Equality of parts that may be missing. -/
def sameOption : Option TypeExpr → Option TypeExpr → Bool
  | none, none => true
  | some a, some b => same a b
  | _, _ => false

/-- Equality of spans, text included. -/
def sameSpans : List (TypeExpr × String) → List (TypeExpr × String) → Bool
  | [], [] => true
  | (a, s) :: as, (b, t) :: bs => same a b && s == t && sameSpans as bs
  | _, _ => false
end

end ApiGraph.TypeExpr
