import ApiGraph.Number.Shortest

/-!
# ApiGraph.Number.Layout

How doubles are written. The decisions of a format are one record, `NumberStyle`, and
`NumberStyle.render` is the text of a finite double in that format.
-/

namespace ApiGraph

/-- The decisions of a number format. -/
structure NumberStyle where
  /-- The text of a positive decimal. -/
  layout : Scientific → List Char
  /-- Which of two equally near shortest decimals is taken. -/
  tie : TieRule
  /-- How the two zeros are written. -/
  zero : Bool → List Char

/-- The text of a finite number. -/
def NumberStyle.render (style : NumberStyle) (x : Binary64) : List Char :=
  if x.isZero then style.zero x.isNegative
  else
    let text := style.layout (x.shortest style.tie)
    if x.isNegative then '-' :: text else text

end ApiGraph
