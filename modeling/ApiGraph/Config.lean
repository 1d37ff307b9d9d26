/-!
# ApiGraph.Config

How documents are written.
-/

namespace ApiGraph

/-- The choices that writing a document leaves open. -/
structure Config where
  /-- Whether text is spread over lines. -/
  pretty : Bool := true
  /-- Whether each kind is also given in words. -/
  kindStrings : Bool := true
deriving DecidableEq, Inhabited, Repr

end ApiGraph
