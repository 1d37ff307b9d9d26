/-!
# ApiGraph.Number.Power

The two families of powers that number formats scale by.
-/

namespace ApiGraph

/-- The powers of two. -/
def twoPow (n : Nat) : Nat :=
  Nat.pow 2 n

/-- The powers of ten. -/
def tenPow (n : Nat) : Nat :=
  Nat.pow 10 n

theorem twoPow_pos (n : Nat) : 0 < twoPow n :=
  Nat.pow_pos (by decide)

theorem tenPow_pos (n : Nat) : 0 < tenPow n :=
  Nat.pow_pos (by decide)

end ApiGraph
