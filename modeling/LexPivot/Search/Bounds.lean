/-!
# Bounds of a search

How many solutions a search may report and how far from the start it may look. Zero means that
there is no bound.
-/
namespace LexPivot

structure SearchBounds where
  /-- The number of solutions after which the search stops. -/
  stopAfter : Nat := 0
  /-- The number of paths from the start beyond which a solution is not explored. -/
  maxDepth : Nat := 0
deriving DecidableEq, Repr

namespace SearchBounds

def unbounded : SearchBounds := {}

def countReached (b : SearchBounds) (found : Nat) : Bool :=
  b.stopAfter != 0 && b.stopAfter ≤ found

def depthExceeded (b : SearchBounds) (depth : Nat) : Bool :=
  b.maxDepth != 0 && b.maxDepth < depth

end SearchBounds

end LexPivot
