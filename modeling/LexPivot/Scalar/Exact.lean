import LexPivot.Scalar.Basic
import LexPivot.Binary64

/-!
# Exact scalars

Fractions pivot without fractions: the working matrix holds integers over a positive common
denominator, and the denominator after a pivot is the pivot element. Every division a pivot makes
is one of integers, toward zero.
-/
namespace LexPivot

namespace Exact

/-- The least common multiple of the denominators of a grid. -/
def commonDenominator {r c : Nat} (data : Grid Rat r c) : Nat :=
  (Grid.entries data).foldl (fun d q => d.lcm q.den) 1

/-- The data scaled by its common denominator. -/
def toIntegers {r c : Nat} (data : Grid Rat r c) : Grid Int r c :=
  let d := commonDenominator data
  Grid.map (fun q => q.num * (d / q.den : Nat)) data

/-- The fraction-free pivot, before the sign of the denominator is settled. -/
def crossPivot {r w : Nat} (work : Working Int r w) (i : Fin r) (j : Fin w) : Working Int r w :=
  let a := Grid.entry work.entries
  { entries := Grid.ofFn fun k l =>
      if k = i then a i l
      else (a k l * a i j - a k j * a i l).tdiv work.denominator
    denominator := a i j }

/-- The same fractions over a denominator that is not negative. -/
def normalizeSign {r w : Nat} (work : Working Int r w) : Working Int r w :=
  if work.denominator < 0 then
    { entries := Grid.map (fun a => -a) work.entries, denominator := -work.denominator }
  else work

/-- The fraction-free pivot on `(i, j)`. -/
def pivot {r w : Nat} (work : Working Int r w) (i : Fin r) (j : Fin w) : Working Int r w :=
  normalizeSign (crossPivot work i j)

end Exact

instance : Scalar Rat where
  toZero := ⟨0⟩
  toOne := ⟨1⟩
  Entry := Int
  refactorInterval := none
  toEntries := Exact.toIntegers
  unit := 1
  pivot := Exact.pivot
  value entry denominator := entry / denominator
  isDenominator entry := entry != 0
  isZeroEntry entry := entry == 0
  compareMagnitude a b := compare a.natAbs b.natAbs
  isDivisor a := a != 0
  isNegligible a := a == 0
  isPositive a := 0 < a
  isNegative a := a < 0
  less a b := a < b
  definitelyLess a b := a < b
  approxEq a b := a == b
  ofInt n := n
  ofFloat? := Binary64.toRat?
  toFloat := Binary64.nearest

end LexPivot
