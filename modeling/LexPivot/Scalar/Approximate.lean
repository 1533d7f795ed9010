import LexPivot.Scalar.Basic
import LexPivot.Binary64

/-!
# Approximate scalars

Doubles pivot by Gauss-Jordan elimination over the denominator 1, and are compared with tolerances.
The working matrix is rebuilt from the data at regular intervals, so that rounding errors do not
pile up.
-/
namespace LexPivot

namespace Approximate

/-- Numbers up to this magnitude count as zero. -/
def zeroTolerance : Float := 1e-9

/-- Numbers are taken for equal up to this difference, relative to one more than their
magnitude. -/
def equalityTolerance : Float := 1e-7

def isNegligible (x : Float) : Bool := x.abs ≤ zeroTolerance

def approxEq (a b : Float) : Bool :=
  let magnitude := if a.abs < b.abs then b.abs else a.abs
  (a - b).abs ≤ equalityTolerance * (1 + magnitude)

end Approximate

instance : Scalar Float where
  toZero := ⟨0⟩
  toOne := ⟨1⟩
  Entry := Float
  refactorInterval := some 50
  toEntries data := data
  unit := 1
  pivot work i j := { work with entries := Grid.gaussJordan work.entries i j }
  value entry denominator := entry / denominator
  isDenominator _ := true
  isZeroEntry := Approximate.isNegligible
  compareMagnitude a b := compare a.abs.toBits b.abs.toBits
  isDivisor _ := true
  isNegligible := Approximate.isNegligible
  isPositive x := !Binary64.signBit x
  isNegative := Binary64.signBit
  less a b := a < b
  definitelyLess a b := a < b - Approximate.zeroTolerance
  approxEq := Approximate.approxEq
  ofInt n := Binary64.nearest n
  ofFloat? x := if x.isFinite then some x else none
  toFloat x := x

end LexPivot
