import LexPivot.Grid

/-!
# Scalars

The numbers a tableau can pivot with. The working matrix of a tableau holds entries over one shared
denominator: the value of an entry is `entry / denominator`. Which entries those are, how a pivot
updates them, and when a number counts as zero, is the business of the scalar.
-/
namespace LexPivot

/-- A matrix of entries over one shared denominator. -/
structure Working (ε : Type) (r w : Nat) where
  entries : Grid ε r w
  denominator : ε
deriving DecidableEq

class Scalar (α : Type) extends Zero α, One α, Add α, Sub α, Mul α, Neg α, Div α where
  /-- What the working matrix holds. -/
  Entry : Type
  /-- The number of pivots after which the working matrix is rebuilt from the data, if it ever
  has to be. -/
  refactorInterval : Option Nat
  /-- The data as entries, up to one positive factor for all of them. -/
  toEntries {r c : Nat} (data : Grid α r c) : Grid Entry r c
  /-- The denominator the entries start with. -/
  unit : Entry
  /-- Pivots on an entry, so that its column becomes the unit column of its row. -/
  pivot {r w : Nat} (work : Working Entry r w) (i : Fin r) (j : Fin w) : Working Entry r w
  value (entry denominator : Entry) : α
  /-- Whether entries may be divided by this one. -/
  isDenominator (entry : Entry) : Bool
  isZeroEntry (entry : Entry) : Bool
  compareMagnitude (a b : Entry) : Ordering
  /-- Whether numbers may be divided by this one. -/
  isDivisor (a : α) : Bool
  /-- Whether a number counts as zero. -/
  isNegligible (a : α) : Bool
  isPositive (a : α) : Bool
  isNegative (a : α) : Bool
  less (a b : α) : Bool
  /-- Whether `a` is less than `b` beyond the tolerance of the scalar. -/
  definitelyLess (a b : α) : Bool
  approxEq (a b : α) : Bool
  ofInt (n : Int) : α
  /-- The scalar of a finite double. -/
  ofFloat? (x : Float) : Option α
  toFloat (a : α) : Float

namespace Scalar

variable {α : Type} [Scalar α]

def isStrictlyPositive (a : α) : Bool := !isNegligible a && isPositive a

def isStrictlyNegative (a : α) : Bool := !isNegligible a && isNegative a

/-- The lesser of two numbers, the first on a tie. -/
def lesser (a b : α) : α := if less b a then b else a

/-- The least member of a list, the first of equals. -/
def least? : List α → Option α
  | [] => none
  | a :: rest => some (rest.foldl lesser a)

/-- The sum of a list, from left to right. -/
def sum (xs : List α) : α := xs.foldl (· + ·) 0

/-- The inner product, summed from left to right. -/
def dot {n : Nat} (u v : Vector α n) : α := sum (Vector.zipWith (· * ·) u v).toList

/-- The value of an entry, when there is one. -/
def value? (entry denominator : Entry α) : Option α :=
  if isDenominator denominator then some (value entry denominator) else none

/-- Pivots on the entry at a position. There is no result for a position outside the matrix, nor
when some row has to be divided by a denominator that cannot divide. -/
def pivotAt? (α : Type) [Scalar α] {r w : Nat} (work : Working (Entry α) r w)
    (row column : Nat) : Option (Working (Entry α) r w) :=
  if h : row < r ∧ column < w then
    if 1 < r && !isDenominator (α := α) work.denominator then none
    else some (pivot (α := α) work ⟨row, h.1⟩ ⟨column, h.2⟩)
  else none

end Scalar

end LexPivot
