import LexPivot.PivotError
import LexPivot.Scalar.Basic

/-!
# Linear constraints and programs

The constraints `A x ≥ b` and `x ≥ 0`, where the last rows hold with equality, and the program to
maximise a linear objective under them.
-/
namespace LexPivot

structure Constraints (α : Type) (r v : Nat) where
  matrix : Grid α r v
  bound : Vector α r
  /-- How many of the last rows hold with equality. -/
  equalities : Nat
  equalities_le : equalities ≤ r

structure LinearProgram (α : Type) (r v : Nat) extends Constraints α r v where
  objective : Vector α v

namespace Constraints

variable {α : Type} {r v : Nat}

def isEquality (k : Constraints α r v) (i : Fin r) : Bool := r - k.equalities ≤ i

/-- The constraints of parts of any size, if they fit. -/
def ofParts (matrix : Grid α r v) (bound : Array α) (equalities : Nat) :
    Except PivotError (Constraints α r v) :=
  if hle : equalities ≤ r then
    if h : bound.size = r then .ok ⟨matrix, ⟨bound, h⟩, equalities, hle⟩
    else .error (.dimensionMismatch .rightHandSide r bound.size)
  else .error (.dimensionMismatch .equalityRows r equalities)

end Constraints

/-- The program of parts of any size, if they fit. -/
def LinearProgram.ofParts {α : Type} {r v : Nat} (matrix : Grid α r v) (bound objective : Array α)
    (equalities : Nat) : Except PivotError (LinearProgram α r v) :=
  if h : objective.size = v then
    match Constraints.ofParts matrix bound equalities with
    | .error e => .error e
    | .ok k => .ok ⟨k, ⟨objective, h⟩⟩
  else .error (.dimensionMismatch .objective v objective.size)

end LexPivot
