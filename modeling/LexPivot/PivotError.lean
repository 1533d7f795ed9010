import LexPivot.Label

/-!
# Why a pivoting operation fails

Each constructor is a cause; the wording of all of them is in `PivotError.message`.
-/
namespace LexPivot

/-- The part of the input whose size is wrong. -/
inductive Part where
  | rightHandSide
  | constraintColumns
  | lcpMatrix
  | payoffMatrices
  | strategies
  | equalityRows
  | objective
deriving DecidableEq, Repr

def Part.name : Part → String
  | .rightHandSide => "right-hand side"
  | .constraintColumns => "constraint columns"
  | .lcpMatrix => "LCP matrix"
  | .payoffMatrices => "payoff matrices"
  | .strategies => "strategies"
  | .equalityRows => "equality rows"
  | .objective => "objective"

inductive PivotError where
  /-- The label is not a label of the tableau, or it is basic where it must not be. -/
  | undefinedLabel (label : Label)
  | rowOutside (row : Nat)
  /-- The pivot element is zero. -/
  | singularPivot (row : Nat) (label : Label)
  /-- The entering column bounds no basic variable. -/
  | noExitRow (label : Label)
  | dimensionMismatch (part : Part) (expected found : Nat)
  | notComplementary
  /-- A ratio test among several rows has no ratio in one of them. -/
  | undefinedRatio
  /-- More pivots than there are bases: some basis came back. -/
  | cycling
deriving DecidableEq, Repr

def PivotError.message : PivotError → String
  | .undefinedLabel label => s!"Undefined label: {label.signed}"
  | .rowOutside row => s!"Row {row} is outside the tableau"
  | .singularPivot row label => s!"Singular pivot on row {row} for label {label.signed}"
  | .noExitRow label => s!"No row can leave the basis when label {label.signed} enters"
  | .dimensionMismatch part expected found =>
    s!"Dimension mismatch in {part.name}: expected {expected}, found {found}"
  | .notComplementary => "The tableau is not at a complementary basic feasible solution"
  | .undefinedRatio => "The ratio test is undefined on one of its rows"
  | .cycling => "The pivots return to a basis they have left"

/-- What an operation that may fail part-way returns: its result, and the state it leaves behind,
which on failure holds the steps already taken. -/
structure Attempt (σ α : Type) where
  result : Except PivotError α
  state : σ

namespace Attempt

variable {σ τ α : Type}

/-- The state that a successful operation leaves behind. -/
def stateOrError (a : Attempt σ α) : Except PivotError σ :=
  match a.result with
  | .error e => .error e
  | .ok _ => .ok a.state

/-- The same attempt seen as one on a larger state. -/
def mapState (f : σ → τ) (a : Attempt σ α) : Attempt τ α := ⟨a.result, f a.state⟩

end Attempt

end LexPivot
