import LexPivot.LinearProgram.Simplex

/-!
# Solving linear programs

Two phases of the simplex method. The first one maximises minus the sum of the artificial columns,
which is zero exactly at the feasible bases, and the second one the objective itself.
-/
namespace LexPivot

inductive ProgramStatus where
  | optimal
  | infeasible
  | unbounded
deriving DecidableEq, Repr

/-- A program at the end of the second phase, or of the first one when it is infeasible. -/
structure SolvedProgram (α : Type) [Scalar α] (r v : Nat) where
  simplex : SimplexTableau α r v
  status : ProgramStatus
  /-- The pivots up to the feasible basis, those that install the artificial columns included. -/
  phase1Pivots : Nat

namespace SimplexTableau

variable {α : Type} [Scalar α] {r v : Nat}

/-- Minus one for every artificial column. -/
def phase1Costs (s : SimplexTableau α r v) : Vector α (v + s.artificials) :=
  Vector.ofFn fun j => Fin.addCases (fun _ => 0) (fun _ => -1) j

/-- The objective, and nothing for the artificial columns. -/
def phase2Costs (s : SimplexTableau α r v) (objective : Vector α v) :
    Vector α (v + s.artificials) :=
  Vector.ofFn fun j => Fin.addCases (fun k => objective.get k) (fun _ => 0) j

/-- Leads from the basis that the first phase found to the end of the second one. -/
def solvePhase2 (s : SimplexTableau α r v) (objective : Vector α v) :
    Except PivotError (SolvedProgram α r v) :=
  match s.removeArtificials.stateOrError with
  | .error e => .error e
  | .ok feasible =>
    match { feasible with costs := feasible.phase2Costs objective }.optimize with
    | ⟨.error e, _⟩ => .error e
    | ⟨.ok outcome, final⟩ =>
      let status : ProgramStatus :=
        match outcome with
        | .optimal => .optimal
        | .unbounded _ => .unbounded
      -- Removing the artificial labels still counts as a part of the first phase.
      .ok ⟨final, status, feasible.tableau.pivots⟩

end SimplexTableau

variable {α : Type} [Scalar α] {r v : Nat}

/-- Solves a linear program. -/
def LinearProgram.solve (p : LinearProgram α r v) : Except PivotError (SolvedProgram α r v) :=
  match SimplexTableau.ofConstraints p.toConstraints with
  | .error e => .error e
  | .ok s =>
    -- These costs are bounded above by zero, so only the basis they lead to matters.
    match { s with costs := s.phase1Costs }.optimize.stateOrError with
    | .error e => .error e
    | .ok s =>
      if s.artificialIsPositive then .ok ⟨s, .infeasible, s.tableau.pivots⟩
      else s.solvePhase2 p.objective

namespace SolvedProgram

def isFeasible (s : SolvedProgram α r v) : Bool := s.status != .infeasible

/-- Whether there is an optimum. -/
def isBounded (s : SolvedProgram α r v) : Bool := s.status == .optimal

/-- The nonzero variables of the optimum. -/
def optimumSolution? (s : SolvedProgram α r v) : Option (BasicSolution α) :=
  if s.isBounded then some s.simplex.primalSolution else none

/-- The variables of the optimum. -/
def optimum? (s : SolvedProgram α r v) : Option (Vector α v) :=
  if s.isBounded then some s.simplex.primal else none

def optimumValue? (s : SolvedProgram α r v) : Option α :=
  if s.isBounded then some s.simplex.objectiveValue else none

/-- The shadow prices of the rows at the optimum. -/
def dualValues? (s : SolvedProgram α r v) : Option (Vector α r) :=
  if s.isBounded then some s.simplex.dualValues else none

def totalPivots (s : SolvedProgram α r v) : Nat := s.simplex.tableau.pivots

def phase2Pivots (s : SolvedProgram α r v) : Nat := s.totalPivots - s.phase1Pivots

end SolvedProgram

end LexPivot
